import Tyr.Access.Immutable
import Tyr.Access.Misaligned
import Tyr.Wire.Alignment

/-
  Where the field serializers and deserializers claim more than they keep.

  The converse of `Alignment`. A serializer is run on structs whose arrays have one element, but
  for one array with two: if a field lands on multiples of its alignment then, the sizes of the
  elements before it are such multiples, and it does so at every length (`dvd_offset`). A
  deserializer is run on one buffer at two addresses that are a byte apart. `alwaysAligned_iff`
  puts all functions together.
-/

namespace Tyr

open Prog Traced

/-! ## Offsets -/

section Offsets

variable {size : Field → Nat} {P : Field → Nat → Prop} {fs : List Field} {off : Nat}

/-- Field by field, the offset as a sum. -/
theorem along_iff (hcount : ∀ f, f.isCount = true → size f = 0) :
    Along size P fs off ↔ ∀ pre f rest, fs = pre ++ f :: rest → f.isCount = false →
      P f (off + (pre.map size).sum) := by
  induction fs generalizing off with
  | nil =>
    refine ⟨fun _ pre f rest he => ?_, fun _ => trivial⟩
    exact absurd he.symm (List.append_ne_nil_of_right_ne_nil pre (List.cons_ne_nil f rest))
  | cons g fs ih =>
    unfold Along
    cases hg : g.isCount with
    | true =>
      rw [if_pos rfl, ih]
      have hsum : ∀ pre : List Field, ((g :: pre).map size).sum = (pre.map size).sum := by
        intro pre
        rw [List.map_cons, List.sum_cons, hcount g hg, Nat.zero_add]
      constructor
      · intro hall pre f rest he hc
        cases pre with
        | nil =>
          obtain ⟨rfl, -⟩ := List.cons.inj he
          rw [hg] at hc
          cases hc
        | cons x pre =>
          obtain ⟨rfl, hfs⟩ := List.cons.inj he
          rw [hsum]
          exact hall pre f rest hfs hc
      · intro hall pre f rest he hc
        rw [← hsum]
        exact hall (g :: pre) f rest (by rw [he]; rfl) hc
    | false =>
      rw [if_neg Bool.false_ne_true, ih]
      have hsum : ∀ pre : List Field,
          off + ((g :: pre).map size).sum = off + size g + (pre.map size).sum := by
        intro pre
        rw [List.map_cons, List.sum_cons, Nat.add_assoc]
      constructor
      · rintro ⟨hfirst, hall⟩ pre f rest he hc
        cases pre with
        | nil =>
          obtain ⟨rfl, -⟩ := List.cons.inj he
          exact hfirst
        | cons x pre =>
          obtain ⟨rfl, hfs⟩ := List.cons.inj he
          rw [hsum]
          exact hall pre f rest hfs hc
      · intro hall
        refine ⟨hall [] g fs rfl hg, fun pre f rest he hc => ?_⟩
        rw [← hsum]
        exact hall (g :: pre) f rest (by rw [he]; rfl) hc

theorem wireSize_count {DL : DataLayout} {V : Value} {f : Field} (hc : f.isCount = true) :
    V.wireSize DL f = 0 := if_pos hc

end Offsets

/-! ## Lengths of arrays -/

section Lengths

variable {DL : DataLayout} {S : Struct} {V W : Value} {f g : Field} {pre rest : List Field}

theorem wireSize_congr (h : (V.array f).length = (W.array f).length) :
    V.wireSize DL f = W.wireSize DL f := by
  unfold Value.wireSize Value.fieldSize
  rw [h]

/-- Sizes that agree but for multiples of the sizes of elements. -/
theorem sum_modEq {a : Nat}
    (he : ∀ g ∈ pre, g.isRepeated = true → a ∣ DL.allocSize g.elem) (V W : Value) :
    (pre.map (V.wireSize DL)).sum ≡ (pre.map (W.wireSize DL)).sum [MOD a] := by
  induction pre with
  | nil => rfl
  | cons g pre ih =>
    rw [List.map_cons, List.sum_cons, List.map_cons, List.sum_cons]
    refine Nat.ModEq.add ?_ (ih fun x hx => he x (List.mem_cons_of_mem g hx))
    unfold Value.wireSize Field.onWire Value.fieldSize
    split
    · rfl
    · cases hr : g.isRepeated with
      | true =>
        have hg := he g List.mem_cons_self hr
        have hzero : ∀ n, DL.allocSize g.elem * n ≡ 0 [MOD a] := fun n =>
          (Nat.modEq_zero_iff_dvd).mpr (Dvd.dvd.mul_right hg n)
        exact Nat.ModEq.add_left 8 ((hzero _).trans (hzero _).symm)
      | false => rfl

/-- One element more in array `g`. -/
theorem sum_tellApart (wf : S.WellFormed) (hs : S.fields = pre ++ f :: rest) (hg : g ∈ pre)
    (hr : g.isRepeated = true) (hc : g.isCount = false) :
    (pre.map ((Env.tellApart g g 0).wireSize DL)).sum =
      (pre.map ((Env.tellApart f f 0).wireSize DL)).sum + DL.allocSize g.elem := by
  obtain ⟨hf, hnew, hsub⟩ := wf.mem_of_split hs
  have hone : ∀ x y : Field, y.id ≠ x.id → ((Env.tellApart x x 0).array y).length = 1 := by
    intro x y hne
    show (if y.id = x.id then [0, 0] else [0] : List Nat).length = 1
    rw [if_neg hne]
    rfl
  have htwo : ((Env.tellApart g g 0).array g).length = 2 := by
    show (if g.id = g.id then [0, 0] else [0] : List Nat).length = 2
    rw [if_pos rfl]
    rfl
  have hfne : ∀ y ∈ pre, y.id ≠ f.id := fun y hy he =>
    hnew (wf.eq_of_id (hsub y hy) hf he ▸ hy)
  have hsame : ∀ y ∈ pre, y ≠ g → (Env.tellApart g g 0).wireSize DL y =
      (Env.tellApart f f 0).wireSize DL y := by
    intro y hy hne
    have hid : y.id ≠ g.id := fun he => hne (wf.eq_of_id (hsub y hy) (hsub g hg) he)
    exact wireSize_congr ((hone g y hid).trans (hone f y (hfne y hy)).symm)
  have hgsize : (Env.tellApart g g 0).wireSize DL g =
      (Env.tellApart f f 0).wireSize DL g + DL.allocSize g.elem := by
    rw [Value.wireSize_array hr hc, Value.wireSize_array hr hc, Value.fieldSize_array hr,
      Value.fieldSize_array hr, htwo, hone f g (hfne g hg)]
    omega
  have hnd : pre.Nodup := (List.nodup_append.mp (hs ▸ wf.fields_nodup)).1
  obtain ⟨p, q, rfl⟩ := List.append_of_mem hg
  have hndq := List.nodup_middle.mp hnd
  have hnot : ∀ y ∈ p ++ q, y ≠ g := fun y hy he => (List.nodup_cons.mp hndq).1 (he ▸ hy)
  have hp : p.map ((Env.tellApart g g 0).wireSize DL) =
      p.map ((Env.tellApart f f 0).wireSize DL) := List.map_congr_left fun y hy =>
    hsame y (List.mem_append_left _ hy) (hnot y (List.mem_append_left _ hy))
  have hq : q.map ((Env.tellApart g g 0).wireSize DL) =
      q.map ((Env.tellApart f f 0).wireSize DL) := List.map_congr_left fun y hy =>
    hsame y (List.mem_append_right _ (List.mem_cons_of_mem g hy))
      (hnot y (List.mem_append_right _ hy))
  simp only [List.map_append, List.map_cons, List.sum_append, List.sum_cons, hp, hq, hgsize]
  omega

/-- What divides an offset at these lengths divides it at all lengths. -/
theorem dvd_offset (wf : S.WellFormed) (hs : S.fields = pre ++ f :: rest) {a c : Nat}
    (hall : ∀ g ∈ S.fields, a ∣ c + (pre.map ((Env.tellApart g g 0).wireSize DL)).sum)
    (V : Value) : a ∣ c + (pre.map (V.wireSize DL)).sum := by
  obtain ⟨hf, hnew, hsub⟩ := wf.mem_of_split hs
  have helem : ∀ g ∈ pre, g.isRepeated = true → a ∣ DL.allocSize g.elem := by
    intro g hg hr
    have hc := (wf.array_spec (hsub g hg) hr).2.2.2.1
    have htwo := hall g (hsub g hg)
    rw [sum_tellApart wf hs hg hr hc, ← Nat.add_assoc] at htwo
    exact (Nat.dvd_add_right (hall f hf)).mp htwo
  exact (((sum_modEq helem V (Env.tellApart f f 0)).add_left c).dvd_iff (Nat.dvd_refl a)).mpr
    (hall f hf)

end Lengths

namespace Env

variable {E : Env} {S : Struct} {V : Value} {f : Field} {h g : Heap} {b r : Nat} {blk : Block}

/-! ## Structs with arrays -/

theorem FieldLoaded.arrayOk {lo : Nat} (hr : f.isRepeated = true)
    (hload : E.FieldLoaded S V lo h blk f) : E.ArrayOk S h blk f := by
  unfold FieldLoaded at hload
  rw [if_pos hr] at hload
  obtain ⟨hcount, d, arr, -, hp, hd, hlen, -⟩ := hload
  refine Or.inr ⟨d, arr, hp, hd, ?_⟩
  rw [hlen, exactSizeFor, hcount, Value.fieldSize_array hr]

/-- A value whose elements are 0 is that of some object. -/
theorem exists_object (flat : S.IsFlat) (hfun : Resolves E S)
    (hA : ∀ t n, E.alloc.succeeds t n = true)
    (hstruct : E.layout.structSize S.packed S.elements < 2 ^ 64) (hV : V.Bounded E.layout S)
    (hsw : ∀ f ∈ S.fields, f.isCount = false → E.FieldSwappable V f)
    (hsize : V.size E.layout S < 2 ^ 64) (hzero : ∀ f ∈ S.fields, ∀ v ∈ V.array f, v = 0) :
    ∃ h b blk, h.block? b = some blk ∧ E.HasValue S V h blk ∧
      ∀ f ∈ S.fields, f.isRepeated = true → E.ArrayOk S h blk f := by
  have wf := flat.toWellFormed
  have hw := wire_image (E := E) wf hzero
  have hlen := hw.length
  set buf : Block := ⟨E.image S V, by rw [hlen]; exact hsize⟩ with hbuf
  have ha : (Heap.mk [some buf] 0).block? 0 = some buf := rfl
  obtain ⟨h, obj, -, hl, hrep, hload⟩ := getDeserializer_loaded flat hfun hA hstruct hV hsw hw ha
  exact ⟨h, _, obj, hl, hrep, fun f hf hr =>
    (hload f hf (wf.array_spec hf hr).2.2.2.1).arrayOk hr⟩

/-! ## What a field serializer reaches -/

/-- The first item is loaded. -/
theorem met_swapArrayBytes {P : Access → Prop} {t : Ty} {o n : I64} (hsc : t.IsScalar)
    (hsw : E.layout.Swaps t) (hall : Every P (Emitted.swapArrayBytes E t (.loc r o) n) g) :
    P ⟨.loc r o, E.layout.getABITypeAlignment t⟩ := by
  obtain ⟨hBE, hs⟩ := hsw
  have hloop : Every P (Emitted.swapLoop E t (.loc r o) n 0) g →
      P ⟨.loc r o, E.layout.getABITypeAlignment t⟩ := by
    intro hall
    unfold Emitted.swapLoop at hall
    have hload := Emitted.every_loadTy.mp (every_bind.mp hall).1
    rwa [itemGEP_zero] at hload
  unfold Emitted.swapArrayBytes at hall
  rw [if_neg (by simp [hBE])] at hall
  refine hloop ?_
  cases t with
  | int k =>
    have hk : k % 8 = 0 := by simpa [Ty.isSwapped] using hs
    have hif : Every P (if k % 8 ≠ 0 then pure ()
      else Emitted.swapLoop E (.int k) (.loc r o) n 0) g := hall
    rwa [if_neg (by simp [hk])] at hif
  | float => exact hall
  | double => exact hall
  | struct i s => exact hsc.elim
  | ptr t => exact hsc.elim

variable (E S) in
/-- The slots of `f` and of its count are aligned. -/
def SlotsMet (f : Field) : Prop :=
  E.SlotMet S f ∧ (f.isRepeated = true → E.SlotMet S (S.countOf f))

variable (E) in
/-- In some block the part of a buffer at `off` is aligned for `f`. -/
def WireMet (f : Field) (off : Nat) : Prop :=
  (∃ r, E.Meets ⟨.loc r (BitVec.ofNat 64 off), E.layout.wireAlignment f⟩) ∧
  (f.isRepeated = true → E.layout.Swaps f.elem →
    ∃ r, E.Meets ⟨.loc r (BitVec.ofNat 64 (off + 8)), E.layout.getABITypeAlignment f.elem⟩)

section Serialize

variable (flat : S.IsFlat)
include flat

/-- The size of a count -/
theorem size_countOf (hf : f ∈ S.fields) (hr : f.isRepeated = true) {Self : Ptr} {n : I64}
    {g' : Heap} (hrun : (Emitted.getFieldAllocSize E S (S.countOf f) Self).erase g = .ok (n, g')) :
    n = 8 := by
  have wf := flat.toWellFormed
  obtain ⟨-, -, -, -, -, hcm, hcc, -⟩ := wf.array_spec hf hr
  rw [Emitted.erase_getFieldAllocSize, getFieldAllocSize,
    if_neg (by simp [(wf.count_spec hcm hcc).2.2.1]), wf.countOf_type hf hr,
    E.layout.allocSize_i64] at hrun
  cases hrun
  rfl

theorem met_fieldSerializer (hf : f ∈ S.fields) {off : Nat} {res : I64 × Heap}
    (hall : Every E.Meets
      (Emitted.fieldSerializer E S f (.base b) (.loc r (BitVec.ofNat 64 off))) g)
    (hok : (Emitted.fieldSerializer E S f (.base b) (.loc r (BitVec.ofNat 64 off))).erase g =
      .ok res) : E.SlotsMet S f ∧ E.WireMet f off := by
  have wf := flat.toWellFormed
  unfold Emitted.fieldSerializer at hall hok
  rw [Emitted.insertNullCheck_loc] at hall hok
  obtain ⟨v, g₁, -, hslot, hall, hok⟩ := hall.next hok
  have hmet : E.SlotMet S f := ⟨b, Emitted.every_loadTy.mp hslot⟩
  rw [if_neg (by simp [flat.isStruct f hf])] at hall hok
  unfold WireMet DataLayout.wireAlignment
  cases hr : f.isRepeated with
  | true =>
    obtain ⟨ht, -, -, -, hd, -⟩ := wf.array_spec hf hr
    have hpt := wf.pointee hf hr
    rw [if_pos hr, hpt, hd] at hall hok
    obtain ⟨n, g₂, -, hcount, hall, hok⟩ := hall.next hok
    obtain ⟨u, g₃, -, hfront, hall, hok⟩ := hall.next hok
    obtain ⟨out, g₄, hout, -, hall, hok⟩ := hall.next hok
    obtain ⟨size, g₅, -, -, hall, hok⟩ := hall.next hok
    obtain ⟨u, g₆, -, -, hall, hok⟩ := hall.next hok
    obtain ⟨u, g₇, -, hswap, -⟩ := hall.next hok
    obtain rfl := size_countOf flat hf hr hout
    refine ⟨⟨hmet, fun _ => ⟨b, ?_⟩⟩, ⟨r, Emitted.every_storeI64.mp hfront⟩, fun _ hsw => ⟨r, ?_⟩⟩
    · rw [wf.countOf_type hf hr]
      exact Emitted.every_loadI64.mp hcount
    · rw [BitVec.ofNat_add]
      exact met_swapArrayBytes (flat.elem_isScalar hf hr) hsw hswap
  | false =>
    rw [if_neg (by simp [hr])] at hall hok
    obtain ⟨w, g₂, -, -, hall, hok⟩ := hall.next hok
    obtain ⟨size, g₃, -, -, hall, hok⟩ := hall.next hok
    obtain ⟨u, g₄, -, hfront, -⟩ := hall.next hok
    refine ⟨⟨hmet, fun hr' => ?_⟩, ⟨r, Emitted.every_storeTy.mp hfront⟩, fun hr' => ?_⟩
    · rw [hr] at hr'
      cases hr'
    · cases hr'

/-- The field serializers, one after the other. -/
theorem met_serializeEntries (hfun : Resolves E S) (hl : h.block? b = some blk)
    (hb : E.Holds S blk) (hr : h.next ≤ r) (hsize : ∀ f ∈ S.fields, f.isCount = false →
      E.wireSize S blk f = BitVec.ofNat 64 (V.wireSize E.layout f)) :
    ∀ (fs : List Field) (off : Nat) (g : Heap) (res : I64 × Heap), (∀ f ∈ fs, f ∈ S.fields) →
      h.Extends g →
      Every E.Meets
        (Emitted.serializeEntries E S (.base b) (.base r) fs (BitVec.ofNat 64 off)) g →
      (Emitted.serializeEntries E S (.base b) (.base r) fs (BitVec.ofNat 64 off)).erase g =
        .ok res →
      Along (V.wireSize E.layout) (fun f o => E.SlotsMet S f ∧ E.WireMet f o) fs off := by
  intro fs
  induction fs with
  | nil => exact fun _ _ _ _ _ _ _ => trivial
  | cons f fs ih =>
    intro off g res hm he hall hok
    have hf := hm f List.mem_cons_self
    have hm' : ∀ g ∈ fs, g ∈ S.fields := fun g hg => hm g (List.mem_cons_of_mem f hg)
    unfold Emitted.serializeEntries at hall hok
    unfold Along
    cases hc : f.isCount with
    | true =>
      rw [if_pos hc] at hall hok
      rw [if_pos rfl]
      exact ih off g res hm' he hall hok
    | false =>
      have hp : (Ptr.loc r (BitVec.ofNat 64 off)).Into (h.next ≤ ·) := by
        intro d o hd
        obtain ⟨rfl, -⟩ := Ptr.loc.inj hd
        exact hr
      simp only [hc, Bool.false_eq_true, if_false, hfun.serializer hf hc] at hall hok
      rw [Ptr.add_loc, show (0 : I64) + BitVec.ofNat 64 off = BitVec.ofNat 64 off from
        BitVec.zero_add _] at hall hok
      obtain ⟨n, g₁, hrun, hfield, hall, hok⟩ := hall.next hok
      obtain ⟨he₁, hn⟩ := fieldSerializer_triple flat hl hb hf hp g n g₁ he
        (by rwa [Emitted.erase_fieldSerializer] at hrun)
      rw [hn, hsize f hf hc, ← BitVec.ofNat_add] at hall hok
      rw [if_neg Bool.false_ne_true]
      exact ⟨met_fieldSerializer flat hf hfield hrun, ih _ g₁ res hm' he₁ hall hok⟩

omit flat in
theorem wireSize_of_hasValue (hrep : E.HasValue S V h blk) (hf : f ∈ S.fields)
    (hc : f.isCount = false) :
    E.wireSize S blk f = BitVec.ofNat 64 (V.wireSize E.layout f) := by
  rw [wireSize_lengthsOf hc]
  congr 1
  cases hr : f.isRepeated with
  | true =>
    refine wireSize_congr ?_
    rw [← hrep.count f hf hr]
    exact List.length_replicate
  | false => rw [Value.wireSize_scalar hr hc, Value.wireSize_scalar hr hc]

/-- `serialize_S` on an object with the value `V`. -/
theorem met_getSerializer (hfun : Resolves E S) (hl : h.block? b = some blk)
    (hrep : E.HasValue S V h blk)
    (harrays : ∀ f ∈ S.fields, f.isRepeated = true → E.ArrayOk S h blk f)
    (hsize : V.size E.layout S < 2 ^ 64)
    (hsw : ∀ f ∈ S.fields, f.isCount = false → E.FieldSwappable V f)
    (hA : ∀ t n, E.alloc.succeeds t n = true) (hall : E.AlwaysAligned S .serialize) :
    Along (V.wireSize E.layout) (fun f o => E.SlotsMet S f ∧ E.WireMet f o) S.fields 8 := by
  have hb := hrep.holds
  have hI := Heap.Extends.frame h
  obtain ⟨buf, hok, -⟩ := getSerializer_wire hrep flat hsize hfun hl hsw (hA _ _)
  have hrun := hall h b ⟨blk, hl, hb, harrays⟩
  rw [← Emitted.erase_getSerializer] at hok
  unfold Emitted.getSerializer Emitted.serializeWithIDX at hrun hok
  rw [Emitted.insertNullCheck_loc] at hrun hok
  obtain ⟨res, g, hok, hrun, -⟩ := hrun.next hok
  obtain ⟨size, h₁, hsum, -, hrun, hok⟩ := hrun.next hok
  have he₁ : h.Extends h₁ :=
    E.sumAllocSizes_triple S (.base b) S.fields 8 h size h₁ (Heap.Extends.refl h) hsum
  obtain ⟨q, h₂, hmalloc, -, hrun, hok⟩ := hrun.next hok
  obtain ⟨rfl, rfl⟩ := Prod.mk.inj (Except.ok.inj ((malloc_ok (hA _ _)).symm.trans hmalloc))
  rw [Emitted.insertNullCheck_loc] at hrun hok
  obtain ⟨u, h₃, hstore, -, hrun, hok⟩ := hrun.next hok
  have hinto : (Ptr.base h₁.next).Into (h.next ≤ ·) := by
    intro d o hd
    obtain ⟨rfl, -⟩ := Ptr.loc.inj hd
    exact he₁.next_le
  have he₃ := hI.storeI64 E hinto _ _ _ h₃ (he₁.push _) hstore
  obtain ⟨idx, h₄, hentries, hrun, -⟩ := hrun.next hok
  exact met_serializeEntries flat hfun hl hb he₁.next_le
    (fun f hf hc => wireSize_of_hasValue hrep hf hc) S.fields 8 h₃ _ (fun _ hf => hf) he₃ hrun
    hentries

end Serialize

/-! ## What a field deserializer reaches -/

variable (E) in
/-- In some buffer the part at `off` is aligned for `f`, and so is a new array. -/
def BufferMet (f : Field) (off : Nat) : Prop :=
  (∃ a, E.Meets ⟨.loc a (BitVec.ofNat 64 off), E.layout.wireAlignment f⟩) ∧
  (f.isRepeated = true → E.layout.Swaps f.elem →
    ∃ d, E.Meets ⟨.base d, E.layout.getABITypeAlignment f.elem⟩)

section Deserialize

variable (flat : S.IsFlat) (hA : ∀ t n, E.alloc.succeeds t n = true) {a s : Nat} {buf obj : Block}
include flat hA

theorem met_fieldDeserializer (hf : f ∈ S.fields) {off : Nat} {res : I64 × Heap}
    (hall : Every E.Meets
      (Emitted.fieldDeserializer E S f (.base s) (.loc a (BitVec.ofNat 64 off))) g)
    (hok : (Emitted.fieldDeserializer E S f (.base s) (.loc a (BitVec.ofNat 64 off))).erase g =
      .ok res) : E.SlotsMet S f ∧ E.BufferMet f off := by
  have wf := flat.toWellFormed
  unfold Emitted.fieldDeserializer at hall hok
  rw [Emitted.insertNullCheck_loc, if_neg (by simp [flat.isStruct f hf])] at hall hok
  unfold SlotsMet BufferMet DataLayout.wireAlignment
  cases hr : f.isRepeated with
  | true =>
    obtain ⟨ht, -, -, -, hd, -⟩ := wf.array_spec hf hr
    have hpt := wf.pointee hf hr
    rw [if_pos (by rw [ht]; rfl), hpt, hd] at hall hok
    obtain ⟨n, g₁, -, hfront, hall, hok⟩ := hall.next hok
    obtain ⟨u, g₂, -, hcount, hall, hok⟩ := hall.next hok
    obtain ⟨out, g₃, -, -, hall, hok⟩ := hall.next hok
    obtain ⟨size, g₄, -, -, hall, hok⟩ := hall.next hok
    obtain ⟨q, g₅, hmalloc, -, hall, hok⟩ := hall.next hok
    obtain ⟨rfl, rfl⟩ := Prod.mk.inj (Except.ok.inj ((malloc_ok (hA _ _)).symm.trans hmalloc))
    rw [Emitted.insertNullCheck_loc] at hall hok
    obtain ⟨u, g₆, -, -, hall, hok⟩ := hall.next hok
    obtain ⟨u, g₇, -, hswap, hall, hok⟩ := hall.next hok
    obtain ⟨u, g₈, -, hslot, -⟩ := hall.next hok
    refine ⟨⟨⟨s, Emitted.every_storeTy.mp hslot⟩, fun _ => ⟨s, ?_⟩⟩,
      ⟨a, Emitted.every_loadI64.mp hfront⟩, fun _ hsw => ⟨g₄.next, ?_⟩⟩
    · rw [wf.countOf_type hf hr]
      exact Emitted.every_storeI64.mp hcount
    · exact met_swapArrayBytes (flat.elem_isScalar hf hr) hsw hswap
  | false =>
    rw [if_neg (by simp [not_pointer wf hf (flat.isStruct f hf) hr])] at hall hok
    obtain ⟨v, g₁, -, hfront, hall, hok⟩ := hall.next hok
    obtain ⟨w, g₂, -, -, hall, hok⟩ := hall.next hok
    obtain ⟨size, g₃, -, -, hall, hok⟩ := hall.next hok
    obtain ⟨u, g₄, -, hslot, -⟩ := hall.next hok
    refine ⟨⟨⟨s, Emitted.every_storeTy.mp hslot⟩, fun hr' => ?_⟩,
      ⟨a, Emitted.every_loadTy.mp hfront⟩, fun hr' => ?_⟩
    · cases hr'
    · cases hr'

/-- The field deserializers, one after the other, on a buffer that begins at `s₀`. -/
theorem met_deserializeEntries (hfun : Resolves E S) (has : a ≠ s) (s₀ : Nat) :
    ∀ (fs : List Field) (off : Nat) (g : Heap) (obj : Block),
      (∀ f ∈ fs, f ∈ S.fields ∧ (f.isCount = false → E.FieldSwappable V f)) →
      g.block? a = some buf → g.block? s = some obj → E.Holds S obj →
      s₀ + off + (fs.map (V.wireSize E.layout)).sum ≤ buf.cells.length →
      Along (V.wireSize E.layout) (E.FieldWire V buf.cells) fs (s₀ + off) →
      Every E.Meets (Emitted.deserializeEntries E S (.loc a (BitVec.ofNat 64 s₀)) (.base s) fs
        (BitVec.ofNat 64 off)) g →
      Along (V.wireSize E.layout) (fun f o => E.SlotsMet S f ∧ E.BufferMet f o) fs (s₀ + off) := by
  intro fs
  induction fs with
  | nil => exact fun _ _ _ _ _ _ _ _ _ _ => trivial
  | cons f fs ih =>
    intro off g obj hm ha hl hb hfit hwire hall
    obtain ⟨hf, hsw⟩ := hm f List.mem_cons_self
    have hm' : ∀ g ∈ fs, g ∈ S.fields ∧ (g.isCount = false → E.FieldSwappable V g) :=
      fun g hg => hm g (List.mem_cons_of_mem f hg)
    rw [List.map_cons, List.sum_cons] at hfit
    unfold Along at hwire ⊢
    unfold Emitted.deserializeEntries at hall
    cases hc : f.isCount with
    | true =>
      rw [if_pos hc] at hall hwire
      rw [if_pos rfl]
      exact ih off g obj hm' ha hl hb (by omega) hwire hall
    | false =>
      simp only [hc, Bool.false_eq_true, if_false, hfun.deserializer hf hc] at hall hwire ⊢
      rw [Ptr.add_loc, ← BitVec.ofNat_add] at hall
      have hlt := buf.fits
      have hoff : (BitVec.ofNat 64 (s₀ + off)).toNat = s₀ + off := by
        rw [BitVec.toNat_ofNat]
        exact Nat.mod_eq_of_lt (by omega)
      obtain ⟨g₁, obj₁, hrun, hadv, -⟩ := fieldDeserializer_wire (o := BitVec.ofNat 64 (s₀ + off))
        flat ha has hl hb hA hf hc (hsw hc) (by rw [hoff]; exact hwire.1.count)
        (by rw [hoff]; omega)
      rw [← Emitted.erase_fieldDeserializer] at hrun
      have ha₁ : g₁.block? a = some buf := by rw [hadv.other a (Heap.lt_next ha) has, ha]
      have hb₁ : E.Holds S obj₁ := by
        rw [Holds, hadv.length]
        exact hb
      have hrest := hall.after hrun
      rw [← BitVec.ofNat_add] at hrest
      refine ⟨met_fieldDeserializer flat hA hf (every_bind.mp hall).1 hrun, ?_⟩
      rw [Nat.add_assoc]
      exact ih _ g₁ obj₁ hm' ha₁ hadv.block hb₁ (by omega) (by rw [← Nat.add_assoc]; exact hwire.2)
        hrest

/-- `deserialize_S` on a buffer that begins at `s₀`. -/
theorem met_getDeserializer (hfun : Resolves E S)
    (hstruct : E.layout.structSize S.packed S.elements < 2 ^ 64) (s₀ : Nat)
    (hsw : ∀ f ∈ S.fields, f.isCount = false → E.FieldSwappable V f)
    (hzero : ∀ f ∈ S.fields, ∀ v ∈ V.array f, v = 0)
    (hsize : s₀ + V.size E.layout S < 2 ^ 64) (hall : E.AlwaysAligned S .deserialize) :
    Along (V.wireSize E.layout) (fun f o => E.SlotsMet S f ∧ E.BufferMet f o) S.fields
      (s₀ + 8) := by
  have wf := flat.toWellFormed
  set front : List Cell := List.replicate (s₀ + 8) (.byte 0) with hfront
  have hlen : (front ++ S.fields.flatMap (E.fieldImage V)).length = s₀ + V.size E.layout S := by
    have hw := (wire_image (E := E) wf hzero).length
    unfold image at hw
    rw [List.length_append, List.length_map, length_toLE] at hw
    rw [List.length_append, hfront, List.length_replicate]
    omega
  have hwire := along_image (E := E) S.fields front hzero
  have hfl : front.length = s₀ + 8 := List.length_replicate
  rw [hfl] at hwire
  set buf : Block := ⟨front ++ S.fields.flatMap (E.fieldImage V), by rwa [hlen]⟩ with hbuf
  have ha : (Heap.mk [some buf] 0).block? 0 = some buf := rfl
  have hcells : buf.cells.length = s₀ + V.size E.layout S := hlen
  have hsum := sum_fieldWire (E := E) (V := V) wf
  have hto : (BitVec.ofNat 64 s₀).toNat = s₀ := by
    rw [BitVec.toNat_ofNat]
    exact Nat.mod_eq_of_lt (by omega)
  have hrun := hall (Heap.mk [some buf] 0) (.loc 0 (BitVec.ofNat 64 s₀))
  unfold Emitted.getDeserializer at hrun
  have hheader := every_quiet_bind.mp hrun _ _ (loadI64_ok ha (by rw [hto]; omega))
  rw [Emitted.insertNullCheck_loc] at hheader
  have hstart := every_quiet_bind.mp hheader _ _ (malloc_ok (hA _ _))
  rw [Emitted.insertNullCheck_loc] at hstart
  refine met_deserializeEntries flat hA hfun (Nat.ne_of_lt (Heap.lt_next ha)) s₀ S.fields 8 _ _
    (fun f hf => ⟨hf, hsw f hf⟩) (Heap.block?_push_of_some ha _) (Heap.block?_push_self _ _)
    (holds_fresh hstruct _) ?_ hwire (every_bind.mp hstart).1
  omega

end Deserialize

/-! ## Both allocators -/

section Shifted

variable {DL : DataLayout} {off : Nat}

theorem wireAligned_of_met (hmet : ∀ k, (ofStruct (.shifted k) DL S).WireMet f off) :
    DL.WireAligned f off := by
  obtain ⟨h16, ho⟩ := dvd_of_meets (o := BitVec.ofNat 64 off) fun k => (hmet k).1
  refine ⟨(dvd_toNat_ofNat h16 off).mp ho, fun hr hsw => ?_⟩
  obtain ⟨he16, heo⟩ := dvd_of_meets (o := BitVec.ofNat 64 (off + 8)) fun k => (hmet k).2 hr hsw
  exact ⟨he16, (dvd_toNat_ofNat he16 _).mp heo⟩

/-- A buffer at two addresses that are a byte apart. -/
theorem byte_of_met (hmet : ∀ k, (ofStruct (.shifted k) DL S).BufferMet f off)
    (hnext : ∀ k, (ofStruct (.shifted k) DL S).BufferMet f (1 + off)) :
    DL.wireAlignment f = 1 ∧
      (f.isRepeated = true → DL.Swaps f.elem → DL.getABITypeAlignment f.elem ∣ 16) := by
  obtain ⟨h16, ho⟩ := dvd_of_meets (o := BitVec.ofNat 64 off) fun k => (hmet k).1
  obtain ⟨-, ho'⟩ := dvd_of_meets (o := BitVec.ofNat 64 (1 + off)) fun k => (hnext k).1
  refine ⟨?_, fun hr hsw => (dvd_of_meets (o := 0) fun k => (hmet k).2 hr hsw).1⟩
  rw [dvd_toNat_ofNat h16] at ho ho'
  exact Nat.dvd_one.mp ((Nat.dvd_add_left ho).mp ho')

theorem slotsAligned_of_met (hmet : ∀ k, (ofStruct (.shifted k) DL S).SlotsMet S f) :
    DL.SlotAligned S f ∧ (f.isRepeated = true → DL.SlotAligned S (S.countOf f)) :=
  ⟨slotAligned_of_met fun k => (hmet k).1, fun hr => slotAligned_of_met fun k => (hmet k).2 hr⟩

/-- Every field is one that is in a buffer or the count of one. -/
theorem slotAligned_all (wf : S.WellFormed)
    (hslots : ∀ f ∈ S.fields, f.isCount = false →
      DL.SlotAligned S f ∧ (f.isRepeated = true → DL.SlotAligned S (S.countOf f))) :
    ∀ f ∈ S.fields, DL.SlotAligned S f := by
  intro f hf
  cases hc : f.isCount with
  | true =>
    obtain ⟨-, -, -, r, hrm, hr, -, hco⟩ := wf.count_spec hf hc
    rw [← hco]
    exact (hslots r hrm (wf.array_spec hrm hr).2.2.2.1).2 hr
  | false => exact (hslots f hf hc).1

end Shifted

end Env

/-! ## Every function -/

section Necessary

variable {DL : DataLayout} {S : Struct} (flat : S.IsFlat) (hn : S.DistinctNames)
  (hstruct : DL.structSize S.packed S.elements < 2 ^ 64)
  (hfit : (Value.byId (fun _ => 0) fun _ => [0, 0]).size DL S + 1 < 2 ^ 64) (hsw : DL.CanSwap S)
include flat hn hstruct hfit hsw

/-- An object whose arrays have one element, but for two in `g`. -/
theorem exists_twoAt {g : Field} (hg : g ∈ S.fields) (k : Nat) :
    ∃ h b blk, h.block? b = some blk ∧
      (Env.ofStruct (.shifted k) DL S).HasValue S (Env.tellApart g g 0) h blk ∧
      ∀ f ∈ S.fields, f.isRepeated = true →
        (Env.ofStruct (.shifted k) DL S).ArrayOk S h blk f :=
  Env.exists_object flat (Env.resolves_ofStruct _ DL hn) (fun _ _ => rfl) hstruct
    (Env.bounded_tellApart flat.toWellFormed hg fun _ => Nat.two_pow_pos _)
    (Env.fieldSwappable_tellApart rfl hsw) (Env.size_tellApart (Nat.lt_of_succ_lt hfit))
    fun f _ => Env.tellApart_zero f

theorem alignedWhen_serialize
    (hall : ∀ k, (Env.ofStruct (.shifted k) DL S).AlwaysAligned S .serialize) :
    Operation.AlignedWhen DL S .serialize := by
  have wf := flat.toWellFormed
  have halong : ∀ g ∈ S.fields, ∀ pre f rest, S.fields = pre ++ f :: rest → f.isCount = false →
      (DL.SlotAligned S f ∧ (f.isRepeated = true → DL.SlotAligned S (S.countOf f))) ∧
      DL.WireAligned f (8 + (pre.map ((Env.tellApart g g 0).wireSize DL)).sum) := by
    intro g hg pre f rest hs hc
    have hmet : ∀ k, (Env.ofStruct (.shifted k) DL S).SlotsMet S f ∧
        (Env.ofStruct (.shifted k) DL S).WireMet f
          (8 + (pre.map ((Env.tellApart g g 0).wireSize DL)).sum) := by
      intro k
      obtain ⟨h, b, blk, hl, hrep, harrays⟩ := exists_twoAt flat hn hstruct hfit hsw hg k
      exact (along_iff fun _ => wireSize_count).mp (Env.met_getSerializer flat
        (Env.resolves_ofStruct _ DL hn) hl hrep harrays
        (Env.size_tellApart (Nat.lt_of_succ_lt hfit))
        (Env.fieldSwappable_tellApart rfl hsw) (fun _ _ => rfl) (hall k)) pre f rest hs hc
    exact ⟨Env.slotsAligned_of_met fun k => (hmet k).1,
      Env.wireAligned_of_met fun k => (hmet k).2⟩
  refine ⟨Env.slotAligned_all wf fun f hf hc => ?_, fun V => ?_⟩
  · obtain ⟨pre, rest, hs⟩ := List.append_of_mem hf
    exact (halong f hf pre f rest hs hc).1
  · refine (along_iff fun _ => wireSize_count).mpr fun pre f rest hs hc => ⟨?_, fun hr hswap => ?_⟩
    · exact dvd_offset wf hs (fun g hg => (halong g hg pre f rest hs hc).2.1) V
    · have helem := fun g hg => (halong g hg pre f rest hs hc).2.2 hr hswap
      refine ⟨(helem f (wf.mem_of_split hs).1).1, ?_⟩
      rw [Nat.add_right_comm]
      refine dvd_offset wf hs (fun g hg => ?_) V
      rw [← Nat.add_right_comm]
      exact (helem g hg).2

theorem alignedWhen_deserialize
    (hall : ∀ k, (Env.ofStruct (.shifted k) DL S).AlwaysAligned S .deserialize) :
    Operation.AlignedWhen DL S .deserialize := by
  have wf := flat.toWellFormed
  have hmet : ∀ s₀ ≤ 1, ∀ pre f rest, S.fields = pre ++ f :: rest → f.isCount = false →
      ∀ k, (Env.ofStruct (.shifted k) DL S).SlotsMet S f ∧
        (Env.ofStruct (.shifted k) DL S).BufferMet f
          (s₀ + 8 + (pre.map ((Env.tellApart f f 0).wireSize DL)).sum) := by
    intro s₀ hs₀ pre f rest hs hc k
    have hle : (Env.tellApart f f 0).size DL S ≤
        (Value.byId (fun _ => 0) fun _ => [0, 0]).size DL S := Env.size_tellApart_le
    have hsize : s₀ + (Env.tellApart f f 0).size DL S < 2 ^ 64 := by omega
    exact (along_iff fun _ => wireSize_count).mp (Env.met_getDeserializer flat (fun _ _ => rfl)
      (Env.resolves_ofStruct _ DL hn) hstruct s₀ (Env.fieldSwappable_tellApart rfl hsw)
      (fun g _ => Env.tellApart_zero g) hsize (hall k)) pre f rest hs hc
  have hslots : ∀ f ∈ S.fields, DL.SlotAligned S f := Env.slotAligned_all wf fun f hf hc => by
    obtain ⟨pre, rest, hs⟩ := List.append_of_mem hf
    exact Env.slotsAligned_of_met fun k => (hmet 0 (by decide) pre f rest hs hc k).1
  refine fun f hf => ⟨hslots f hf, fun hc => ?_⟩
  obtain ⟨pre, rest, hs⟩ := List.append_of_mem hf
  have hfront : ∀ k, (Env.ofStruct (.shifted k) DL S).BufferMet f
      (8 + (pre.map ((Env.tellApart f f 0).wireSize DL)).sum) := by
    intro k
    have hat := (hmet 0 (by decide) pre f rest hs hc k).2
    rwa [Nat.zero_add] at hat
  refine Env.byte_of_met hfront fun k => ?_
  have hat := (hmet 1 (by decide) pre f rest hs hc k).2
  rwa [Nat.add_assoc] at hat

theorem alignedWhen_getItem {f : Field} (hf : f ∈ S.fields) (hr : f.isRepeated = true)
    (hmet : ∀ k h b blk, h.block? b = some blk → (Env.ofStruct (.shifted k) DL S).Holds S blk →
      (∀ g ∈ S.fields, g.isRepeated = true →
        (Env.ofStruct (.shifted k) DL S).ArrayOk S h blk g) →
      0 < (Env.ofStruct (.shifted k) DL S).countAt S blk (S.countOf f) →
      (Env.ofStruct (.shifted k) DL S).SlotMet S f ∧
        (Env.ofStruct (.shifted k) DL S).SlotMet S (S.countOf f) ∧
        ∃ d, (Env.ofStruct (.shifted k) DL S).Meets ⟨.base d, DL.getABITypeAlignment f.elem⟩) :
    DL.SlotAligned S f ∧ DL.SlotAligned S (S.countOf f) ∧
      DL.getABITypeAlignment f.elem ∣ 16 := by
  have hall : ∀ k, (Env.ofStruct (.shifted k) DL S).SlotMet S f ∧
      (Env.ofStruct (.shifted k) DL S).SlotMet S (S.countOf f) ∧
      ∃ d, (Env.ofStruct (.shifted k) DL S).Meets ⟨.base d, DL.getABITypeAlignment f.elem⟩ := by
    intro k
    obtain ⟨h, b, blk, hl, hrep, harrays⟩ := exists_twoAt flat hn hstruct hfit hsw hf k
    refine hmet k h b blk hl hrep.holds harrays ?_
    have htwo : ((Env.tellApart f f 0).array f).length = 2 := by
      show (if f.id = f.id then [0, 0] else [0] : List Nat).length = 2
      rw [if_pos rfl]
      rfl
    rw [BitVec.lt_def, hrep.count f hf hr, htwo]
    decide
  exact ⟨Env.slotAligned_of_met fun k => (hall k).1, Env.slotAligned_of_met fun k => (hall k).2.1,
    (Env.dvd_of_meets (o := 0) fun k => (hall k).2.2).1⟩

/-- Where every call of a function is aligned, the condition holds. -/
theorem alignedWhen_of_alwaysAligned {op : Operation} (hop : S.HasOperation op)
    (hall : ∀ k, (Env.ofStruct (.shifted k) DL S).AlwaysAligned S op) :
    op.AlignedWhen DL S := by
  have wf := flat.toWellFormed
  have hA : ∀ k t n, (Env.ofStruct (.shifted k) DL S).alloc.succeeds t n = true :=
    fun _ _ _ => rfl
  cases op with
  | create =>
    intro f hf
    have hmet := fun k => Env.met_getConstructor flat (hA k) (fun _ _ => rfl) hstruct (hall k) hf
    have hslot := Env.slotAligned_of_met fun k => (hmet k).1
    exact ⟨hslot, fun hm hr => Env.dvd_of_copyMet hslot.1 ((hmet 0).2 hm hr)⟩
  | get f =>
    have hf : f ∈ S.fields := hop
    have hmet := fun k =>
      Env.met_getGetter (E := .ofStruct (.shifted k) DL S) flat hf hstruct (hall k)
    exact ⟨Env.slotAligned_of_met fun k => (hmet k).1,
      fun hr hm => Env.slotAligned_of_met fun k => (hmet k).2 hr hm⟩
  | getItem f =>
    obtain ⟨hf, hr⟩ : f ∈ S.fields ∧ f.isRepeated = true := hop
    exact alignedWhen_getItem flat hn hstruct hfit hsw hf hr fun k h b blk hl hb ha hone =>
      Env.met_getItemGetter wf hf hr hl hb ha hone (hall k)
  | setItem f =>
    obtain ⟨hf, hr⟩ : f ∈ S.fields ∧ f.isRepeated = true := hop
    exact alignedWhen_getItem flat hn hstruct hfit hsw hf hr fun k h b blk hl hb ha hone =>
      Env.met_getItemSetter wf hf hr hl hb ha hone (hall k)
  | set f =>
    obtain ⟨hf, -⟩ : f ∈ S.fields ∧ f.isMutable = true := hop
    cases hr : f.isRepeated with
    | true =>
      have hmet := fun k => Env.met_setArray flat hf (hA k) hstruct (hall k) hr
      have hslot := Env.slotAligned_of_met fun k => (hmet k).1
      refine ⟨hslot, fun _ => ⟨Env.slotAligned_of_met fun k => (hmet k).2.1,
        Env.dvd_of_copyMet hslot.1 (hmet 0).2.2⟩, fun r hrm hr' hco => ?_⟩
      -- an array is no count
      have hcc := (wf.array_spec hrm hr').2.2.2.2.2.2.1
      rw [hco, (wf.array_spec hf hr).2.2.2.1] at hcc
      cases hcc
    | false =>
      have hcounts : ∀ r ∈ S.fields, r.isRepeated = true → S.countOf r = f →
          DL.SlotAligned S f ∧ DL.SlotAligned S r := by
        intro r hrm hr' hco
        have hmet := fun k => Env.met_setCount (E := .ofStruct (.shifted k) DL S) flat hrm hstruct
          hr' (hco ▸ hall k)
        rw [hco] at hmet
        exact ⟨Env.slotAligned_of_met fun k => (hmet k).1,
          Env.slotAligned_of_met fun k => (hmet k).2⟩
      refine ⟨?_, fun hr' => absurd (hr.symm.trans hr') Bool.noConfusion,
        fun r hrm hr' hco => (hcounts r hrm hr' hco).2⟩
      cases hc : f.isCount with
      | true =>
        obtain ⟨-, -, -, r, hrm, hr', -, hco⟩ := wf.count_spec hf hc
        exact (hcounts r hrm hr' hco).1
      | false =>
        exact Env.slotAligned_of_met fun k =>
          Env.met_setScalar (E := .ofStruct (.shifted k) DL S) flat hf hstruct hr hc (hall k)
  | serialize => exact alignedWhen_serialize flat hn hstruct hfit hsw hall
  | deserialize => exact alignedWhen_deserialize flat hn hstruct hfit hsw hall

end Necessary

/-- The condition is enough. -/
theorem alwaysAligned_of_alignedWhen {DL : DataLayout} {S : Struct} (flat : S.IsFlat)
    (hn : S.DistinctNames) {op : Operation} (hop : S.HasOperation op)
    (hwhen : op.AlignedWhen DL S) {A : Allocator} (hA : A.Aligned) :
    (Env.ofStruct A DL S).AlwaysAligned S op := by
  have wf := flat.toWellFormed
  have hfun := Env.resolves_ofStruct A DL hn
  cases op with
  | create =>
    exact Env.aligned_getConstructor wf hA flat (fun f hf => (hwhen f hf).1)
      fun f hf => (hwhen f hf).2
  | get f =>
    have hf : f ∈ S.fields := hop
    exact Env.aligned_getGetter wf hA hf (flat.isStruct f hf) hwhen.1 hwhen.2
  | getItem f =>
    obtain ⟨hf, hr⟩ : f ∈ S.fields ∧ f.isRepeated = true := hop
    exact Env.aligned_getItemGetter wf hA hf hr hwhen.1 hwhen.2.1 hwhen.2.2
  | setItem f =>
    obtain ⟨hf, hr⟩ : f ∈ S.fields ∧ f.isRepeated = true := hop
    exact Env.aligned_getItemSetter wf hA hf hr hwhen.1 hwhen.2.1 hwhen.2.2
  | set f =>
    obtain ⟨hf, -⟩ : f ∈ S.fields ∧ f.isMutable = true := hop
    exact Env.aligned_getSetter wf hA hf (flat.isStruct f hf) hwhen.1 hwhen.2.1 hwhen.2.2
  | serialize => exact Env.aligned_getSerializer flat hfun hA hwhen.1 hwhen.2
  | deserialize =>
    exact Env.aligned_getDeserializer flat hfun hA (fun f hf => (hwhen f hf).1)
      fun f hf => (hwhen f hf).2

/-- A function of a flat struct keeps the alignments it claims if the schema meets the condition;
    otherwise, where the struct and a buffer of it fit into memory and the target can swap the
    types, some call of it does not. -/
theorem alwaysAligned_iff {DL : DataLayout} {S : Struct} (flat : S.IsFlat) (hn : S.DistinctNames)
    {op : Operation} (hop : S.HasOperation op) :
    (op.AlignedWhen DL S →
      ∀ A : Allocator, A.Aligned → (Env.ofStruct A DL S).AlwaysAligned S op) ∧
    (DL.structSize S.packed S.elements < 2 ^ 64 →
      (Value.byId (fun _ => 0) fun _ => [0, 0]).size DL S + 1 < 2 ^ 64 → DL.CanSwap S →
      (∀ A : Allocator, A.Aligned → (Env.ofStruct A DL S).AlwaysAligned S op) →
      op.AlignedWhen DL S) := by
  refine ⟨fun hwhen A hA => alwaysAligned_of_alignedWhen flat hn hop hwhen hA, ?_⟩
  intro hstruct hfit hsw hall
  exact alignedWhen_of_alwaysAligned flat hn hstruct hfit hsw hop fun k =>
    hall _ (Allocator.shifted_aligned k)

/-- `get_path_idx` of a packed `path` is aligned, `deserialize_path` is not. -/
theorem alwaysAligned_path :
    (∀ A : Allocator, A.Aligned → (Env.ofStruct A .default pathStruct).AlwaysAligned pathStruct
      (.get (pathStruct.fields.getD 0 default))) ∧
    ¬ ∀ A : Allocator, A.Aligned →
      (Env.ofStruct A .default pathStruct).AlwaysAligned pathStruct .deserialize := by
  have hget := @alwaysAligned_iff .default _ pathStruct_isFlat pathStruct_distinctNames
    (.get (pathStruct.fields.getD 0 default)) (by decide)
  have hdeserialize := @alwaysAligned_iff .default _ pathStruct_isFlat pathStruct_distinctNames
    .deserialize (by decide)
  constructor
  · refine hget.1 ⟨by decide, fun hr => ?_⟩
    cases hr
  · intro hall
    have hwhen := hdeserialize.2 (by decide) (by decide) (fun f hf hc hBE => absurd hBE (by decide))
      hall
    exact absurd ((hwhen (pathStruct.fields.getD 0 default) (by decide)).2 rfl).1 (by decide)

/-! ## A copy with the alignment of a pointer -/

/-- Two bytes of the caller. -/
def twoBytes : Block := ⟨[.byte 5, .byte 6], by decide⟩

/-- The second of them as an array of one. -/
def secondByte (f : Field) : Val := if f.isRepeated then .ptr (.loc 0 1) else .int 1

/-- `create_s` of `struct s { repeated int8 x }`, which is not packed, copies the caller's byte at
    an odd address as if it were at a multiple of 8. -/
theorem misaligned_copy : bytes.IsFlat ∧ bytes.packed = false ∧
    (Env.ofStruct .calloc .default bytes).address (.loc 0 1) = 4097 ∧
    ⟨.loc 0 1, 8⟩ ∈ (Emitted.getConstructor (.ofStruct .calloc .default bytes) bytes
      ((bytes.fields.filter (! ·.isMutable)).map secondByte) ⟨[some twoBytes], 0⟩).1 ∧
    ¬ (Env.ofStruct .calloc .default bytes).AlwaysAligned bytes .create := by
  have hmem : (⟨.loc 0 1, 8⟩ : Access) ∈
      (Emitted.getConstructor (.ofStruct .calloc .default bytes) bytes
        ((bytes.fields.filter (! ·.isMutable)).map secondByte) ⟨[some twoBytes], 0⟩).1 := by
    decide
  have haddress : (Env.ofStruct .calloc .default bytes).address (.loc 0 1) = 4097 := by decide
  refine ⟨bytesStruct_stable ▸ bytesStruct_isFlat _, rfl, haddress, hmem, fun hall => ?_⟩
  have hargs : (Env.ofStruct .calloc .default bytes).CreateArgs bytes ⟨[some twoBytes], 0⟩
      secondByte := by
    refine ⟨fun f _ _ hr => ⟨1, if_neg (by simp [hr])⟩, ?_⟩
    decide
  have hrun := hall ⟨[some twoBytes], 0⟩ secondByte hargs (by decide)
  have hmet := hrun _ hmem
  exact absurd hmet (by decide)

end Tyr
