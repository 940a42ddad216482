import Tyr.Access.Alignment
import Tyr.Access.Footprint
import Tyr.Wire.FieldOrder

/-
  Alignment of the accesses of the field serializers and deserializers.

  A field serializer stores at a running offset, the sum of what the fields before it took, with
  the alignment of the field's type. `Operation.AlignedWhen` has the condition for `serialize_S`:
  whatever the lengths of the arrays, each field lands on a multiple of its alignment
  (`WireAligned`). For `deserialize_S`, whose buffer is the caller's and may be at any address,
  nothing in the buffer may need an alignment. `aligned_getSerializer` and
  `aligned_getDeserializer` show the conditions to be enough.
-/

namespace Tyr

open Prog Traced

/-! ## The condition on the schema -/

namespace DataLayout

variable (DL : DataLayout) (S : Struct)

/-- Elements of type `t` are swapped one by one. -/
def Swaps (t : Ty) : Prop := DL.bigEndian = true ∧ t.isSwapped = true

/-- The alignment that is claimed at the front of a field's part of a buffer. -/
def wireAlignment (f : Field) : Nat :=
  DL.getABITypeAlignment (if f.isRepeated then .int 64 else f.type)

/-- At offset `off` of a heap block the accesses to a field's part of a buffer are aligned. -/
def WireAligned (f : Field) (off : Nat) : Prop :=
  DL.wireAlignment f ∣ off ∧ (f.isRepeated = true → DL.Swaps f.elem →
    DL.getABITypeAlignment f.elem ∣ 16 ∧ DL.getABITypeAlignment f.elem ∣ off + 8)

end DataLayout

/-- The schemas for which the function keeps every alignment it claims. -/
def Operation.AlignedWhen (DL : DataLayout) (S : Struct) : Operation → Prop
  | .create => ∀ f ∈ S.fields, DL.SlotAligned S f ∧ (f.isMutable = false → f.isRepeated = true →
      DL.getABITypeAlignment f.type ∣ DL.getABITypeAlignment f.elem)
  | .get f => DL.SlotAligned S f ∧
      (f.isRepeated = true → f.isMutable = false → DL.SlotAligned S (S.countOf f))
  | .getItem f => DL.SlotAligned S f ∧ DL.SlotAligned S (S.countOf f) ∧
      DL.getABITypeAlignment f.elem ∣ 16
  | .setItem f => DL.SlotAligned S f ∧ DL.SlotAligned S (S.countOf f) ∧
      DL.getABITypeAlignment f.elem ∣ 16
  | .set f => DL.SlotAligned S f ∧
      (f.isRepeated = true → DL.SlotAligned S (S.countOf f) ∧
        DL.getABITypeAlignment f.type ∣ DL.getABITypeAlignment f.elem) ∧
      ∀ r ∈ S.fields, r.isRepeated = true → S.countOf r = f → DL.SlotAligned S r
  | .serialize => (∀ f ∈ S.fields, DL.SlotAligned S f) ∧
      ∀ V : Value, Along (V.wireSize DL) DL.WireAligned S.fields 8
  | .deserialize => ∀ f ∈ S.fields, DL.SlotAligned S f ∧ (f.isCount = false →
      DL.wireAlignment f = 1 ∧ (f.isRepeated = true → DL.Swaps f.elem →
        DL.getABITypeAlignment f.elem ∣ 16))

namespace DataLayout

variable (DL : DataLayout)

theorem i64_alignment_dvd : DL.getABITypeAlignment (.int 64) ∣ 8 := by
  obtain ⟨k, hk⟩ := DL.getABITypeAlignment_pow2 (.int 64)
  have hle : DL.getABITypeAlignment (.int 64) ≤ 2 ^ 3 := DL.i64_align
  rw [hk] at hle ⊢
  exact Nat.pow_dvd_pow 2 ((Nat.pow_le_pow_iff_right (by decide)).mp hle)

end DataLayout

namespace Env

variable {E : Env} {S : Struct} {f : Field} {b r : Nat} {o : I64} {h g : Heap} {blk : Block}

/-! ## Swapping an array -/

section Swap

variable (hA : E.alloc.Aligned) {t : Ty}
include hA

theorem aligned_swapLoop (ht : E.layout.getABITypeAlignment t ∣ 16)
    (ho : E.layout.getABITypeAlignment t ∣ o.toNat) (n i : I64) :
    ∀ h, Every E.Meets (Emitted.swapLoop E t (.loc r o) n i) h := by
  have hitem : ∀ i, E.Meets ⟨E.itemGEP t (.loc r o) i, E.layout.getABITypeAlignment t⟩ := by
    intro i
    have hsize : E.layout.getABITypeAlignment t ∣ E.layout.allocSize t := dvd_alignTo _ _
    have h64 : E.layout.getABITypeAlignment t ∣ 2 ^ 64 := Nat.dvd_trans ht (by decide)
    refine meets_loc hA ht ?_
    rw [BitVec.toNat_add, Nat.dvd_mod_iff h64, BitVec.toNat_mul]
    refine Nat.dvd_add ho ((Nat.dvd_mod_iff h64).mpr (Dvd.dvd.mul_left ?_ _))
    exact (dvd_toNat_ofNat ht _).mpr hsize
  fun_induction Env.swapLoop E t (.loc r o) n i with
  | case1 i ih =>
    intro h
    unfold Emitted.swapLoop
    refine every_bind.mpr ⟨Emitted.every_loadTy.mpr (hitem i), fun v h₁ _ => ?_⟩
    refine every_quiet_bind.mpr fun w h₂ _ => ?_
    refine every_bind.mpr ⟨Emitted.every_storeTy.mpr (hitem i), fun _ h₃ _ => ?_⟩
    split
    · exact every_pure _
    · next hne => exact ih hne h₃

theorem aligned_swapArrayBytes (hsc : t.IsScalar) (ht : E.layout.Swaps t →
    E.layout.getABITypeAlignment t ∣ 16 ∧ E.layout.getABITypeAlignment t ∣ o.toNat) (n : I64) :
    Every E.Meets (Emitted.swapArrayBytes E t (.loc r o) n) h := by
  unfold Emitted.swapArrayBytes
  split
  · exact every_pure _
  · next hBE =>
    have hloop : t.isSwapped = true → Every E.Meets (Emitted.swapLoop E t (.loc r o) n 0) h := by
      intro hs
      obtain ⟨h1, h2⟩ := ht ⟨by simpa using hBE, hs⟩
      exact aligned_swapLoop hA h1 h2 n 0 h
    cases t with
    | int k =>
      show Every E.Meets (if k % 8 ≠ 0 then _ else _) h
      split
      · exact every_pure _
      · next hk => exact hloop (by simpa [Ty.isSwapped] using hk)
    | float => exact hloop rfl
    | double => exact hloop rfl
    | struct i s => exact hsc.elim
    | ptr t => exact hsc.elim

end Swap

/-! ## Serializing -/

section Serialize

variable (flat : S.IsFlat) (hl : h.block? b = some blk) (hb : E.Holds S blk)
include flat hl hb

/-- A field serializer returns the size of its part of the buffer, and the struct is as before. -/
theorem fieldSerializer_triple (hf : f ∈ S.fields) {p : Ptr}
    (hp : p.Into (h.next ≤ ·)) :
    Triple h.Extends (E.fieldSerializer S f (.base b) p) fun n g =>
      h.Extends g ∧ n = E.wireSize S blk f := by
  have hI := Heap.Extends.frame h
  have wf := flat.toWellFormed
  have hsize : ∀ c ∈ S.fields, Triple h.Extends (E.getFieldAllocSize S c (.base b)) fun n g =>
      h.Extends g ∧ n = E.fieldSizeAt S blk c := by
    intro c hc g n g' he hrun
    rw [getFieldAllocSize_slot wf (he.block?_some hl) hb hc] at hrun
    cases hrun
    exact ⟨he, rfl⟩
  unfold Env.fieldSerializer
  rw [insertNullCheck_loc]
  refine .bind (E.loadTy_triple _ _) fun v => ?_
  rw [if_neg (by simp [flat.isStruct f hf])]
  refine .ite (fun hr => ?_) fun hr => ?_
  · obtain ⟨ht, -, -, -, hd, hcm, hcc, -⟩ := wf.array_spec hf hr
    have hpt := wf.pointee hf hr
    rw [hpt, hd]
    refine .bind (E.loadI64_triple _) fun count => .bind (hI.storeI64 E hp _) fun _ => ?_
    refine .bind (hsize _ hcm) fun outSize => .given (fun _ hh => hh.2) fun hout => ?_
    refine Triple.weaken ?_ (fun _ hh => hh.1) fun _ _ hh => hh
    refine .bind (hsize f hf) fun size => .given (fun _ hh => hh.2) fun hsz => ?_
    refine Triple.weaken (I := h.Extends) ?_ (fun _ hh => hh.1) fun _ _ hh => hh
    refine .bind (hI.memcpy (hp.add _) _ _) fun _ => ?_
    refine .bind (hI.swapArrayBytes E (hp.add _) _ _) fun _ => .pure fun _ hh => ⟨hh, ?_⟩
    rw [hout, hsz, count_size wf hcm hcc, wireSize, if_pos hr]
  · refine .bind (E.swapBytes_triple _ _) fun w => ?_
    refine .bind (hsize f hf) fun size => .given (fun _ hh => hh.2) fun hsz => ?_
    refine Triple.weaken (I := h.Extends) ?_ (fun _ hh => hh.1) fun _ _ hh => hh
    refine .bind (hI.storeTy E hp _ _) fun _ => .pure fun _ hh => ⟨hh, ?_⟩
    rw [hsz, wireSize, if_neg hr]

variable (hA : E.alloc.Aligned) (hslot : ∀ g ∈ S.fields, E.layout.SlotAligned S g)
include hA hslot

theorem aligned_fieldSerializer (hf : f ∈ S.fields)
    (harr : f.isRepeated = true → E.ArrayOk S h blk f) {off : Nat}
    (hoff : E.layout.WireAligned f off) (he : h.Extends g) :
    Every E.Meets (Emitted.fieldSerializer E S f (.base b) (.loc r (BitVec.ofNat 64 off))) g := by
  have wf := flat.toWellFormed
  have hl' := he.block?_some hl
  obtain ⟨hfront, helem⟩ := hoff
  unfold DataLayout.wireAlignment at hfront
  unfold Emitted.fieldSerializer
  rw [Emitted.insertNullCheck_loc]
  refine every_bind.mpr ⟨Emitted.every_loadTy.mpr (meets_slot b hA (hslot f hf)), fun v g₁ hv => ?_⟩
  obtain ⟨rfl, rfl⟩ := Prod.mk.inj (Except.ok.inj ((loadTy_slot wf hl' hb hf).symm.trans hv))
  rw [if_neg (by simp [flat.isStruct f hf])]
  split
  · next hr =>
    rw [if_pos hr] at hfront
    obtain ⟨ht, -, -, -, hd, hcm, hcc, -⟩ := wf.array_spec hf hr
    have hpt := wf.pointee hf hr
    have htc := wf.countOf_type hf hr
    have h16 := Nat.dvd_trans E.layout.i64_alignment_dvd (by decide : 8 ∣ 16)
    rw [hpt, hd]
    refine every_bind.mpr
      ⟨Emitted.every_loadI64.mpr (meets_i64 b hA htc (hslot _ hcm)), fun n g₂ _ => ?_⟩
    refine every_bind.mpr ⟨Emitted.every_storeI64.mpr (meets_loc hA h16 ?_), fun _ g₃ _ => ?_⟩
    · exact (dvd_toNat_ofNat h16 off).mpr hfront
    refine every_bind.mpr ⟨every_sizeOf wf hA hcm fun hr' => ?_, fun outSize g₄ hout => ?_⟩
    · exact hslot _ (wf.countOf_mem hcm hr')
    refine every_bind.mpr ⟨every_sizeOf wf hA hf fun _ => hslot _ hcm, fun size g₅ _ => ?_⟩
    refine every_bind.mpr ⟨Emitted.every_memcpy.mpr ⟨Or.inl rfl, ?_⟩, fun _ g₆ _ => ?_⟩
    · exact meets_start hA (hslot f hf).1 (harr hr).isStart
    refine every_bind.mpr ⟨?_, fun _ _ _ => every_pure _⟩
    -- the elements begin behind the count
    have h8 : outSize = 8 := by
      rw [Emitted.erase_getFieldAllocSize, getFieldAllocSize,
        if_neg (by simp [(wf.count_spec hcm hcc).2.2.1]), htc, E.layout.allocSize_i64] at hout
      cases hout
      rfl
    rw [h8, Ptr.add_loc]
    refine aligned_swapArrayBytes hA (flat.elem_isScalar hf hr) (fun hsw => ?_) n
    obtain ⟨he16, hoff8⟩ := helem hr hsw
    refine ⟨he16, ?_⟩
    rwa [show (8 : I64) = BitVec.ofNat 64 8 from rfl, ← BitVec.ofNat_add, dvd_toNat_ofNat he16]
  · next hr =>
    rw [if_neg hr] at hfront
    refine every_quiet_bind.mpr fun w g₂ _ => ?_
    refine every_bind.mpr ⟨every_sizeOf wf hA hf fun hr' => absurd hr' hr, fun size g₃ _ => ?_⟩
    refine every_bind.mpr ⟨Emitted.every_storeTy.mpr ?_, fun _ _ _ => every_pure _⟩
    exact meets_loc hA (hslot f hf).1 ((dvd_toNat_ofNat (hslot f hf).1 off).mpr hfront)

end Serialize

/-- A value with as many elements in each array as the struct object has. -/
def lengthsOf (E : Env) (S : Struct) (blk : Block) : Value where
  scalar _ := 0
  array f := List.replicate (E.countAt S blk (S.countOf f)).toNat 0

theorem wireSize_lengthsOf (hc : f.isCount = false) :
    E.wireSize S blk f = BitVec.ofNat 64 ((E.lengthsOf S blk).wireSize E.layout f) := by
  unfold wireSize fieldSizeAt
  cases hr : f.isRepeated with
  | true =>
    have hlen : ((E.lengthsOf S blk).array f).length = (E.countAt S blk (S.countOf f)).toNat :=
      List.length_replicate
    rw [if_pos rfl, Value.wireSize_array hr hc, Value.fieldSize_array hr, hlen, BitVec.ofNat_add,
      BitVec.ofNat_mul, BitVec.ofNat_toNat, BitVec.setWidth_eq]
    rfl
  | false => rw [if_neg Bool.false_ne_true, Value.wireSize_scalar hr hc]; rfl

section Loop

variable (flat : S.IsFlat) (hfun : Resolves E S) (hA : E.alloc.Aligned)
include flat hfun hA

/-- The field serializers, one after the other. -/
theorem aligned_serializeEntries (hl : h.block? b = some blk) (hb : E.Holds S blk)
    (harrays : ∀ f ∈ S.fields, f.isRepeated = true → E.ArrayOk S h blk f)
    (hslot : ∀ g ∈ S.fields, E.layout.SlotAligned S g) (hr : h.next ≤ r) :
    ∀ (fs : List Field) (off : Nat) (g : Heap), (∀ f ∈ fs, f ∈ S.fields) →
      Along ((E.lengthsOf S blk).wireSize E.layout) E.layout.WireAligned fs off → h.Extends g →
      Every E.Meets
        (Emitted.serializeEntries E S (.base b) (.base r) fs (BitVec.ofNat 64 off)) g := by
  intro fs
  induction fs with
  | nil => exact fun _ _ _ _ _ => every_pure _
  | cons f fs ih =>
    intro off g hm halong he
    have hf := hm f List.mem_cons_self
    have hm' : ∀ g ∈ fs, g ∈ S.fields := fun g hg => hm g (List.mem_cons_of_mem f hg)
    unfold Emitted.serializeEntries
    unfold Along at halong
    cases hc : f.isCount with
    | true =>
      simp only [hc, if_true] at halong
      rw [if_pos rfl]
      exact ih off g hm' halong he
    | false =>
      simp only [hc, Bool.false_eq_true, if_false] at halong
      obtain ⟨hoff, hrest⟩ := halong
      have hp : (Ptr.loc r (BitVec.ofNat 64 off)).Into (h.next ≤ ·) := by
        intro d o hd
        obtain ⟨rfl, -⟩ := Ptr.loc.inj hd
        exact hr
      simp only [Bool.false_eq_true, if_false, hfun.serializer hf hc]
      rw [Ptr.add_loc, show (0 : I64) + BitVec.ofNat 64 off = BitVec.ofNat 64 off from
        BitVec.zero_add _]
      refine every_bind.mpr
        ⟨aligned_fieldSerializer flat hl hb hA hslot hf (harrays f hf) hoff he, fun n g₁ hrun => ?_⟩
      rw [Emitted.erase_fieldSerializer] at hrun
      obtain ⟨he₁, rfl⟩ := fieldSerializer_triple flat hl hb hf hp g n g₁ he hrun
      rw [wireSize_lengthsOf hc, ← BitVec.ofNat_add]
      exact ih _ g₁ hm' hrest he₁

/-- `serialize_S` -/
theorem aligned_getSerializer (hslot : ∀ g ∈ S.fields, E.layout.SlotAligned S g)
    (hwire : ∀ V : Value, Along (V.wireSize E.layout) E.layout.WireAligned S.fields 8) :
    E.AlwaysAligned S .serialize := by
  rintro h b ⟨blk, hl, hb, harrays⟩
  have hI := Heap.Extends.frame h
  unfold Emitted.getSerializer Emitted.serializeWithIDX
  refine every_bind.mpr ⟨Emitted.every_insertNullCheck ?_, fun r g _ => every_pure _⟩
  refine every_quiet_bind.mpr fun size h₁ hsum => every_quiet_bind.mpr fun q h₂ hmalloc => ?_
  have he₁ : h.Extends h₁ :=
    E.sumAllocSizes_triple S (.base b) S.fields 8 h size h₁ (Heap.Extends.refl h) hsum
  obtain ⟨he₂, hq⟩ := hI.malloc size h₁ q h₂ he₁ hmalloc
  -- NULL ends the function, anything else is a block behind those of the caller
  rcases malloc_isStart hmalloc with rfl | ⟨r, rfl⟩
  · exact every_pure _
  have hr : h.next ≤ r := hq.into r 0 rfl
  refine Emitted.every_insertNullCheck (every_quiet_bind.mpr fun _ h₃ hstore => ?_)
  have he₃ := hI.storeI64 E hq.into _ h₂ _ h₃ he₂ hstore
  exact every_bind.mpr ⟨aligned_serializeEntries flat hfun hA hl hb harrays hslot hr S.fields 8 h₃
    (fun _ hf => hf) (hwire _) he₃, fun _ _ _ => every_pure _⟩

/-! ## Deserializing -/

omit hfun in
/-- The code of one field. Where nothing in the buffer needs an alignment, the buffer may be
    anywhere. -/
theorem aligned_fieldDeserializer (hf : f ∈ S.fields)
    (hslot : ∀ g ∈ S.fields, E.layout.SlotAligned S g) (hfront : E.layout.wireAlignment f = 1)
    (helem : f.isRepeated = true → E.layout.Swaps f.elem →
      E.layout.getABITypeAlignment f.elem ∣ 16) (p : Ptr) :
    Every E.Meets (Emitted.fieldDeserializer E S f (.base b) p) h := by
  have wf := flat.toWellFormed
  have hbyte : E.Meets ⟨p, E.layout.wireAlignment f⟩ := Or.inr (hfront ▸ Nat.one_dvd _)
  unfold DataLayout.wireAlignment at hbyte
  unfold Emitted.fieldDeserializer
  refine Emitted.every_insertNullCheck ?_
  rw [if_neg (by simp [flat.isStruct f hf])]
  cases hr : f.isRepeated with
  | true =>
    rw [if_pos hr] at hbyte
    obtain ⟨ht, -, -, -, hd, hcm, hcc, -⟩ := wf.array_spec hf hr
    have hpt := wf.pointee hf hr
    have htc := wf.countOf_type hf hr
    rw [if_pos (by rw [ht]; rfl), hpt, hd]
    refine every_bind.mpr ⟨Emitted.every_loadI64.mpr hbyte, fun n h₁ _ => ?_⟩
    refine every_bind.mpr
      ⟨Emitted.every_storeI64.mpr (meets_i64 b hA htc (hslot _ hcm)), fun _ h₂ _ => ?_⟩
    refine every_bind.mpr ⟨every_sizeOf wf hA hcm fun hr' => ?_, fun outSize h₃ _ => ?_⟩
    · exact hslot _ (wf.countOf_mem hcm hr')
    refine every_bind.mpr ⟨every_sizeOf wf hA hf fun _ => hslot _ hcm, fun size h₄ _ => ?_⟩
    refine every_quiet_bind.mpr fun q h₅ hmalloc => ?_
    rcases malloc_isStart hmalloc with rfl | ⟨d, rfl⟩
    · exact every_pure _
    refine Emitted.every_insertNullCheck (every_bind.mpr ⟨?_, fun _ h₆ _ => ?_⟩)
    · exact Emitted.every_memcpy.mpr ⟨meets_start hA (hslot f hf).1 (Or.inr ⟨d, rfl⟩), Or.inl rfl⟩
    refine every_bind.mpr ⟨aligned_swapArrayBytes hA (flat.elem_isScalar hf hr)
      (fun hsw => ⟨helem hr hsw, Nat.dvd_zero _⟩) _, fun _ h₇ _ => ?_⟩
    exact every_bind.mpr ⟨Emitted.every_storeTy.mpr (meets_slot b hA (hslot f hf)),
      fun _ _ _ => every_pure _⟩
  | false =>
    rw [if_neg (by simp [hr])] at hbyte
    rw [if_neg (by simp [not_pointer wf hf (flat.isStruct f hf) hr])]
    refine every_bind.mpr ⟨Emitted.every_loadTy.mpr hbyte, fun v h₁ _ => ?_⟩
    refine every_quiet_bind.mpr fun w h₂ _ => ?_
    refine every_bind.mpr ⟨every_sizeOf wf hA hf fun hr' => ?_, fun size h₃ _ => ?_⟩
    · rw [hr] at hr'
      cases hr'
    exact every_bind.mpr ⟨Emitted.every_storeTy.mpr (meets_slot b hA (hslot f hf)),
      fun _ _ _ => every_pure _⟩

/-- `deserialize_S` -/
theorem aligned_getDeserializer (hslot : ∀ g ∈ S.fields, E.layout.SlotAligned S g)
    (hbyte : ∀ f ∈ S.fields, f.isCount = false → E.layout.wireAlignment f = 1 ∧
      (f.isRepeated = true → E.layout.Swaps f.elem →
        E.layout.getABITypeAlignment f.elem ∣ 16)) : E.AlwaysAligned S .deserialize := by
  intro h p
  have hentries : ∀ (fs : List Field) (idx : I64) (g : Heap) (b : Nat), (∀ f ∈ fs, f ∈ S.fields) →
      Every E.Meets (Emitted.deserializeEntries E S p (.base b) fs idx) g := by
    intro fs
    induction fs with
    | nil => exact fun _ _ _ _ => every_pure _
    | cons f fs ih =>
      intro idx g b hm
      have hf := hm f List.mem_cons_self
      have hm' : ∀ g ∈ fs, g ∈ S.fields := fun g hg => hm g (List.mem_cons_of_mem f hg)
      unfold Emitted.deserializeEntries
      cases hc : f.isCount with
      | true => exact ih idx g b hm'
      | false =>
        obtain ⟨hfront, helem⟩ := hbyte f hf hc
        simp only [Bool.false_eq_true, if_false, hfun.deserializer hf hc]
        exact every_bind.mpr ⟨aligned_fieldDeserializer flat hA hf hslot hfront helem _,
          fun n g₁ _ => ih _ g₁ b hm'⟩
  unfold Emitted.getDeserializer
  refine every_quiet_bind.mpr fun header h₁ _ => Emitted.every_insertNullCheck ?_
  refine every_quiet_bind.mpr fun q h₂ hmalloc => ?_
  rcases malloc_isStart hmalloc with rfl | ⟨b, rfl⟩
  · exact every_pure _
  refine Emitted.every_insertNullCheck (every_bind.mpr ⟨?_, fun _ h₃ _ => ?_⟩)
  · exact hentries S.fields 8 h₂ b fun _ hf => hf
  · refine every_quiet_bind.mpr fun size h₄ _ => ?_
    split
    · exact every_pure _
    · exact every_pure _

end Loop

end Env

end Tyr
