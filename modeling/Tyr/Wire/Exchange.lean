import Tyr.Access.Immutable
import Tyr.Access.Refinement
import Tyr.Wire.Interchange
import Tyr.Wire.Reserialize

/-
  Modules that exchange structs.

  Code is generated from one declaration for several modules, on machines of either byte order.
  Each has a heap and structs of its own, and its callers work on them with the accessors. What
  `serialize_S` returns may get to any module: any number of times, in any order, or never.

  `Record.ExchangeStep` says what that is for: each module has a store of records, and records
  are sent and received. `exchange_refines`: every run of modules is a run of such stores with
  the same results, and no call that it allows fails. What may be sent (`Sendable`) depends on
  the byte orders there are.
-/

namespace Tyr

open Prog

universe u v

/-! ## Exchange of records -/

namespace Record

variable {ι : Type u} {κ : Type v}

/-- The store of each module, and the records sent so far. -/
structure Exchange (ι : Type u) (κ : Type v) where
  store : ι → Store κ
  sent : List (Record κ)

/-- What happens at a module. Messages are numbered as they are sent. -/
inductive Event (κ : Type v) where
  | call (op : Op κ) (result : Result)
  | send (b message : Nat)
  | receive (message b : Nat)

inductive ExchangeStep [DecidableEq ι] [DecidableEq κ] (isMutable : κ → Bool) :
    Exchange ι κ → ι × Event κ → Exchange ι κ → Prop where
  | call {x : Exchange ι κ} {i : ι} {op : Op κ} {result : Result} {st : Store κ}
      (h : Step isMutable (x.store i) (op, result) st) :
      ExchangeStep isMutable x (i, .call op result) ⟨Function.update x.store i st, x.sent⟩
  | send {x : Exchange ι κ} {i : ι} {b : Nat} {r : Record κ} (hb : x.store i b = some r) :
      ExchangeStep isMutable x (i, .send b x.sent.length) ⟨x.store, x.sent ++ [r]⟩
  | receive {x : Exchange ι κ} {i : ι} {k b : Nat} {r : Record κ} (hk : x.sent[k]? = some r)
      (hb : x.store i b = none) :
      ExchangeStep isMutable x (i, .receive k b)
        ⟨Function.update x.store i (Function.update (x.store i) b (some r)), x.sent⟩

/-- The value that a buffer with the record has. -/
def value (r : Record Field) : Value := ⟨r.scalar, r.items⟩

end Record

/-! ## A struct that was deserialized -/

namespace Env

variable {E : Env} {S : Struct} {V : Value} {w : World} {h' : Heap} {b : Nat} {blk obj : Block}
  {st : Record.Store Field} {r : Record Field} {f : Field}

/-- No two arrays share a block. -/
def Apart (E : Env) (S : Struct) (fs : List Field) (obj : Block) : Prop :=
  ∀ f ∈ fs, ∀ g ∈ fs, f.isRepeated = true → g.isRepeated = true → f ≠ g →
    E.ptrAt S obj f ≠ E.ptrAt S obj g

/-- The blocks of the arrays are allocated one after the other. -/
theorem deserializeEntries_apart (flat : S.IsFlat) (hfun : Resolves E S)
    (hA : ∀ t n, E.alloc.succeeds t n = true) (hV : V.Bounded E.layout S) {a s : Nat}
    (has : a ≠ s) {buf : Block} :
    ∀ (fs : List Field) (off : I64) (h : Heap) (obj₀ : Block),
      (∀ f ∈ fs, f ∈ S.fields ∧ (f.isCount = false → E.FieldSwappable V f)) → fs.Nodup →
      h.block? a = some buf → h.block? s = some obj₀ → E.Holds S obj₀ →
      off.toNat + (fs.map (V.wireSize E.layout)).sum ≤ buf.cells.length →
      Along (V.wireSize E.layout) (E.FieldWire V buf.cells) fs off.toNat →
      ∀ {idx : I64} {h' : Heap} {obj : Block},
        E.deserializeEntries S (.base a) (.base s) fs off h = .ok (idx, h') →
        h'.block? s = some obj → E.Apart S fs obj := by
  have wf := flat.toWellFormed
  intro fs
  induction fs with
  | nil => exact fun _ _ _ _ _ _ _ _ _ _ _ _ _ _ _ f hf => nomatch hf
  | cons f fs ih =>
    intro off h obj₀ hm hnd ha hl hb hfit hwire idx h' obj hrun hobj
    obtain ⟨hf, hsw⟩ := hm f List.mem_cons_self
    have hm' : ∀ g ∈ fs, g ∈ S.fields ∧ (g.isCount = false → E.FieldSwappable V g) :=
      fun g hg => hm g (List.mem_cons_of_mem f hg)
    obtain ⟨hnew, hnd'⟩ := List.nodup_cons.mp hnd
    rw [List.map_cons, List.sum_cons] at hfit
    unfold Along at hwire
    unfold deserializeEntries at hrun
    cases hc : f.isCount with
    | true =>
      simp only [hc, if_true] at hwire hrun
      have htail := ih off h obj₀ hm' hnd' ha hl hb (by omega) hwire hrun hobj
      have hne : ∀ g ∈ f :: fs, g.isRepeated = true → g ∈ fs := by
        intro g hg hr
        rcases List.mem_cons.mp hg with rfl | hg
        · rw [(wf.array_spec hf hr).2.2.2.1] at hc
          cases hc
        · exact hg
      exact fun g hg g' hg' hr hr' => htail g (hne g hg hr) g' (hne g' hg' hr') hr hr'
    | false =>
      simp only [hc, Bool.false_eq_true, if_false] at hwire hrun
      obtain ⟨hhead, htail⟩ := hwire
      have hlt := buf.fits
      obtain ⟨h₁, obj₁, hrun₁, hfill₁, hload₁⟩ := fieldDeserializer_wire flat ha has hl hb hA hf hc
        (hsw hc) hhead.count (by omega)
      have ha₁ : h₁.block? a = some buf := by rw [hfill₁.other a (Heap.lt_next ha) has, ha]
      have hb₁ : E.Holds S obj₁ := by
        rw [Holds, hfill₁.length]
        exact hb
      have hoff := toNat_add_fieldWire E V f off (by omega)
      rw [hfun.deserializer hf hc, Ptr.add_loc,
        show (0 : I64) + off = off from BitVec.zero_add off] at hrun
      replace hrun := (bind_of_ok hrun₁).symm.trans hrun
      have hapart := ih _ h₁ obj₁ hm' hnd' ha₁ hfill₁.block hb₁ (by rw [hoff]; omega)
        (by rw [hoff]; exact htail) hrun hobj
      -- the rest of the arrays is in blocks that are new by now
      obtain ⟨idx', h₂, obj₂, hrun₂, hfill₂, hload₂⟩ := deserializeEntries_wire flat hfun hA hV has
        (Heap.lt_next hfill₁.block) fs _ h₁ obj₁ hm' hnd' le_rfl ha₁ hfill₁.block hb₁
        (by rw [hoff]; omega) (by rw [hoff]; exact htail)
      obtain ⟨-, rfl⟩ := Prod.mk.inj (Except.ok.inj (hrun₂.symm.trans hrun))
      obtain rfl := Option.some.inj (hfill₂.block.symm.trans hobj)
      have hself := hfill₂.frame f hf fun g hg => untouched_field wf (hm' g hg).1 hc
        fun he => hnew (he ▸ hg)
      have hcross : f.isRepeated = true → ∀ g ∈ fs, g.isRepeated = true →
          E.ptrAt S obj₂ f ≠ E.ptrAt S obj₂ g := by
        intro hr g hg hrg he
        have h1 := hload₁ hV hhead
        have h2 := hload₂ g hg (wf.array_spec (hm' g hg).1 hrg).2.2.2.1
        unfold FieldLoaded at h1 h2
        rw [if_pos hr] at h1
        rw [if_pos hrg] at h2
        obtain ⟨-, d, arr, -, hp, hd, -⟩ := h1
        obtain ⟨-, d', arr', hle, hp', -⟩ := h2
        rw [ptrAt, hself] at he
        obtain rfl := (Ptr.loc.inj (hp.symm.trans (he.trans hp'))).1
        exact absurd (Heap.lt_next hd) (Nat.not_lt.mpr hle)
      intro g hg g' hg' hr hr' hne
      rcases List.mem_cons.mp hg with rfl | hin
      · rcases List.mem_cons.mp hg' with rfl | hin'
        · exact absurd rfl hne
        · exact hcross hr g' hin' hr'
      · rcases List.mem_cons.mp hg' with rfl | hin'
        · exact (hcross hr' g hin hr).symm
        · exact hapart g hin g' hin' hr hr' hne

variable (E S V) in
/-- A buffer that begins with the value. What may follow it is not looked at. -/
structure Carries (out : List Cell) : Prop where
  length : V.size E.layout S ≤ out.length
  header : slice out 0 8 = (toLE 8 (V.size E.layout S)).map .byte
  fields : Along (V.wireSize E.layout) (E.FieldWire V out) S.fields 8

theorem Wire.carries {out : List Cell} (hw : E.Wire S V out) : E.Carries S V out :=
  ⟨hw.length.ge, hw.header, hw.fields⟩

/-- What `deserialize_S` makes of a buffer with the value `V`: a struct in a new block, with arrays
    in new blocks of their own. The blocks there were are left alone. -/
theorem getDeserializer_new (flat : S.IsFlat) (hfun : Resolves E S) (hclosed : E.Closed)
    (hA : ∀ t n, E.alloc.succeeds t n = true)
    (hstruct : E.layout.structSize S.packed S.elements < 2 ^ 64) (hV : V.Bounded E.layout S)
    (hsw : ∀ f ∈ S.fields, f.isCount = false → E.FieldSwappable V f) {a : Nat} {buf : Block}
    (hw : E.Carries S V buf.cells) {h : Heap} (ha : h.block? a = some buf) :
    ∃ h' obj, E.getDeserializer S (.base a) h = .ok (.base h.next, h') ∧
      h'.block? h.next = some obj ∧ E.HasValue S V h' obj ∧
      (∀ f ∈ S.fields, f.isCount = false → E.FieldLoaded S V (h.next + 1) h' obj f) ∧
      E.Apart S S.fields obj ∧ ∀ d < h.next, h'.block? d = h.block? d := by
  have wf := flat.toWellFormed
  have h8 : (8 : I64).toNat = 8 := rfl
  have hsum := sum_fieldWire (E := E) (V := V) wf
  have hle := hw.length
  have hge : 8 ≤ buf.cells.length := Nat.le_trans (Nat.le_add_right 8 _) hle
  have hsize : V.size E.layout S < 2 ^ 64 := Nat.lt_of_le_of_lt hle buf.fits
  have hin : ∀ f ∈ S.fields, f ∈ S.fields ∧ (f.isCount = false → E.FieldSwappable V f) :=
    fun f hf => ⟨hf, hsw f hf⟩
  set new := E.alloc.fresh h.calls (E.getStructAllocSize S) with hnew
  have has := Nat.ne_of_lt (Heap.lt_next ha)
  have ha₁ := Heap.block?_push_of_some ha new
  have hb₁ : E.Holds S new := holds_fresh hstruct _
  have hfit : (8 : I64).toNat + (S.fields.map (V.wireSize E.layout)).sum ≤ buf.cells.length := by
    rw [h8, hsum]
    exact hle
  obtain ⟨idx, h', obj, hentries, hfill, hload⟩ := deserializeEntries_wire flat hfun hA hV has
    (Nat.lt_succ_self h.next) S.fields 8 (h.push new) new hin wf.fields_nodup
    (by rw [Heap.next_push]) ha₁ (Heap.block?_push_self h new) hb₁ hfit hw.fields
  have hb : E.Holds S obj := by
    rw [Holds, hfill.length]
    exact hb₁
  have hval := hasValue_of_loaded wf hV hb hload
  have hser : 8 + E.sumSizes S obj S.fields = V.size E.layout S := by
    rw [← hval.exactSize]
    exact serializedSize_eq (by rwa [hval.exactSize])
  have hrun : E.getDeserializer S (.base a) h = .ok (.base h.next, h') := by
    rw [getDeserializer_run wf ha hge (hA _ _) hentries hfill.block hb, if_pos]
    rw [headerIn, hw.header, swapI64_decodeI64 hsize, ← hser, BitVec.ofNat_add]
    rfl
  exact ⟨h', obj, hrun, hfill.block, hval, hload,
    deserializeEntries_apart flat hfun hA hV has S.fields 8 _ _ hin wf.fields_nodup ha₁
      (Heap.block?_push_self h new) hb₁ hfit hw.fields hentries hfill.block,
    ((Heap.Extends.frame h).getDeserializer hclosed S _ h _ h' (Heap.Extends.refl h)
      hrun).1.block?_eq⟩

/-! ## Records and values -/

variable (E S) in
/-- Each element is stored as its type stores a number. -/
def Clean (h : Heap) (blk : Block) : Prop :=
  ∀ f ∈ S.fields, f.isRepeated = true → ∀ k < (E.countAt S blk (S.countOf f)).toNat,
    slice (E.elementsAt S h blk f) (E.layout.allocSize f.elem * k) (E.layout.storeSize f.elem) =
      E.encode f.elem (.int (E.itemOf f.elem (E.elementsAt S h blk f) k))

variable {h : Heap}

theorem itemsIn_eq (hr : f.isRepeated = true) : E.itemsIn S h blk f =
    E.itemsOf f.elem (E.elementsAt S h blk f) (E.countAt S blk (S.countOf f)).toNat := by
  rw [itemsIn, itemsAt, elementsAt, exactFieldSize, if_pos hr]

theorem itemOf_lt {t : Ty} (ht : t.isPointerTy = false) (cs : List Cell) (k : Nat) :
    E.itemOf t cs k < 2 ^ E.layout.getTypeSizeInBits t := by
  rw [itemOf, decode, ht]
  exact Nat.mod_lt _ (Nat.two_pow_pos _)

/-- An array that can be used can be copied. -/
theorem valid_of_arrays (hh : E.Holds S blk)
    (harr : ∀ f ∈ S.fields, f.isRepeated = true → E.ArrayOk S h blk f) : E.Valid S h blk where
  holds := hh
  arrays f hf hr := by
    refine (harr f hf hr).imp_right fun ⟨d, arr, hp, hd, hfit⟩ => ?_
    rw [hp, exactFieldSize, if_pos hr, Ptr.base,
      Heap.read_loc hd (by simpa [exactSizeFor] using hfit)]
    rfl

/-- A struct that shows a record has its value. -/
theorem Shows.hasValue (hshow : E.Shows S h blk r) (flat : S.IsFlat) (hh : E.Holds S blk)
    (harr : ∀ f ∈ S.fields, f.isRepeated = true → E.ArrayOk S h blk f) (hclean : E.Clean S h blk) :
    E.HasValue S r.value h blk where
  toValid := valid_of_arrays hh harr
  scalar := hshow.scalar
  count f hf hr := by
    rw [← length_itemsIn h blk f, hshow.items f hf hr]
    rfl
  element f hf hr k v hk := by
    have hitems := hshow.items f hf hr
    have hk' : (E.itemsIn S h blk f)[k]? = some v := by
      rw [hitems]
      exact hk
    have hlt : k < (E.countAt S blk (S.countOf f)).toNat := by
      rw [← length_itemsIn h blk f]
      exact (List.getElem?_eq_some_iff.mp hk').1
    rw [itemsIn_eq hr, getElem?_itemsOf _ hlt] at hk'
    obtain rfl := Option.some.inj hk'
    exact ⟨itemOf_lt (flat.elem_not_pointer hf hr) _ k, hclean f hf hr k hlt⟩

/-- And the other way. -/
theorem HasValue.shows (hval : E.HasValue S r.value h blk) (flat : S.IsFlat) :
    E.Shows S h blk r where
  scalar := hval.scalar
  items f hf hr := by
    have hcount : (E.countAt S blk (S.countOf f)).toNat = (r.items f).length := hval.count f hf hr
    rw [itemsIn_eq hr, hcount]
    refine List.ext_getElem? fun k => ?_
    rcases Nat.lt_or_ge k (r.items f).length with hk | hk
    · have hget := List.getElem?_eq_getElem hk
      obtain ⟨hlt, hslice⟩ := hval.element f hf hr k _ hget
      rw [getElem?_itemsOf _ hk, hget, itemOf, hslice,
        decode_encode_int E (flat.elem_not_pointer hf hr), Nat.mod_eq_of_lt hlt]
      rfl
    · rw [List.getElem?_eq_none (by simpa using hk), List.getElem?_eq_none hk]

/-- A struct in a new block, with new arrays of its own, joins the others. -/
theorem Owned.joined (ho : E.Owned S w) {n : Nat} (hn : n = w.heap.next)
    (hobj : h'.block? n = some obj) (hh : E.Holds S obj)
    (harr : ∀ f ∈ S.fields, f.isRepeated = true → ∃ d arr, n < d ∧ E.ptrAt S obj f = .base d ∧
      h'.block? d = some arr ∧
      E.exactSizeFor f (E.countAt S obj (S.countOf f)) ≤ arr.cells.length)
    (hapart : E.Apart S S.fields obj) (hk : ∀ d < n, h'.block? d = w.heap.block? d) :
    E.Owned S ⟨h', withResult w.structs (.base n)⟩ := by
  subst hn
  rw [withResult_base]
  have hkeep : ∀ d, E.Owns S w d → d < w.heap.next ∧ h'.block? d = w.heap.block? d := fun d hd =>
    ⟨ho.lt_next hd, hk d (ho.lt_next hd)⟩
  have hcase : ∀ b f d, E.HasArray S ⟨h', insert w.heap.next w.structs⟩ b f d →
      E.HasArray S w b f d ∨ b = w.heap.next ∧ w.heap.next < d ∧ f ∈ S.fields ∧
        f.isRepeated = true ∧ E.ptrAt S obj f = .base d := by
    rintro b f d ⟨hb, hf, hr, y, hy, hp⟩
    rcases hb with rfl | hb
    · obtain rfl := Option.some.inj (hobj.symm.trans hy)
      obtain ⟨d', arr, hlt, hp', -⟩ := harr f hf hr
      obtain rfl := (Ptr.loc.inj (hp.symm.trans hp')).1
      exact Or.inr ⟨rfl, hlt, hf, hr, hp⟩
    · exact Or.inl ⟨hb, hf, hr, y, (hkeep b (Or.inl hb)).2.symm.trans hy, hp⟩
  refine ⟨fun b hb => ?_, fun b f d h hd => ?_, fun b₁ f₁ b₂ f₂ d h₁ h₂ => ?_⟩
  · rcases hb with rfl | hb
    · exact ⟨obj, hobj, hh, fun f hf hr => Or.inr ((harr f hf hr).imp fun d ⟨arr, h⟩ =>
        ⟨arr, h.2⟩)⟩
    · obtain ⟨y, hy, hhy, harry⟩ := ho.live b hb
      refine ⟨y, (hkeep b (Or.inl hb)).2.trans hy, hhy, fun f hf hr => ?_⟩
      refine (harry f hf hr).imp_right fun ⟨d, arr, hp, hd, hfit⟩ => ⟨d, arr, hp, ?_, hfit⟩
      exact (hkeep d (Or.inr ⟨b, f, hb, hf, hr, y, hy, hp⟩)).2.trans hd
  · rcases hcase b f d h with h₀ | ⟨rfl, hlt, -⟩
    · rcases hd with rfl | hd
      · exact absurd (hkeep _ (Or.inr ⟨b, f, h₀⟩)).1 (Nat.lt_irrefl _)
      · exact ho.disjoint b f d h₀ hd
    · rcases hd with rfl | hd
      · exact Nat.lt_irrefl _ hlt
      · exact absurd (hkeep d (Or.inl hd)).1 (Nat.not_lt.mpr (Nat.le_of_lt hlt))
  · rcases hcase b₁ f₁ d h₁ with k₁ | ⟨rfl, hlt₁, hf₁, hr₁, hp₁⟩
    · rcases hcase b₂ f₂ d h₂ with k₂ | ⟨rfl, hlt₂, -⟩
      · exact ho.unique b₁ f₁ b₂ f₂ d k₁ k₂
      · exact absurd (hkeep d (Or.inr ⟨b₁, f₁, k₁⟩)).1 (Nat.not_lt.mpr (Nat.le_of_lt hlt₂))
    · rcases hcase b₂ f₂ d h₂ with k₂ | ⟨rfl, -, hf₂, hr₂, hp₂⟩
      · exact absurd (hkeep d (Or.inr ⟨b₂, f₂, k₂⟩)).1 (Nat.not_lt.mpr (Nat.le_of_lt hlt₁))
      · refine ⟨rfl, ?_⟩
        by_contra hne
        exact hapart f₁ hf₁ f₂ hf₂ hr₁ hr₂ hne (hp₁.trans hp₂.symm)

/-- The store after a record was received. -/
theorem Represents.receive (hrep : E.Represents S w st) (flat : S.IsFlat)
    (hobj : h'.block? w.heap.next = some obj) (hval : E.HasValue S r.value h' obj)
    (hload : ∀ f ∈ S.fields, f.isCount = false →
      E.FieldLoaded S r.value (w.heap.next + 1) h' obj f)
    (hapart : E.Apart S S.fields obj) (hk : ∀ d < w.heap.next, h'.block? d = w.heap.block? d) :
    E.Represents S ⟨h', withResult w.structs (.base w.heap.next)⟩
      (Function.update st w.heap.next (some r)) := by
  have wf := flat.toWellFormed
  have ho := hrep.owned
  have harr : ∀ f ∈ S.fields, f.isRepeated = true → ∃ d arr, w.heap.next < d ∧
      E.ptrAt S obj f = .base d ∧ h'.block? d = some arr ∧
      E.exactSizeFor f (E.countAt S obj (S.countOf f)) ≤ arr.cells.length := by
    intro f hf hr
    have hl := hload f hf (wf.array_spec hf hr).2.2.2.1
    unfold FieldLoaded at hl
    rw [if_pos hr] at hl
    obtain ⟨hcount, d, arr, hlt, hp, hd, hlen, -⟩ := hl
    refine ⟨d, arr, hlt, hp, hd, ?_⟩
    rw [hlen, Value.fieldSize_array hr, exactSizeFor, hcount]
  have hfresh : w.heap.next ∉ w.structs := fun h => Nat.lt_irrefl _ (ho.lt_next (Or.inl h))
  refine ⟨ho.joined rfl hobj hval.holds harr hapart hk, fun x hx => ?_, fun x hx => ?_⟩
  · rw [withResult_base] at hx
    obtain ⟨hne, hx⟩ := not_or.mp hx
    exact (Function.update_of_ne hne _ _).trans (hrep.absent x hx)
  · rw [withResult_base] at hx
    rcases hx with rfl | hx
    · exact ⟨obj, r, hobj, Function.update_self _ _ _, hval.shows flat⟩
    · obtain ⟨y, r', hl, -, harry, hst, hshow⟩ := hrep.struct hx
      have hne : x ≠ w.heap.next := fun h => hfresh (h ▸ hx)
      refine ⟨y, r', (hk x (ho.lt_next (Or.inl hx))).trans hl,
        (Function.update_of_ne hne _ _).trans hst, hshow.frame harry fun f hf hr d hp => ?_⟩
      exact hk d (ho.lt_next (Or.inr ⟨x, f, hx, hf, hr, y, hl, hp⟩))

end Env

/-! ## Modules -/

/-- Modules for one declaration: an allocator and a byte order for each. -/
structure Network (ι : Type u) where
  alloc : ι → Allocator
  layout : DataLayout
  bigEndian : ι → Bool

namespace Network

variable {ι : Type u} (N : Network ι) (S : Struct)

/-- The code of module `i`. -/
abbrev env (i : ι) : Env := Env.ofStruct (N.alloc i) (N.layout.withOrder (N.bigEndian i)) S

/-- What the byte orders there are ask of a value. -/
def Crosses (V : Value) : Prop :=
  ∀ f ∈ S.fields, f.isCount = false → ((∃ i, N.bigEndian i = true) → V.FieldCanSwap f) ∧
    ((∃ i j, N.bigEndian i ≠ N.bigEndian j) → V.FieldSameBothWays N.layout f)

/-- The value in the memory of module `i`. -/
def valueAt (i : ι) (h : Heap) (blk : Block) : Value :=
  ⟨(N.env S i).intAt S blk, (N.env S i).itemsIn S h blk⟩

/-- The struct may be sent by module `i`: each element has been given a value, the size fits 64
    bits, and the value crosses the byte orders there are. -/
structure Sendable (i : ι) (h : Heap) (blk : Block) : Prop where
  clean : (N.env S i).Clean S h blk
  size : (N.valueAt S i h blk).size N.layout S < 2 ^ 64
  crosses : N.Crosses S (N.valueAt S i h blk)

/-- The memory of every module, and the contents of the buffers that `serialize_S` returned. -/
structure State (ι : Type u) where
  world : ι → World
  sent : List (List Cell)

/-- One call at one module. Before it the caller works on its own memory; to receive is to call
    `deserialize_S` on a block with the contents of a buffer. -/
inductive Step [DecidableEq ι] : State ι → ι × Record.Event Field → State ι → Prop where
  | call {x : State ι} {i : ι} {w : World} {op : Record.Op Field} {result : Record.Result}
      (h : Env.ObservedStep (N.env S i) S (x.world i) (op, result) w) :
      Step x (i, .call op result) ⟨Function.update x.world i w, x.sent⟩
  | send {x : State ι} {i : ι} {w : World} {b : Nat} {blk buf : Block} {v : Val} {h' : Heap}
      (hw : Env.CallerStep (N.env S i) S (x.world i) w) (hb : b ∈ w.structs)
      (hl : w.heap.block? b = some blk) (hsend : N.Sendable S i w.heap blk)
      (hrun : (N.env S i).callApi S (.serialize (.base b)) w.heap = .ok (v, h'))
      (hbuf : h'.block? v.asPtr.block = some buf) :
      Step x (i, .send b x.sent.length)
        ⟨Function.update x.world i ⟨h', w.structs⟩, x.sent ++ [buf.cells]⟩
  | receive {x : State ι} {i : ι} {w : World} {a k : Nat} {buf : Block} {v : Val} {h' : Heap}
      (hw : Env.CallerStep (N.env S i) S (x.world i) w) (ha : w.heap.block? a = some buf)
      (hk : x.sent[k]? = some buf.cells)
      (hrun : (N.env S i).callApi S (.deserialize (.base a)) w.heap = .ok (v, h')) :
      Step x (i, .receive k v.asPtr.block)
        ⟨Function.update x.world i ⟨h', Env.withResult w.structs v.asPtr⟩, x.sent⟩

/-- A buffer that every module reads as the record. -/
structure Message (cs : List Cell) (r : Record Field) : Prop where
  bounded : r.value.Bounded N.layout S
  wire : ∀ i, (N.env S i).Wire S r.value cs
  swappable : ∀ i, ∀ f ∈ S.fields, f.isCount = false → (N.env S i).FieldSwappable r.value f

/-- The structs of every module are its records, and the buffers the records sent. -/
structure Represents (x : State ι) (y : Record.Exchange ι Field) : Prop where
  world : ∀ i, (N.env S i).Represents S (x.world i) (y.store i)
  sent : List.Forall₂ (N.Message S) x.sent y.sent

/-- Every call that is allowed returns: a buffer or a struct where one is due. -/
structure Answers (x : State ι) : Prop where
  call : ∀ i w c, Env.CallerStep (N.env S i) S (x.world i) w → Env.Proper (N.env S i) S w c →
    Env.Regular (N.env S i) S c → ∃ v h', (N.env S i).call S c w.heap = .ok (v, h')
  send : ∀ i w b blk, Env.CallerStep (N.env S i) S (x.world i) w → b ∈ w.structs →
    w.heap.block? b = some blk → N.Sendable S i w.heap blk →
      ∃ a buf h', (N.env S i).callApi S (.serialize (.base b)) w.heap = .ok (.ptr (.base a), h') ∧
        h'.block? a = some buf
  receive : ∀ i w a buf, Env.CallerStep (N.env S i) S (x.world i) w →
    w.heap.block? a = some buf → buf.cells ∈ x.sent →
      ∃ b obj h', (N.env S i).callApi S (.deserialize (.base a)) w.heap =
        .ok (.ptr (.base b), h') ∧ h'.block? b = some obj

variable {N S} {x : State ι} {y : Record.Exchange ι Field} {i : ι} {h : Heap} {blk : Block}
  {r : Record Field} {V : Value}

/-! ## Messages -/

theorem layout_env {o : Bool} (ho : N.bigEndian i = o) :
    (N.env S i).layout = N.layout.withOrder o := ho ▸ rfl

theorem closed (i : ι) : (N.env S i).Closed := Env.closed_ofStruct _ _ S

theorem resolves (hn : S.DistinctNames) (i : ι) : (N.env S i).Resolves S :=
  Env.resolves_ofStruct _ _ hn

/-- A condition on a value is one on the record shown. -/
theorem crosses_congr (hshow : (N.env S i).Shows S h blk r) :
    N.Crosses S (N.valueAt S i h blk) ↔ N.Crosses S r.value := by
  refine forall₂_congr fun f hf => forall_congr' fun hc => ?_
  cases hr : f.isRepeated with
  | true =>
    have ha : (N.valueAt S i h blk).array f = r.value.array f := hshow.items f hf hr
    simp only [Value.FieldCanSwap, Value.FieldSameBothWays, hr, if_true, ha]
  | false =>
    have hs : (N.valueAt S i h blk).scalar f = r.value.scalar f := hshow.scalar f hf hr hc
    simp only [Value.FieldCanSwap, Value.FieldSameBothWays, hr, Bool.false_eq_true, if_false, hs]

/-- The wire form depends on the byte order only. -/
theorem wire_congr {i j : ι} (ho : N.bigEndian i = N.bigEndian j) {cs : List Cell}
    (hw : (N.env S i).Wire S V cs) : (N.env S j).Wire S V cs := by
  rw [show N.env S i = Env.ofStruct _ (N.layout.withOrder _) S from rfl, ho] at hw
  exact ⟨hw.length, hw.header, hw.fields⟩

/-- A module can swap every field of a value that crosses. -/
theorem swappable_of_crosses (hcross : N.Crosses S V) (i : ι) :
    ∀ f ∈ S.fields, f.isCount = false → (N.env S i).FieldSwappable V f := by
  intro f hf hc
  cases ho : N.bigEndian i with
  | false => exact Env.fieldSwappable_little (layout_env ho)
  | true => exact (Env.fieldSwappable_iff (layout_env ho)).mpr ((hcross f hf hc).1 ⟨i, ho⟩)

/-- What one module reads as the record every module does. -/
theorem message_of_wire (hcross : N.Crosses S r.value) (hV : r.value.Bounded N.layout S)
    {cs : List Cell} (hw : (N.env S i).Wire S r.value cs) : N.Message S cs r where
  bounded := hV
  swappable := swappable_of_crosses hcross
  wire j := by
    by_cases ho : N.bigEndian i = N.bigEndian j
    · exact wire_congr ho hw
    · have hsame : ∀ f ∈ S.fields, f.isCount = false → r.value.FieldSameBothWays N.layout f :=
        fun f hf hc => (hcross f hf hc).2 ⟨i, j, ho⟩
      cases hi : N.bigEndian i with
      | false =>
        have hj : N.bigEndian j = true := by
          rw [hi] at ho
          exact Bool.eq_true_of_not_eq_false (Ne.symm ho)
        exact (Env.wire_iff (layout_env hi) (layout_env hj) hV hsame).mp hw
      | true =>
        have hj : N.bigEndian j = false := by
          rw [hi] at ho
          exact Bool.eq_false_of_not_eq_true (Ne.symm ho)
        exact (Env.wire_iff (layout_env hj) (layout_env hi) hV hsame).mpr hw

/-! ## Sending and receiving -/

section Calls

variable (flat : S.IsFlat) (hn : S.DistinctNames) (hA : ∀ i t n, (N.alloc i).succeeds t n = true)
  (hstruct : N.layout.structSize S.packed S.elements < 2 ^ 64) {w : World}
  {st : Record.Store Field} {b a : Nat} {buf : Block} {cs : List Cell} {h' : Heap}
include flat hn hA

/-- `serialize_S` returns a new buffer with the record. -/
theorem send_ok (hrep : (N.env S i).Represents S w st) (hb : b ∈ w.structs)
    (hl : w.heap.block? b = some blk) (hsend : N.Sendable S i w.heap blk) :
    ∃ out r, (N.env S i).callApi S (.serialize (.base b)) w.heap =
        .ok (.ptr (.base w.heap.next), w.heap.push out) ∧
      st b = some r ∧ N.Message S out.cells r := by
  obtain ⟨x, r, hx, hh, harr, hst, hshow⟩ := hrep.struct hb
  obtain rfl := Option.some.inj (hl.symm.trans hx)
  have hval := hshow.hasValue flat hh harr hsend.clean
  have hcross := (crosses_congr hshow).mp hsend.crosses
  have hsize : r.value.size (N.env S i).layout S < 2 ^ 64 := by
    have heq : (N.valueAt S i w.heap blk).size N.layout S = r.value.size N.layout S := by
      unfold Value.size
      congr 2
      refine List.map_congr_left fun f hf => ?_
      unfold Value.fieldSize
      cases hr : f.isRepeated with
      | true =>
        have ha : (N.valueAt S i w.heap blk).array f = r.value.array f := hshow.items f hf hr
        simp only [if_true, ha]
      | false => rfl
    exact heq ▸ hsend.size
  obtain ⟨out, hrun, hw⟩ := Env.getSerializer_wire hval flat hsize (resolves hn i) hl
    (swappable_of_crosses hcross i) (hA i _ _)
  exact ⟨out, r, bind_of_ok hrun, hst, message_of_wire hcross (hval.bounded flat) hw⟩

include hstruct

/-- `deserialize_S` returns a new struct with the record. -/
theorem receive_ok (hrep : (N.env S i).Represents S w st) (ha : w.heap.block? a = some buf)
    (hmsg : N.Message S buf.cells r) :
    ∃ h', (N.env S i).callApi S (.deserialize (.base a)) w.heap =
        .ok (.ptr (.base w.heap.next), h') ∧ st w.heap.next = none ∧
      (N.env S i).Represents S ⟨h', Env.withResult w.structs (.base w.heap.next)⟩
        (Function.update st w.heap.next (some r)) := by
  obtain ⟨h', obj, hrun, hobj, hval, hload, hapart, hk⟩ := Env.getDeserializer_new flat
    (resolves hn i) (closed i) (hA i) hstruct hmsg.bounded (hmsg.swappable i)
    (hmsg.wire i).carries ha
  exact ⟨h', bind_of_ok hrun, hrep.absent _ fun hm =>
    Nat.lt_irrefl _ (hrep.owned.lt_next (Or.inl hm)),
    hrep.receive flat hobj hval hload hapart hk⟩

end Calls

/-- The other modules are as before. -/
theorem Represents.update [DecidableEq ι] (hrep : N.Represents S x y) {w : World}
    {st : Record.Store Field} (hw : (N.env S i).Represents S w st) (j : ι) :
    (N.env S j).Represents S (Function.update x.world i w j) (Function.update y.store i st j) := by
  by_cases hj : j = i
  · subst hj
    rwa [Function.update_self, Function.update_self]
  · rw [Function.update_of_ne hj, Function.update_of_ne hj]
    exact hrep.world j

/-- Each step of the modules is one of the exchange. -/
theorem step_refines [DecidableEq ι] (flat : S.IsFlat) (hn : S.DistinctNames)
    (hcf : S.CountsFirst) (hA : ∀ i t n, (N.alloc i).succeeds t n = true)
    (hstruct : N.layout.structSize S.packed S.elements < 2 ^ 64) (hrep : N.Represents S x y)
    {e : ι × Record.Event Field} {x' : State ι} (hstep : N.Step S x e x') :
    ∃ y', Record.ExchangeStep Field.isMutable y e y' ∧ N.Represents S x' y' := by
  cases hstep with
  | @call i w op result h =>
    obtain ⟨w₁, c, v, hcaller, hproper, hreg, hcall, hs, he⟩ := h
    have hrep₁ := (hrep.world i).frame w₁ hcaller.1 hcaller.2
    obtain ⟨st', h1, h2⟩ := Env.call_refines hrep₁ flat (resolves hn i) (hA i) hcf hstruct hproper
      hreg hcall
    rw [hcaller.1, ← hs] at h2
    rw [← he] at h1
    exact ⟨_, .call h1, hrep.update h2, hrep.sent⟩
  | @send i w b blk buf v h' hw hb hl hsend hrun hbuf =>
    have hrep₁ := (hrep.world i).frame w hw.1 hw.2
    obtain ⟨out, r, hok, hst, hmsg⟩ := send_ok flat hn hA hrep₁ hb hl hsend
    obtain ⟨rfl, rfl⟩ := Prod.mk.inj (Except.ok.inj (hok.symm.trans hrun))
    obtain rfl := Option.some.inj ((Heap.block?_push_self w.heap out).symm.trans hbuf)
    have hpush := hrep₁.frame ⟨w.heap.push out, w.structs⟩ rfl fun d hd =>
      Heap.block?_push_of_lt (hrep₁.owned.lt_next hd) out
    have hsent := hrep.sent.length_eq
    refine ⟨⟨y.store, y.sent ++ [r]⟩, ?_, ?_, ?_⟩
    · rw [hsent]
      exact .send hst
    · have hup := hrep.update hpush
      rwa [Function.update_eq_self] at hup
    · exact List.rel_append hrep.sent (.cons hmsg .nil)
  | @receive i w a k buf v h' hw ha hk hrun =>
    have hrep₁ := (hrep.world i).frame w hw.1 hw.2
    obtain ⟨r, hr, hmsg⟩ : ∃ r, y.sent[k]? = some r ∧ N.Message S buf.cells r := by
      obtain ⟨hlt, hget⟩ := List.getElem?_eq_some_iff.mp hk
      have hlt' : k < y.sent.length := hrep.sent.length_eq ▸ hlt
      have hmsg := hrep.sent.get hlt hlt'
      simp only [List.get_eq_getElem, hget] at hmsg
      exact ⟨_, List.getElem?_eq_getElem hlt', hmsg⟩
    obtain ⟨h₁, hok, hnone, hrep₂⟩ := receive_ok flat hn hA hstruct hrep₁ ha hmsg
    obtain ⟨rfl, rfl⟩ := Prod.mk.inj (Except.ok.inj (hok.symm.trans hrun))
    exact ⟨_, .receive hr hnone, hrep.update hrep₂, hrep.sent⟩

/-- Where the structs are records, no call that is allowed fails. -/
theorem Represents.answers (hrep : N.Represents S x y) (flat : S.IsFlat) (hn : S.DistinctNames)
    (hcf : S.CountsFirst) (hA : ∀ i t n, (N.alloc i).succeeds t n = true)
    (hstruct : N.layout.structSize S.packed S.elements < 2 ^ 64) : N.Answers S x := by
  have hrep' : ∀ i w, Env.CallerStep (N.env S i) S (x.world i) w →
      (N.env S i).Represents S w (y.store i) := fun i w hw => (hrep.world i).frame w hw.1 hw.2
  refine ⟨fun i w c hw hproper hreg => ?_, fun i w b blk hw hb hl hsend => ?_,
    fun i w a buf hw ha hmem => ?_⟩
  · obtain ⟨v, h', hok, -⟩ := Env.call_owned (hrep' i w hw).owned flat (resolves hn i)
      (fun t n _ => hA i t n) hstruct hproper (hreg.safe hcf)
    exact ⟨v, h', hok⟩
  · obtain ⟨out, r, hok, -⟩ := send_ok flat hn hA (hrep' i w hw) hb hl hsend
    exact ⟨_, out, _, hok, Heap.block?_push_self _ _⟩
  · obtain ⟨k, hk, hget⟩ := List.mem_iff_getElem.mp hmem
    have hk' : k < y.sent.length := hrep.sent.length_eq ▸ hk
    have hmsg := hrep.sent.get hk hk'
    simp only [List.get_eq_getElem, hget] at hmsg
    obtain ⟨h', hok, -, hrep₂⟩ := receive_ok flat hn hA hstruct (hrep' i w hw) ha hmsg
    obtain ⟨obj, -, hobj, -⟩ := hrep₂.struct (b := w.heap.next) (Or.inr rfl)
    exact ⟨_, obj, h', hok, hobj⟩

/-- From no structs and no messages. -/
theorem run_refines [DecidableEq ι] (flat : S.IsFlat) (hn : S.DistinctNames)
    (hcf : S.CountsFirst) (hA : ∀ i t n, (N.alloc i).succeeds t n = true)
    (hstruct : N.layout.structSize S.packed S.elements < 2 ^ 64) {x₀ : State ι}
    (h₀ : ∀ i, (x₀.world i).structs = ∅) (hsent : x₀.sent = [])
    {es : List (ι × Record.Event Field)} (hrun : Run (N.Step S) x₀ es x) :
    ∃ y, Run (Record.ExchangeStep Field.isMutable) ⟨fun _ _ => none, []⟩ es y ∧
      N.Represents S x y := by
  have hstart : N.Represents S x₀ ⟨fun _ _ => none, []⟩ :=
    ⟨fun i => ⟨Env.owned_of_empty (h₀ i), fun _ _ => rfl, fun b hb => by
      rw [h₀ i] at hb
      exact hb.elim⟩, hsent ▸ .nil⟩
  have hsim : ∀ x y e x', N.Represents S x y → N.Step S x e x' →
      ∃ y', Record.ExchangeStep Field.isMutable y e y' ∧ N.Represents S x' y' :=
    fun _ _ _ _ hrep hstep => step_refines flat hn hcf hA hstruct hrep hstep
  exact hrun.simulates hsim hstart

end Network

open Network

/-- Every run of modules that call the accessors properly, send what is `Sendable` and receive
    nothing else is an exchange of records with the same results; and wherever it has got to,
    every such call returns. Allocations succeed, and counts are before their arrays. -/
theorem exchange_refines {ι : Type u} [DecidableEq ι] {N : Network ι} {S : Struct}
    (flat : S.IsFlat) (hn : S.DistinctNames) (hcf : S.CountsFirst)
    (hA : ∀ i t n, (N.alloc i).succeeds t n = true)
    (hstruct : N.layout.structSize S.packed S.elements < 2 ^ 64) {x₀ x : State ι}
    (h₀ : ∀ i, (x₀.world i).structs = ∅) (hsent : x₀.sent = [])
    {es : List (ι × Record.Event Field)} (hrun : Run (N.Step S) x₀ es x) :
    (∃ y, Run (Record.ExchangeStep Field.isMutable) ⟨fun _ _ => none, []⟩ es y ∧
      N.Represents S x y) ∧ N.Answers S x := by
  obtain ⟨y, hy, hrep⟩ := run_refines flat hn hcf hA hstruct h₀ hsent hrun
  exact ⟨⟨y, hy, hrep⟩, hrep.answers flat hn hcf hA hstruct⟩

/-- A little-endian and a big-endian module. -/
def bothOrders : Network Bool := ⟨fun _ => .calloc, .default, id⟩

theorem floatBlock_fits (bigEndian : Bool) (x : Nat) :
    (encodeInt bigEndian 4 x).length < 2 ^ 64 := by simp

/-- `struct s` with `x` as given. -/
def floatBlock (bigEndian : Bool) (x : Nat) : Block :=
  ⟨encodeInt bigEndian 4 x, floatBlock_fits bigEndian x⟩

def floatX : Field := floatStruct.fields.getD 0 default

/-- The world whose only struct is block 0. -/
def floatWorld (bigEndian : Bool) (x : Nat) : World where
  heap := ⟨[some (floatBlock bigEndian x)], 1⟩
  structs := Env.structsAfter ∅ (.create fun _ => .int 0) (.ptr (.base 0))

theorem create_floatWorld :
    Env.ObservedStep (bothOrders.env floatStruct false) floatStruct ⟨⟨[], 0⟩, ∅⟩
      (Env.denote (bothOrders.env floatStruct false) floatStruct ⟨[], 0⟩ (.create fun _ => .int 0),
        .created 0) (floatWorld false 0) :=
  ⟨_, .create fun _ => .int 0, .ptr (.base 0), ⟨rfl, fun _ _ => rfl⟩,
    ⟨fun _ _ _ _ => ⟨0, rfl⟩, by decide⟩, by unfold Env.Regular; decide, rfl, rfl, rfl⟩

theorem set_floatWorld :
    Env.ObservedStep (bothOrders.env floatStruct false) floatStruct (floatWorld false 0)
      (.set 0 floatX 0x3f800000, .done true []) (floatWorld false 0x3f800000) :=
  ⟨_, .set floatX (.base 0) (.int 0x3f800000), .int 1, ⟨rfl, fun _ _ => rfl⟩,
    ⟨⟨0, Or.inr rfl, rfl⟩, by decide, rfl, rfl, _, rfl⟩, ⟨by decide, by decide⟩, rfl, rfl, rfl⟩

theorem sendable_floatWorld : bothOrders.Sendable floatStruct false
    (floatWorld false 0x3f800000).heap (floatBlock false 0x3f800000) where
  clean := by unfold Env.Clean; decide
  size := by decide
  crosses := by unfold Crosses; decide

theorem floatMessage_fits (x : Nat) :
    (encodeInt false 8 12 ++ encodeInt false 4 x).length < 2 ^ 64 := by simp

/-- What `serialize_s` makes of it. -/
def floatMessage (x : Nat) : Block :=
  ⟨encodeInt false 8 12 ++ encodeInt false 4 x, floatMessage_fits x⟩

/-- The little-endian module sends 1.0 to the big-endian one. -/
theorem exchange_refines_float : ∃ es x,
    Run (bothOrders.Step floatStruct) ⟨fun _ => ⟨⟨[], 0⟩, ∅⟩, []⟩ es x ∧
    es.map Prod.fst = [false, false, false, true] ∧ x.sent.length = 1 ∧
    (∃ y, Run (Record.ExchangeStep Field.isMutable) ⟨fun _ _ => none, []⟩ es y ∧
      bothOrders.Represents floatStruct x y) ∧ bothOrders.Answers floatStruct x := by
  have hcaller : ∀ i w, Env.CallerStep (bothOrders.env floatStruct i) floatStruct w w :=
    fun _ _ => ⟨rfl, fun _ _ => rfl⟩
  -- the big-endian module's caller puts the buffer into its empty memory
  have hmove : Env.CallerStep (bothOrders.env floatStruct true) floatStruct ⟨⟨[], 0⟩, ∅⟩
      ⟨⟨[some (floatMessage 0x3f800000)], 0⟩, ∅⟩ :=
    ⟨rfl, fun d hd => hd.elim False.elim fun ⟨b, f, hb, _⟩ => hb.elim⟩
  have hsend := Step.send (N := bothOrders) (x := ⟨Function.update (Function.update
      (fun _ => ⟨⟨[], 0⟩, ∅⟩) false (floatWorld false 0)) false (floatWorld false 0x3f800000), []⟩)
    (hcaller false _) (b := 0) (Or.inr rfl) rfl sendable_floatWorld rfl
    (show _ = some (floatMessage 0x3f800000) from rfl)
  obtain ⟨x, hrun, hsent⟩ : ∃ x, Run (bothOrders.Step floatStruct)
      ⟨fun _ => ⟨⟨[], 0⟩, ∅⟩, []⟩ [_, _, (false, .send 0 0), (true, .receive 0 1)] x ∧
      x.sent.length = 1 :=
    ⟨_, .cons (.call create_floatWorld) (.cons (.call set_floatWorld) (.cons hsend
      (.cons (.receive hmove (k := 0) (a := 0) (v := .ptr (.base 1)) rfl rfl rfl) (.nil _)))), rfl⟩
  exact ⟨_, x, hrun, rfl, hsent, exchange_refines floatStruct_isFlat
    (by unfold Struct.DistinctNames; decide) (by decide) (fun _ _ _ => rfl) (by decide)
    (fun _ => rfl) rfl hrun⟩

end Tyr
