import Tyr.Wire.ByteOrder
import Tyr.Wire.RoundTrip

/-
  The logical value of a struct, and what `serialize_S` makes of it in either byte order.

  A `Value` knows no memory. A struct object has it in the byte order of its module
  (`HasValue`) and so has a buffer (`Wire`): a header, and for every field that is not a count
  its bytes at its offset (`FieldWire`). `getSerializer_wire` takes one to the other.
-/

namespace Tyr

open Prog

structure Value where
  scalar : Field → Nat
  array : Field → List Nat

namespace Value

variable (DL : DataLayout) (V : Value)

def fieldSize (f : Field) : Nat :=
  if f.isRepeated then DL.allocSize f.elem * (V.array f).length else DL.allocSize f.type

/-- What a field takes in a buffer. -/
def wireSize (f : Field) : Nat := f.onWire (V.fieldSize DL f)

/-- The size of a serialized struct. -/
def size (S : Struct) : Nat := 8 + (S.fields.map (V.fieldSize DL)).sum

variable {DL V} {f : Field}

theorem fieldSize_array (hr : f.isRepeated = true) :
    V.fieldSize DL f = DL.allocSize f.elem * (V.array f).length := if_pos hr

theorem fieldSize_scalar (hr : f.isRepeated = false) : V.fieldSize DL f = DL.allocSize f.type :=
  if_neg (by simp [hr])

theorem wireSize_array (hr : f.isRepeated = true) (hc : f.isCount = false) :
    V.wireSize DL f = 8 + V.fieldSize DL f := by
  unfold wireSize Field.onWire
  rw [if_neg (by simp [hc]), if_pos hr]

theorem wireSize_scalar (hr : f.isRepeated = false) (hc : f.isCount = false) :
    V.wireSize DL f = DL.allocSize f.type := by
  unfold wireSize Field.onWire
  rw [if_neg (by simp [hc]), if_neg (by simp [hr]), fieldSize_scalar hr]

end Value

/-! ## Fields in a buffer -/

/-- `P` holds of every field that is not a count, at its offset. -/
def Along (size : Field → Nat) (P : Field → Nat → Prop) : List Field → Nat → Prop
  | [], _ => True
  | f :: fs, off =>
    if f.isCount then Along size P fs off else P f off ∧ Along size P fs (off + size f)

namespace Along

variable {size : Field → Nat} {P Q R : Field → Nat → Prop} {fs : List Field} {off : Nat}

theorem imp (h : Along size P fs off)
    (hPQ : ∀ f ∈ fs, f.isCount = false → ∀ o, P f o → Q f o) : Along size Q fs off := by
  induction fs generalizing off with
  | nil => trivial
  | cons f fs ih =>
    have hm : ∀ g ∈ fs, g.isCount = false → ∀ o, P g o → Q g o :=
      fun g hg => hPQ g (List.mem_cons_of_mem f hg)
    unfold Along at h ⊢
    cases hc : f.isCount with
    | true =>
      simp only [hc, if_true] at h ⊢
      exact ih h hm
    | false =>
      simp only [hc, Bool.false_eq_true, if_false] at h ⊢
      exact ⟨hPQ f List.mem_cons_self hc off h.1, ih h.2 hm⟩

theorem and (h : Along size P fs off) (h' : Along size Q fs off) :
    Along size (fun f o => P f o ∧ Q f o) fs off := by
  induction fs generalizing off with
  | nil => trivial
  | cons f fs ih =>
    unfold Along at h h' ⊢
    cases hc : f.isCount with
    | true =>
      simp only [hc, if_true] at h h' ⊢
      exact ih h h'
    | false =>
      simp only [hc, Bool.false_eq_true, if_false] at h h' ⊢
      exact ⟨⟨h.1, h'.1⟩, ih h.2 h'.2⟩

theorem exists_offset (h : Along size P fs off) {f : Field} (hf : f ∈ fs)
    (hc : f.isCount = false) : ∃ o, P f o := by
  induction fs generalizing off with
  | nil => cases hf
  | cons g fs ih =>
    unfold Along at h
    rcases List.mem_cons.mp hf with rfl | hf
    · simp only [hc, Bool.false_eq_true, if_false] at h
      exact ⟨off, h.1⟩
    · cases hg : g.isCount with
      | true =>
        simp only [hg, if_true] at h
        exact ih h hf
      | false =>
        simp only [hg, Bool.false_eq_true, if_false] at h
        exact ih h.2 hf

end Along

namespace Env

variable (E : Env) (S : Struct) (V : Value)

/-- The struct object `blk` has the value `V`. -/
structure HasValue (h : Heap) (blk : Block) : Prop extends E.Valid S h blk where
  scalar : ∀ f ∈ S.fields, f.isRepeated = false → f.isCount = false →
    E.intAt S blk f = V.scalar f
  count : ∀ f ∈ S.fields, f.isRepeated = true →
    (E.countAt S blk (S.countOf f)).toNat = (V.array f).length
  element : ∀ f ∈ S.fields, f.isRepeated = true → ∀ k v, (V.array f)[k]? = some v →
    v < 2 ^ E.layout.getTypeSizeInBits f.elem ∧
      slice (E.elementsAt S h blk f) (E.layout.allocSize f.elem * k) (E.layout.storeSize f.elem) =
        E.encode f.elem (.int v)

/-- The bytes of a field that carry its value: of an array the count and each element. -/
def FieldWire (out : List Cell) (f : Field) (off : Nat) : Prop :=
  if f.isRepeated then
    slice out off 8 = (toLE 8 (V.array f).length).map .byte ∧
    ∀ k v, (V.array f)[k]? = some v →
      slice out (off + 8 + E.layout.allocSize f.elem * k) (E.layout.storeSize f.elem) =
        E.wireCells f.elem v
  else slice out off (E.layout.storeSize f.type) = E.wireCells f.type (V.scalar f)

/-- The buffer `out` has the value `V`, in the form in which code for `E` leaves and expects
    it. -/
structure Wire (out : List Cell) : Prop where
  length : out.length = V.size E.layout S
  header : slice out 0 8 = (toLE 8 (V.size E.layout S)).map .byte
  fields : Along (V.wireSize E.layout) (E.FieldWire V out) S.fields 8

/-- The backend accepts the code for the field, and its loop has something to do. -/
def FieldSwappable (f : Field) : Prop :=
  if f.isRepeated then E.ArraySwappable f.elem (V.array f).length else E.Swappable f.type

variable {E S V} {h : Heap} {blk : Block} {f : Field}

/-! ## Sizes -/

theorem HasValue.exactFieldSize (hrep : E.HasValue S V h blk) (hf : f ∈ S.fields) :
    E.exactFieldSize S blk f = V.fieldSize E.layout f := by
  unfold Env.exactFieldSize Value.fieldSize
  cases hr : f.isRepeated with
  | true => simp only [if_true, hrep.count f hf hr]
  | false => rfl

theorem HasValue.exactSize (hrep : E.HasValue S V h blk) :
    E.exactSize S blk = V.size E.layout S := by
  unfold Env.exactSize Value.size
  congr 2
  exact List.map_congr_left fun f hf => hrep.exactFieldSize hf

theorem HasValue.fieldSizeAt (hrep : E.HasValue S V h blk)
    (hsize : V.size E.layout S < 2 ^ 64) (hf : f ∈ S.fields) :
    (E.fieldSizeAt S blk f).toNat = V.fieldSize E.layout f := by
  rw [fieldSizeAt_toNat (by rwa [hrep.exactSize]) hf, hrep.exactFieldSize hf]

theorem HasValue.wireNat (hrep : E.HasValue S V h blk) (hsize : V.size E.layout S < 2 ^ 64)
    (hf : f ∈ S.fields) : E.wireNat S blk f = V.wireSize E.layout f := by
  rw [Env.wireNat, hrep.fieldSizeAt hsize hf]
  rfl

/-- What the fields take in a buffer adds up to its size. -/
theorem sum_fieldWire (wf : S.WellFormed) :
    8 + (S.fields.map (V.wireSize E.layout)).sum = V.size E.layout S := by
  unfold Value.size
  congr 1
  refine sum_wire wf fun f hf hc => ?_
  obtain ⟨ht, -, hr, -⟩ := wf.count_spec hf hc
  rw [Value.fieldSize_scalar hr, ht, E.layout.allocSize_i64]

/-- An array's element lies in the field's part of the buffer. -/
theorem element_le {k v : Nat} (hr : f.isRepeated = true) (hc : f.isCount = false)
    (hk : (V.array f)[k]? = some v) (off : Nat) :
    off + 8 + E.layout.allocSize f.elem * k + E.layout.storeSize f.elem ≤
      off + V.wireSize E.layout f := by
  have hlt := (List.getElem?_eq_some_iff.mp hk).1
  have hle := E.layout.storeSize_le_allocSize f.elem
  have hmul := Nat.mul_le_mul_left (E.layout.allocSize f.elem) (Nat.succ_le_of_lt hlt)
  rw [Nat.succ_eq_add_one, Nat.mul_add, Nat.mul_one] at hmul
  rw [Value.wireSize_array hr hc, Value.fieldSize_array hr]
  omega

theorem storeSize_le_wireSize (hr : f.isRepeated = false) (hc : f.isCount = false) :
    E.layout.storeSize f.type ≤ V.wireSize E.layout f := by
  rw [Value.wireSize_scalar hr hc]
  exact E.layout.storeSize_le_allocSize f.type

/-- A field's bytes stay where nothing is written to its part of the buffer. -/
theorem FieldWire.congr {out out' : List Cell} {off : Nat} (hc : f.isCount = false)
    (hw : E.FieldWire V out f off)
    (hsame : ∀ p k, off ≤ p → p + k ≤ off + V.wireSize E.layout f →
      slice out' p k = slice out p k) :
    E.FieldWire V out' f off := by
  unfold FieldWire at hw ⊢
  cases hr : f.isRepeated with
  | true =>
    simp only [hr, if_true] at hw ⊢
    constructor
    · rw [hsame off 8 le_rfl ?_]
      · exact hw.1
      · rw [Value.wireSize_array hr hc]
        omega
    · intro k v hk
      rw [hsame _ _ (by omega) (element_le hr hc hk off)]
      exact hw.2 k v hk
  | false =>
    simp only [hr, Bool.false_eq_true, if_false] at hw ⊢
    have hle := storeSize_le_wireSize (E := E) (V := V) hr hc
    rw [hsame off _ le_rfl (by omega)]
    exact hw

/-! ## Serializing -/

section Serialize

variable {g : Heap} {b r : Nat} {out : Block} {o : I64}

/-- The value that is in the slot of a scalar or of a count. -/
theorem HasValue.scalar_lt (hrep : E.HasValue S V h blk) (flat : S.IsFlat)
    (hf : f ∈ S.fields) (hr : f.isRepeated = false) (hc : f.isCount = false) :
    V.scalar f < 2 ^ E.layout.getTypeSizeInBits f.type := by
  rw [← hrep.scalar f hf hr hc]
  exact intAt_lt blk (not_pointer flat.toWellFormed hf (flat.isStruct f hf) hr)

theorem fieldSerializer_wire_scalar (hrep : E.HasValue S V h blk) (flat : S.IsFlat)
    (hl : h.block? b = some blk) (hf : f ∈ S.fields) (hc : f.isCount = false)
    (hr : f.isRepeated = false) (hsw : E.Swappable f.type) (he : h.Extends g)
    (hout : g.block? r = some out)
    (hfit : o.toNat + V.wireSize E.layout f ≤ out.cells.length) :
    ∃ out' : Block, E.fieldSerializer S f (.base b) (.loc r o) g =
        .ok (E.wireSize S blk f, g.update r out') ∧
      out'.cells.length = out.cells.length ∧
      (∀ p k, p + k ≤ o.toNat → slice out'.cells p k = slice out.cells p k) ∧
      E.FieldWire V out'.cells f o.toNat := by
  have wf := flat.toWellFormed
  have hs := flat.isStruct f hf
  have hle := storeSize_le_wireSize (E := E) (V := V) hr hc
  have hlen : (E.wireCells f.type (V.scalar f)).length = E.layout.storeSize f.type :=
    length_wireCells
  have hcells : (out.overwrite o.toNat (E.wireCells f.type (V.scalar f))).cells =
      splice out.cells o.toNat (E.wireCells f.type (V.scalar f)) :=
    Block.overwrite_cells (by omega)
  have hswap := swapBytes_ok (v := E.intAt S blk f) (flat.scalar f hf hr) hsw (h := g)
  rw [hrep.scalar f hf hr hc] at hswap
  refine ⟨out.overwrite o.toNat (E.wireCells f.type (V.scalar f)), ?_,
    Block.length_overwrite _ _ _, ?_, ?_⟩
  · rw [fieldSerializer_scalar_run wf hl hrep.holds hf hr hs (not_pointer wf hf hs hr) he hout
      (by rw [hrep.scalar f hf hr hc]; exact hswap)]
    exact if_pos (by omega)
  · intro p k hp
    rw [hcells]
    exact slice_splice_disjoint (by omega) (.inl hp)
  · unfold FieldWire
    rw [if_neg (by simp [hr]), hcells, ← hlen]
    exact slice_splice_self (by omega)

theorem fieldSerializer_wire_array (hrep : E.HasValue S V h blk) (flat : S.IsFlat)
    (hsize : V.size E.layout S < 2 ^ 64) (hl : h.block? b = some blk) (hf : f ∈ S.fields)
    (hc : f.isCount = false) (hr : f.isRepeated = true)
    (hsw : E.ArraySwappable f.elem (V.array f).length) (he : h.Extends g) (hnext : h.next ≤ r)
    (hout : g.block? r = some out)
    (hfit : o.toNat + V.wireSize E.layout f ≤ out.cells.length) :
    ∃ out' : Block, E.fieldSerializer S f (.base b) (.loc r o) g =
        .ok (E.wireSize S blk f, g.update r out') ∧
      out'.cells.length = out.cells.length ∧
      (∀ p k, p + k ≤ o.toNat → slice out'.cells p k = slice out.cells p k) ∧
      E.FieldWire V out'.cells f o.toNat := by
  have wf := flat.toWellFormed
  have hexact : E.exactSize S blk < 2 ^ 64 := by rwa [hrep.exactSize]
  have hread := hrep.toValid.readable hexact f hf hr
  have hfield := hrep.fieldSizeAt hsize hf
  have hwire : V.wireSize E.layout f = 8 + V.fieldSize E.layout f := Value.wireSize_array hr hc
  have harray : V.fieldSize E.layout f = E.layout.allocSize f.elem * (V.array f).length :=
    Value.fieldSize_array hr
  have hcount := hrep.count f hf hr
  set n := E.countAt S blk (S.countOf f) with hn
  set W := E.encodeI64 (E.swapI64 n) ++ E.arrayBytes S h blk f with hW
  have hWlen : W.length = V.wireSize E.layout f := by
    rw [hW, List.length_append, length_encodeI64, arrayBytes, Heap.length_bytesAt hread, hfield,
      hwire]
  have hcells : (out.overwrite o.toNat W).cells = splice out.cells o.toNat W :=
    Block.overwrite_cells (by omega)
  have ho8 : (o + 8).toNat = o.toNat + 8 := by
    have := out.fits
    rw [BitVec.toNat_add, show (8 : I64).toNat = 8 from rfl]
    omega
  obtain ⟨out', hswap, hrun⟩ := swapArrayBytes_ok (o := o + 8) (flat.elem_isScalar hf hr)
    (by rwa [hcount]) (Heap.block?_update_self hout (out.overwrite o.toNat W))
    (by rw [Block.length_overwrite, ho8, hcount, ← harray]; omega)
  rw [ho8] at hswap
  refine ⟨out', ?_, hswap.length.trans (Block.length_overwrite _ _ _), ?_, ?_⟩
  · rw [fieldSerializer_array_run wf hl hrep.holds hf hr hread he hnext hout,
      if_pos (by rw [hfield]; omega), bind_of_ok hrun, Heap.update_update]
    rfl
  · intro p k hp
    rw [hswap.frame p k (.inl (by omega)), hcells]
    exact slice_splice_disjoint (by omega) (.inl hp)
  · unfold FieldWire
    rw [if_pos hr]
    constructor
    · have hfront : slice (splice out.cells o.toNat W) o.toNat 8 = slice W 0 8 :=
        slice_splice_sub (k := 0) (by omega) (by omega)
      rw [hswap.frame _ _ (.inl (by omega)), hcells, hfront, hW,
        slice_append_left (length_encodeI64 E _), encodeI64_swapI64, hcount]
    · intro k v hk
      obtain ⟨hv, helem⟩ := hrep.element f hf hr k v hk
      have hle := element_le (E := E) hr hc hk 0
      refine hswap.element k (Nat.zero_le k) ?_ v hv ?_
      · rw [hcount]
        exact (List.getElem?_eq_some_iff.mp hk).1
      · rw [hcells, Nat.add_assoc, slice_splice_sub (by omega) (by omega), hW,
          slice_append_add (length_encodeI64 E _), arrayBytes_eq hexact hf, helem]

theorem fieldSerializer_wire (hrep : E.HasValue S V h blk) (flat : S.IsFlat)
    (hsize : V.size E.layout S < 2 ^ 64) (hl : h.block? b = some blk) (hf : f ∈ S.fields)
    (hc : f.isCount = false) (hsw : E.FieldSwappable V f) (he : h.Extends g) (hnext : h.next ≤ r)
    (hout : g.block? r = some out)
    (hfit : o.toNat + V.wireSize E.layout f ≤ out.cells.length) :
    ∃ out' : Block, E.fieldSerializer S f (.base b) (.loc r o) g =
        .ok (E.wireSize S blk f, g.update r out') ∧
      out'.cells.length = out.cells.length ∧
      (∀ p k, p + k ≤ o.toNat → slice out'.cells p k = slice out.cells p k) ∧
      E.FieldWire V out'.cells f o.toNat := by
  unfold FieldSwappable at hsw
  cases hr : f.isRepeated with
  | true =>
    rw [if_pos hr] at hsw
    exact fieldSerializer_wire_array hrep flat hsize hl hf hc hr hsw he hnext hout hfit
  | false =>
    rw [if_neg (by simp [hr])] at hsw
    exact fieldSerializer_wire_scalar hrep flat hl hf hc hr hsw he hout hfit

/-- The unrolled calls of the field serializers. -/
theorem serializeEntries_wire (hrep : E.HasValue S V h blk) (flat : S.IsFlat)
    (hsize : V.size E.layout S < 2 ^ 64) (hfun : Resolves E S) (hl : h.block? b = some blk) :
    ∀ (fs : List Field) (idx : I64) (out : Block),
      (∀ f ∈ fs, f ∈ S.fields ∧ (f.isCount = false → E.FieldSwappable V f)) →
      idx.toNat + (fs.map (V.wireSize E.layout)).sum ≤ out.cells.length →
      ∃ (out' : Block) (idx' : I64),
        E.serializeEntries S (.base b) (.base h.next) fs idx (h.push out) =
          .ok (idx', h.push out') ∧
        out'.cells.length = out.cells.length ∧
        (∀ p k, p + k ≤ idx.toNat → slice out'.cells p k = slice out.cells p k) ∧
        Along (V.wireSize E.layout) (E.FieldWire V out'.cells) fs idx.toNat := by
  intro fs
  induction fs with
  | nil =>
    intro idx out _ _
    exact ⟨out, idx, rfl, rfl, fun _ _ _ => rfl, trivial⟩
  | cons f fs ih =>
    intro idx out hm hfit
    obtain ⟨hf, hsw⟩ := hm f List.mem_cons_self
    have hm' : ∀ g ∈ fs, g ∈ S.fields ∧ (g.isCount = false → E.FieldSwappable V g) :=
      fun g hg => hm g (List.mem_cons_of_mem f hg)
    rw [List.map_cons, List.sum_cons] at hfit
    unfold serializeEntries Along
    cases hc : f.isCount with
    | true =>
      obtain ⟨out', idx', hrun, hrest⟩ := ih idx out hm' (by omega)
      exact ⟨out', idx', hrun, hrest⟩
    | false =>
      have hlt := out.fits
      have hwire := hrep.wireNat hsize hf
      obtain ⟨out₁, hrun₁, hlen₁, hframe₁, hfield₁⟩ := fieldSerializer_wire (r := h.next) (o := idx)
        hrep flat hsize hl hf hc (hsw hc) ((Heap.Extends.refl h).push out) le_rfl
        (Heap.block?_push_self h out) (by omega)
      rw [Heap.update_push_next] at hrun₁
      have hidx : (idx + E.wireSize S blk f).toNat = idx.toNat + V.wireSize E.layout f := by
        rw [toNat_add_wireSize blk hc idx (by omega), hwire]
      obtain ⟨out', idx', hrun, hlen, hframe, hfields⟩ := ih (idx + E.wireSize S blk f) out₁ hm'
        (by omega)
      rw [hidx] at hframe hfields
      refine ⟨out', idx', ?_, hlen.trans hlen₁, ?_, ?_, hfields⟩
      · simp only [Bool.false_eq_true, if_false, hfun.serializer hf hc]
        rw [Ptr.add_loc, show (0 : I64) + idx = idx from BitVec.zero_add idx]
        exact (bind_of_ok hrun₁).trans hrun
      · intro p k hp
        rw [hframe p k (by omega), hframe₁ p k hp]
      · refine hfield₁.congr hc ?_
        intro p k _ hp
        exact hframe p k hp

/-- `serialize_S` on a struct that has the value `V`. -/
theorem getSerializer_wire (hrep : E.HasValue S V h blk) (flat : S.IsFlat)
    (hsize : V.size E.layout S < 2 ^ 64) (hfun : Resolves E S) (hl : h.block? b = some blk)
    (hsw : ∀ f ∈ S.fields, f.isCount = false → E.FieldSwappable V f)
    (hA : E.alloc.succeeds h.calls (V.size E.layout S) = true) :
    ∃ buf : Block, E.getSerializer S (.base b) h = .ok (.base h.next, h.push buf) ∧
      E.Wire S V buf.cells := by
  have wf := flat.toWellFormed
  have hexact : E.exactSize S blk < 2 ^ 64 := by rwa [hrep.exactSize]
  have hser : E.serializedSize S blk = V.size E.layout S := by
    rw [serializedSize_eq hexact, hrep.exactSize]
  set size : I64 := BitVec.ofNat 64 (E.serializedSize S blk) with hsz
  have hto : size.toNat = V.size E.layout S := by
    rw [hsz, hser, BitVec.toNat_ofNat]
    exact Nat.mod_eq_of_lt hsize
  have hge : 8 ≤ V.size E.layout S := Nat.le_add_right 8 _
  have hsum := sum_fieldWire (E := E) (V := V) wf
  set new := (E.alloc.fresh h.calls size).overwrite 0 (E.encodeI64 (E.swapI64 size)) with hnew
  have hnewlen : new.cells.length = V.size E.layout S := by
    rw [hnew, Block.length_overwrite, Allocator.length_fresh, hto]
  have h8 : (8 : I64).toNat = 8 := rfl
  obtain ⟨buf, idx, hrun, hlen, hframe, hfields⟩ := serializeEntries_wire hrep flat hsize hfun hl
    S.fields 8 new (fun f hf => ⟨hf, hsw f hf⟩) (by rw [h8, hsum, hnewlen])
  refine ⟨buf, ?_, hlen.trans hnewlen, ?_, hfields⟩
  · rw [getSerializer, bind_of_ok (serializeWithIDX_run wf hl hrep.holds (by rwa [hser])
      (by rwa [hser]) hsz hrun)]
    rfl
  · have hfront : slice new.cells 0 8 = E.encodeI64 (E.swapI64 size) :=
      Block.slice_overwrite_self (length_encodeI64 E _)
        (by rw [Allocator.length_fresh, hto]; exact hge)
    rw [hframe 0 8 (by rw [h8]), hfront, encodeI64_swapI64, hto]

end Serialize

end Env

end Tyr
