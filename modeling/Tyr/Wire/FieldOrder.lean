import Tyr.Wire.Determined
import Tyr.Wire.Leaks

/-
  Buffers that cross field orders.

  `std::sort` leaves fields of one size in any order, and a buffer has its fields in the order
  of the struct. One schema is sorted twice. `crossesTo_of_wireOrder`: if the fields that are in
  a buffer come in one order, what the one module serializes the other deserializes.
  `wireOrder_of_crossesTo`: otherwise there is a value that does not get across. The first
  fields that differ share an offset, and a byte that is 1 tells them apart.
-/

namespace Tyr

open Prog

/-- A field apart from its place in a struct. -/
def Field.unplaced (f : Field) : Field := { f with parentType := none, offset := 0 }

/-- The fields that are in a buffer, in their order there. -/
def wireOrder (fs : List Field) : List Field := (fs.filter (! ·.isCount)).map Field.unplaced

def Struct.wireOrder (S : Struct) : List Field := Tyr.wireOrder S.fields

/-- A value that goes by the fields' ids, which sorting leaves alone. -/
def Value.byId (scalar : Nat → Nat) (array : Nat → List Nat) : Value where
  scalar f := scalar f.id
  array f := array f.id

/-- The backend knows the intrinsics for the fields that are in a buffer. -/
def DataLayout.CanSwap (DL : DataLayout) (T : Struct) : Prop :=
  ∀ f ∈ T.fields, f.isCount = false → DL.bigEndian = true →
    (if f.isRepeated then f.elem else f.type).isSwapped = true →
    (if f.isRepeated then f.elem else f.type).hasBswap = true

namespace Env

/-- What `E` serializes of a struct `S`, `E'` deserializes to a struct `S'` with the same value
    in every field. -/
def CrossesTo (E E' : Env) (S S' : Struct) : Prop :=
  ∀ (scalar : Nat → Nat) (array : Nat → List Nat) (h : Heap) (b : Nat) (blk : Block),
    h.block? b = some blk → E.HasValue S (.byId scalar array) h blk →
    (Value.byId scalar array).size E.layout S < 2 ^ 64 →
    (∀ f ∈ S.fields, f.isCount = false → E.FieldSwappable (.byId scalar array) f) →
    ∃ buf : Block, E.getSerializer S (.base b) h = .ok (.base h.next, h.push buf) ∧
      E'.Recovers S' (.byId scalar array) buf

end Env

/-! ## One order -/

section Orders

variable {size : Field → Nat} {P : Field → Nat → Prop} {fs : List Field} {f : Field} {off : Nat}

theorem wireOrder_cons_count (hc : f.isCount = true) : wireOrder (f :: fs) = wireOrder fs := by
  unfold wireOrder
  rw [List.filter_cons_of_neg (by simp [hc])]

theorem wireOrder_cons (hc : f.isCount = false) :
    wireOrder (f :: fs) = f.unplaced :: wireOrder fs := by
  unfold wireOrder
  rw [List.filter_cons_of_pos (by simp [hc]), List.map_cons]

/-- Counts and places do not matter. -/
theorem along_wireOrder (hsize : ∀ f, size f.unplaced = size f)
    (hP : ∀ f o, P f.unplaced o ↔ P f o) :
    Along size P fs off ↔ Along size P (wireOrder fs) off := by
  induction fs generalizing off with
  | nil => exact Iff.rfl
  | cons f fs ih =>
    cases hc : f.isCount with
    | true =>
      rw [wireOrder_cons_count hc, ← ih]
      simp only [Along, hc, if_true]
    | false =>
      have huc : f.unplaced.isCount = false := hc
      rw [wireOrder_cons hc]
      simp only [Along, hc, huc, Bool.false_eq_true, if_false, hP, hsize, ih]

/-- The field behind `pre`. -/
theorem Along.at {pre rest : List Field} (h : Along size P (pre ++ f :: rest) off)
    (hpre : ∀ g ∈ pre, g.isCount = false) (hc : f.isCount = false) :
    P f (off + (pre.map size).sum) := by
  induction pre generalizing off with
  | nil =>
    simp only [List.nil_append, Along, hc, Bool.false_eq_true, if_false] at h
    exact h.1
  | cons g pre ih =>
    have hg := hpre g List.mem_cons_self
    simp only [List.cons_append, Along, hg, Bool.false_eq_true, if_false] at h
    have hf := ih h.2 fun x hx => hpre x (List.mem_cons_of_mem g hx)
    rw [List.map_cons, List.sum_cons, ← Nat.add_assoc]
    exact hf

theorem isCount_of_mem_wireOrder (hf : f ∈ wireOrder fs) : f.isCount = false := by
  obtain ⟨g, hg, rfl⟩ := List.mem_map.mp hf
  have hc := (List.mem_filter.mp hg).2
  rwa [Bool.not_eq_true'] at hc

end Orders

section Finalized

variable {T : Struct} {SL DL : DataLayout} {type : Ty} {scalar : Nat → Nat}
  {array : Nat → List Nat}

/-- Nothing is added or lost. -/
theorem forall_finalizeFields (std : StdSort SL) (type : Ty) {P : Field → Prop}
    (hP : ∀ f T i, P { f with parentType := T, offset := i } ↔ P f) :
    (∀ f ∈ (T.finalizeFields std type).fields, P f) ↔ ∀ f ∈ T.fields, P f := by
  constructor
  · intro h f hf
    obtain ⟨i, hi⟩ := Struct.exists_mem_finalizeFields std type hf
    exact (hP f _ _).mp (h _ hi)
  · intro h f hf
    obtain ⟨g, hg, i, rfl, -⟩ := Struct.mem_finalizeFields.mp hf
    exact (hP g _ _).mpr (h g hg)

theorem size_finalizeFields (std : StdSort SL) (type : Ty) :
    (Value.byId scalar array).size DL (T.finalizeFields std type) =
      (Value.byId scalar array).size DL T := by
  unfold Value.size
  rw [Struct.map_finalizeFields std type _ fun _ _ _ => rfl]
  congr 1
  exact ((std.perm T.fields).map _).sum_eq

theorem wireOrder_finalizeFields (std : StdSort SL) (type : Ty) :
    (T.finalizeFields std type).wireOrder = wireOrder (std.sort T.fields) := by
  have hfilter : ∀ fs : List Field,
      wireOrder fs = (fs.map Field.unplaced).filter (! ·.isCount) := by
    intro fs
    unfold wireOrder
    rw [List.filter_map]
    rfl
  unfold Struct.wireOrder
  rw [hfilter, hfilter, Struct.map_finalizeFields std type _ fun _ _ _ => rfl]

end Finalized

namespace Env

variable {A A' : Allocator} {SL DL : DataLayout} {T : Struct} {σ τ : StdSort SL} {type type' : Ty}

/-- The wire form of a value depends on the order of the fields that are in a buffer. -/
theorem wire_finalizeFields {E E' : Env} {scalar : Nat → Nat} {array : Nat → List Nat}
    {out : List Cell} (hL : E.layout = E'.layout)
    (horder : (T.finalizeFields σ type).wireOrder = (T.finalizeFields τ type').wireOrder)
    (hcells : ∀ f o, E.FieldWire (.byId scalar array) out f o →
      E'.FieldWire (.byId scalar array) out f o)
    (hw : E.Wire (T.finalizeFields σ type) (.byId scalar array) out) :
    E'.Wire (T.finalizeFields τ type') (.byId scalar array) out := by
  have hsize : (Value.byId scalar array).size E.layout (T.finalizeFields σ type) =
      (Value.byId scalar array).size E'.layout (T.finalizeFields τ type') := by
    rw [size_finalizeFields, size_finalizeFields, hL]
  refine ⟨hsize ▸ hw.length, hsize ▸ hw.header, ?_⟩
  have hfields := (along_wireOrder (fun _ => rfl) fun _ _ => Iff.rfl).mp hw.fields
  unfold Struct.wireOrder at horder
  rw [horder, hL] at hfields
  rw [along_wireOrder (fun _ => rfl) fun _ _ => Iff.rfl]
  exact hfields.imp fun f _ _ o => hcells f o

/-- Two orders that agree on what is in a buffer. -/
theorem crossesTo_of_wireOrder (hflat : (T.finalizeFields σ type).IsFlat)
    (hflat' : (T.finalizeFields τ type').IsFlat)
    (hn : (T.finalizeFields σ type).DistinctNames)
    (hn' : (T.finalizeFields τ type').DistinctNames)
    (hstruct : DL.structSize (T.finalizeFields τ type').packed (T.finalizeFields τ type').elements <
      2 ^ 64)
    (hA : ∀ t n, A.succeeds t n = true) (hA' : ∀ t n, A'.succeeds t n = true)
    (horder : (T.finalizeFields σ type).wireOrder = (T.finalizeFields τ type').wireOrder) :
    CrossesTo (ofStruct A DL (T.finalizeFields σ type)) (ofStruct A' DL (T.finalizeFields τ type'))
      (T.finalizeFields σ type) (T.finalizeFields τ type') := by
  intro scalar array h b blk hl hrep hsize hsw
  obtain ⟨buf, hrun, hw⟩ := getSerializer_wire hrep hflat hsize (resolves_ofStruct A DL hn) hl hsw
    (hA _ _)
  have hV := hrep.bounded hflat
  unfold Value.Bounded at hV
  rw [forall_finalizeFields σ type fun _ _ _ => Iff.rfl] at hV
  rw [forall_finalizeFields σ type fun _ _ _ => Iff.rfl] at hsw
  refine ⟨buf, hrun, getDeserializer_wire hflat' (resolves_ofStruct A' DL hn') hA' hstruct ?_ ?_ ?_⟩
  · unfold Value.Bounded
    rw [forall_finalizeFields τ type' fun _ _ _ => Iff.rfl]
    exact hV
  · rw [forall_finalizeFields τ type' fun _ _ _ => Iff.rfl]
    exact hsw
  · exact wire_finalizeFields (E := ofStruct A DL (T.finalizeFields σ type)) rfl horder
      (fun f o hfo => hfo) hw

/-! ## A byte that is 1 -/

section Marked

variable {E : Env} {t : Ty} {cs : List Cell}

theorem wireCells_zero (E : Env) (t : Ty) :
    E.wireCells t 0 = List.replicate (E.layout.storeSize t) (.byte 0) := by
  have hpos : 0 < 2 ^ E.layout.getTypeSizeInBits t := Nat.two_pow_pos _
  cases ht : t.isSwapped with
  | true => rw [wireCells_swapped hpos ht, toLE_zero, List.map_replicate]
  | false =>
    rw [wireCells_unswapped hpos ht, toLE_zero]
    cases E.layout.bigEndian <;> simp [inOrder]

theorem wireInt_zero (E : Env) (t : Ty) : E.wireInt t 0 = 0 := by
  unfold wireInt
  split
  · rw [bswap, toLE_zero, List.reverse_replicate, ← toLE_zero, ofLE_toLE, Nat.zero_mod]
  · rfl

/-- A scalar type is wide enough for its highest byte. -/
theorem exists_storeSize_eq (E : Env) (ht : t.IsScalar) :
    ∃ k, E.layout.storeSize t = k + 1 ∧ 8 * k < E.layout.getTypeSizeInBits t := by
  have hpos := E.layout.storeSize_pos ht
  refine ⟨E.layout.storeSize t - 1, by omega, ?_⟩
  unfold DataLayout.storeSize at hpos ⊢
  omega

/-- A value whose first byte in a buffer is 1. -/
theorem exists_marked (E : Env) (ht : t.IsScalar) :
    ∃ x < 2 ^ E.layout.getTypeSizeInBits t, (E.wireCells t x)[0]? = some (.byte 1) := by
  obtain ⟨k, hk, hbits⟩ := exists_storeSize_eq E ht
  by_cases hhigh : E.layout.bigEndian = true ∧ t.isSwapped = false
  · have hx : 256 ^ k < 2 ^ E.layout.getTypeSizeInBits t := by
      rw [show (256 : Nat) = 2 ^ 8 from rfl, ← Nat.pow_mul]
      exact Nat.pow_lt_pow_right (by decide) hbits
    refine ⟨256 ^ k, hx, ?_⟩
    rw [wireCells_unswapped hx hhigh.2, hhigh.1, hk, toLE_pow]
    simp [inOrder]
  · have hx : 1 < 2 ^ E.layout.getTypeSizeInBits t := Nat.one_lt_two_pow (by omega)
    have hcells : E.wireCells t 1 = (toLE (E.layout.storeSize t) 1).map .byte := by
      cases ht : t.isSwapped with
      | true => exact wireCells_swapped hx ht
      | false =>
        have hBE : E.layout.bigEndian = false :=
          Bool.eq_false_iff.mpr fun hBE => hhigh ⟨hBE, ht⟩
        rw [wireCells_unswapped hx ht, hBE]
        rfl
    refine ⟨1, hx, ?_⟩
    rw [hcells, hk]
    rfl

/-- The byte is seen in either byte order. -/
theorem decodeInt_marked (ptrBytes : Nat → I64 → List Byte) (be : Bool) {k m : Nat}
    (hlen : cs.length = k + 1) (hm : 8 * k < m) (h1 : cs[0]? = some (.byte 1)) :
    decodeInt ptrBytes be cs % 2 ^ m ≠ 0 := by
  obtain ⟨c, rest, rfl⟩ : ∃ c rest, cs = c :: rest := List.exists_cons_of_length_eq_add_one hlen
  obtain rfl : c = .byte 1 := Option.some.inj h1
  set bs := rest.map (Cell.toByte ptrBytes) with hbs
  have hbslen : bs.length = k := by simpa [hbs] using hlen
  have hone : (Cell.byte 1).toByte ptrBytes = 1 := rfl
  unfold decodeInt
  rw [List.map_cons, hone, ← hbs]
  cases be with
  | false =>
    intro h0
    have htwo : 2 ∣ ofLE (1 :: bs) :=
      (dvd_pow_self 2 (by omega : m ≠ 0)).trans (Nat.dvd_of_mod_eq_zero h0)
    have hodd : ofLE (1 :: bs) = 1 + 256 * ofLE bs := rfl
    omega
  | true =>
    have hlt := ofLE_lt bs.reverse
    rw [List.length_reverse, hbslen] at hlt
    have hsum : ofLE (inOrder true (1 :: bs)) = ofLE bs.reverse + 256 ^ k := by
      rw [inOrder, if_pos rfl, List.reverse_cons, ofLE_append, List.length_reverse, hbslen]
      simp [ofLE]
    have hpow : 2 * 256 ^ k ≤ 2 ^ m := by
      rw [show (256 : Nat) = 2 ^ 8 from rfl, ← Nat.pow_mul, ← Nat.pow_succ']
      exact Nat.pow_le_pow_right (by decide) hm
    rw [hsum, Nat.mod_eq_of_lt (by omega)]
    have hpos : 0 < 256 ^ k := Nat.pow_pos (by decide)
    omega

/-- As a scalar it is not 0. -/
theorem decode_marked (ht : t.IsScalar) (hlen : cs.length = E.layout.storeSize t)
    (h1 : cs[0]? = some (.byte 1)) : E.wireInt t (E.decode t cs).asInt ≠ 0 := by
  obtain ⟨k, hk, hbits⟩ := exists_storeSize_eq E ht
  have hp := ht.not_pointer
  have hne := decodeInt_marked E.ptrBytes E.layout.bigEndian (hlen.trans hk) hbits h1
  have hd : (E.decode t cs).asInt =
      decodeInt E.ptrBytes E.layout.bigEndian cs % 2 ^ E.layout.getTypeSizeInBits t := by
    simp only [decode, hp, Bool.false_eq_true, if_false, Val.asInt]
  rw [hd]
  intro h0
  have hback := wireInt_wireInt (E := E) (t := t)
    (Nat.mod_lt (decodeInt E.ptrBytes E.layout.bigEndian cs) (Nat.two_pow_pos _))
  rw [h0, wireInt_zero] at hback
  exact hne hback.symm

/-- As a count it is 1 modulo 256. -/
theorem count_marked (hlen : cs.length = 8) (h1 : cs[0]? = some (.byte 1)) :
    (E.swapI64 (E.decodeI64 cs)).toNat % 256 = 1 := by
  set bs := cs.map (Cell.toByte E.ptrBytes) with hbs
  have hbslen : bs.length = 8 := by simpa [hbs] using hlen
  have hlt : ofLE bs < 2 ^ 64 := by
    have h := ofLE_lt bs
    rwa [hbslen] at h
  have hval : (E.swapI64 (E.decodeI64 cs)).toNat = ofLE bs := by
    unfold swapI64 decodeI64 decodeInt
    rw [← hbs]
    cases hBE : E.layout.bigEndian with
    | false =>
      rw [if_neg Bool.false_ne_true, BitVec.toNat_ofNat]
      exact Nat.mod_eq_of_lt hlt
    | true =>
      have hrev := ofLE_lt bs.reverse
      have hback := toLE_ofLE bs.reverse
      rw [List.length_reverse, hbslen] at hrev hback
      have hmod : ofLE bs.reverse % 2 ^ 64 = ofLE bs.reverse := Nat.mod_eq_of_lt hrev
      rw [if_pos rfl, inOrder, if_pos rfl, BitVec.toNat_ofNat, BitVec.toNat_ofNat, hmod, bswap,
        hback, List.reverse_reverse]
      exact Nat.mod_eq_of_lt hlt
  obtain ⟨c, rest, rfl⟩ : ∃ c rest, cs = c :: rest := List.exists_cons_of_length_eq_add_one hlen
  obtain rfl : c = .byte 1 := Option.some.inj h1
  have hone : ofLE bs = 1 + 256 * ofLE (rest.map (Cell.toByte E.ptrBytes)) := rfl
  rw [hval, hone]
  omega

end Marked

/-! ## A struct that has a value -/

section Image

variable (E : Env) (S : Struct) (V : Value)

/-- The bytes of a field whose elements are 0. -/
def fieldImage (f : Field) : List Cell :=
  if f.isCount then []
  else if f.isRepeated then
    (toLE 8 (V.array f).length).map .byte ++ List.replicate (V.fieldSize E.layout f) (.byte 0)
  else
    E.wireCells f.type (V.scalar f) ++
      List.replicate (E.layout.allocSize f.type - E.layout.storeSize f.type) (.byte 0)

def image : List Cell :=
  (toLE 8 (V.size E.layout S)).map .byte ++ S.fields.flatMap (E.fieldImage V)

variable {E S V} {f : Field}

theorem length_fieldImage : (E.fieldImage V f).length = V.wireSize E.layout f := by
  unfold fieldImage Value.wireSize Field.onWire
  cases hc : f.isCount with
  | true => rfl
  | false =>
    cases hr : f.isRepeated with
    | true => simp
    | false =>
      have hle := E.layout.storeSize_le_allocSize f.type
      simp only [Bool.false_eq_true, if_false, List.length_append, length_wireCells,
        List.length_replicate, Value.fieldSize_scalar hr]
      omega

theorem slice_append_inside {α : Type} {v w : List α} {o n : Nat} (h : o + n ≤ v.length) :
    slice (v ++ w) o n = slice v o n := by
  apply List.ext_getElem?
  intro i
  simp only [getElem?_slice, List.getElem?_append]
  grind

theorem fieldWire_fieldImage (hc : f.isCount = false) (hzero : ∀ v ∈ V.array f, v = 0)
    (pre rest : List Cell) :
    E.FieldWire V (pre ++ (E.fieldImage V f ++ rest)) f pre.length := by
  unfold FieldWire fieldImage
  cases hr : f.isRepeated with
  | true =>
    simp only [hc, Bool.false_eq_true, if_false, if_true]
    have h8 : ((toLE 8 (V.array f).length).map Cell.byte).length = 8 := by simp
    constructor
    · have hat := slice_append_add (u := pre) (v := (toLE 8 (V.array f).length).map Cell.byte ++
        List.replicate (V.fieldSize E.layout f) (.byte 0) ++ rest) rfl 0 8
      rw [Nat.add_zero] at hat
      rw [hat, List.append_assoc, slice_append_left h8]
    · intro k v hk
      obtain rfl := hzero v (List.mem_of_getElem? hk)
      have hle := element_le (E := E) hr hc hk 0
      rw [Value.wireSize_array hr hc] at hle
      rw [Nat.add_assoc, slice_append_add rfl, List.append_assoc, slice_append_add h8,
        slice_append_inside (by rw [List.length_replicate]; omega),
        slice_replicate _ (by omega), wireCells_zero]
  | false =>
    simp only [hc, Bool.false_eq_true, if_false]
    have hat := slice_append_add (u := pre) (v := E.wireCells f.type (V.scalar f) ++
      List.replicate (E.layout.allocSize f.type - E.layout.storeSize f.type) (.byte 0) ++ rest)
      rfl 0 (E.layout.storeSize f.type)
    rw [Nat.add_zero] at hat
    rw [hat, List.append_assoc, slice_append_left length_wireCells]

theorem along_image (fs : List Field) (pre : List Cell)
    (hzero : ∀ f ∈ fs, ∀ v ∈ V.array f, v = 0) :
    Along (V.wireSize E.layout) (E.FieldWire V (pre ++ fs.flatMap (E.fieldImage V))) fs
      pre.length := by
  induction fs generalizing pre with
  | nil => trivial
  | cons f fs ih =>
    have hfs : ∀ g ∈ fs, ∀ v ∈ V.array g, v = 0 := fun g hg => hzero g (List.mem_cons_of_mem f hg)
    unfold Along
    rw [List.flatMap_cons]
    cases hc : f.isCount with
    | true =>
      have hnil : E.fieldImage V f = [] := if_pos hc
      rw [hnil, List.nil_append]
      exact ih pre hfs
    | false =>
      have hrest := ih (pre ++ E.fieldImage V f) hfs
      rw [List.length_append, length_fieldImage, List.append_assoc] at hrest
      exact ⟨fieldWire_fieldImage hc (hzero f List.mem_cons_self) pre _, hrest⟩

theorem wire_image (wf : S.WellFormed) (hzero : ∀ f ∈ S.fields, ∀ v ∈ V.array f, v = 0) :
    E.Wire S V (E.image S V) where
  length := by
    have hsum := sum_fieldWire (E := E) (V := V) wf
    have himage : (S.fields.flatMap (E.fieldImage V)).length =
        (S.fields.map (V.wireSize E.layout)).sum := by
      rw [List.length_flatMap]
      congr 1
      exact List.map_congr_left fun f _ => length_fieldImage
    rw [image, List.length_append, List.length_map, length_toLE, himage, hsum]
  header := slice_append_left (by simp)
  fields := by
    have h := along_image (E := E) S.fields ((toLE 8 (V.size E.layout S)).map .byte) hzero
    rw [List.length_map, length_toLE] at h
    exact h

/-- Every such value is that of some struct: the one that comes out of its image. -/
theorem exists_hasValue (flat : S.IsFlat) (hfun : Resolves E S)
    (hA : ∀ t n, E.alloc.succeeds t n = true)
    (hstruct : E.layout.structSize S.packed S.elements < 2 ^ 64) (hV : V.Bounded E.layout S)
    (hsw : ∀ f ∈ S.fields, f.isCount = false → E.FieldSwappable V f)
    (hsize : V.size E.layout S < 2 ^ 64) (hzero : ∀ f ∈ S.fields, ∀ v ∈ V.array f, v = 0) :
    ∃ h b blk, h.block? b = some blk ∧ E.HasValue S V h blk := by
  have hw := wire_image (E := E) flat.toWellFormed hzero
  have hlen := hw.length
  set buf : Block := ⟨E.image S V, by rw [hlen]; exact hsize⟩ with hbuf
  have hl : (Heap.mk [some buf] 0).block? 0 = some buf := rfl
  have hrec : E.Recovers S V buf := getDeserializer_wire flat hfun hA hstruct hV hsw hw
  obtain ⟨r, h', obj, -, hobj, hrep⟩ := hrec _ 0 hl
  exact ⟨h', r, obj, hobj, hrep⟩

end Image

/-! ## What the deserializers read -/

section Read

variable (E : Env) (S : Struct) (V : Value)

/-- At `off` a deserializer finds the value of field `f`, or the number of its elements. -/
def FieldRead (buf : List Cell) (f : Field) (off : Nat) : Prop :=
  if f.isRepeated then off + 8 ≤ buf.length ∧
    (E.swapI64 (E.decodeI64 (slice buf off 8))).toNat = (V.array f).length
  else off + E.layout.storeSize f.type ≤ buf.length ∧
    E.wireInt f.type (E.decode f.type (slice buf off (E.layout.storeSize f.type))).asInt =
      V.scalar f

/-- The struct object has it. -/
def FieldHas (obj : Block) (f : Field) : Prop :=
  if f.isRepeated then (E.countAt S obj (S.countOf f)).toNat = (V.array f).length
  else E.intAt S obj f = V.scalar f

variable {E S V} {h h' : Heap} {a s : Nat} {buf obj : Block} {f : Field} {off n : I64}

theorem HasValue.fieldHas (hrep : E.HasValue S V h obj) (hf : f ∈ S.fields)
    (hc : f.isCount = false) : E.FieldHas S V obj f := by
  unfold FieldHas
  cases hr : f.isRepeated with
  | true => exact hrep.count f hf hr
  | false => exact hrep.scalar f hf hr hc

theorem fieldDeserializer_read_scalar (flat : S.IsFlat) (ha : h.block? a = some buf)
    (has : a ≠ s) (hl : h.block? s = some obj) (hb : E.Holds S obj) (hf : f ∈ S.fields)
    (hc : f.isCount = false) (hr : f.isRepeated = false)
    (hok : E.fieldDeserializer S f (.base s) (.loc a off) h = .ok (n, h')) :
    ∃ obj', E.Advances S s [f] h h' obj obj' ∧ (E.FieldHas S V obj' f →
      E.FieldRead V buf.cells f off.toNat ∧ n = BitVec.ofNat 64 (V.wireSize E.layout f)) := by
  have wf := flat.toWellFormed
  have hs := flat.isStruct f hf
  have ht := not_pointer wf hf hs hr
  have hpass := passes_of_fieldDeserializer flat ha has hl hb hf hok
  unfold Passes at hpass
  rw [if_neg (by simp [hr])] at hpass
  obtain ⟨hin, hsw⟩ := hpass
  set raw := slice buf.cells off.toNat (E.layout.storeSize f.type) with hraw
  have hdecode : E.decode f.type raw = .int (E.decode f.type raw).asInt := by
    simp only [decode, ht, Bool.false_eq_true, if_false, Val.asInt]
  have hlt : (E.decode f.type raw).asInt < 2 ^ E.layout.getTypeSizeInBits f.type := by
    simp only [decode, ht, Bool.false_eq_true, if_false, Val.asInt]
    exact Nat.mod_lt _ (Nat.two_pow_pos _)
  set w := E.wireInt f.type (E.decode f.type raw).asInt with hw
  have hlen := length_encode_int E f.type w
  have hrun := fieldDeserializer_scalar_run wf ha hl hb hf hr hs hin
    (by rw [← hraw, hdecode]; exact swapBytes_ok (flat.scalar f hf hr) hsw)
  rw [hok] at hrun
  obtain ⟨rfl, rfl⟩ := Prod.mk.inj (Except.ok.inj hrun)
  refine ⟨_, ⟨Heap.block?_update_self hl _, Block.length_overwrite _ _ _,
    fun b _ hne => Heap.block?_update_ne h hne _, by rw [Heap.next_update], ?_⟩, fun hhas => ?_⟩
  · intro g hg hun
    exact slot_put_ne wf hb hf hg (hun f List.mem_cons_self hc).1 hlen
  · unfold FieldHas at hhas
    rw [if_neg (by simp [hr]), intAt, slot_put_self wf hb hf hlen, decode_encode_int E ht,
      Nat.mod_eq_of_lt (wireInt_lt hlt)] at hhas
    unfold FieldRead
    rw [if_neg (by simp [hr]), Value.wireSize_scalar hr hc]
    exact ⟨⟨hin, hhas⟩, rfl⟩

theorem fieldDeserializer_read_array (flat : S.IsFlat) (hA : ∀ t n, E.alloc.succeeds t n = true)
    (ha : h.block? a = some buf) (has : a ≠ s) (hl : h.block? s = some obj) (hb : E.Holds S obj)
    (hf : f ∈ S.fields) (hc : f.isCount = false) (hr : f.isRepeated = true)
    (hok : E.fieldDeserializer S f (.base s) (.loc a off) h = .ok (n, h')) :
    ∃ obj', E.Advances S s [f] h h' obj obj' ∧ (E.FieldHas S V obj' f →
      E.FieldRead V buf.cells f off.toNat ∧ n = BitVec.ofNat 64 (V.wireSize E.layout f)) := by
  have hpass := passes_of_fieldDeserializer flat ha has hl hb hf hok
  have h8 : off.toNat + 8 ≤ buf.cells.length := by
    unfold Passes at hpass
    rw [if_pos hr] at hpass
    exact hpass.1
  obtain ⟨g, obj', hrun, hadv, -, hcount⟩ :=
    fieldDeserializer_passes_array flat ha has hl hb hf hc hr hpass
  rw [hok] at hrun
  obtain ⟨rfl, rfl⟩ := Prod.mk.inj (Except.ok.inj hrun)
  refine ⟨obj', hadv, fun hhas => ?_⟩
  unfold FieldHas at hhas
  rw [if_pos hr, hcount] at hhas
  unfold FieldRead
  rw [if_pos hr]
  refine ⟨⟨h8, hhas⟩, ?_⟩
  have hn : E.countFound buf.cells off = BitVec.ofNat 64 (V.array f).length := by
    rw [← hhas, BitVec.ofNat_toNat, BitVec.setWidth_eq]
  unfold advanceFound sizeFound
  rw [if_pos hr, hA, if_pos rfl, hn, sizeFor, ← BitVec.ofNat_mul, Value.wireSize_array hr hc,
    Value.fieldSize_array hr, BitVec.ofNat_add]
  rfl

/-- A deserializer that got the value of the field right read it where it was called, and went
    on by the field's size. -/
theorem fieldDeserializer_read (flat : S.IsFlat) (hA : ∀ t n, E.alloc.succeeds t n = true)
    (ha : h.block? a = some buf) (has : a ≠ s) (hl : h.block? s = some obj) (hb : E.Holds S obj)
    (hf : f ∈ S.fields) (hc : f.isCount = false)
    (hok : E.fieldDeserializer S f (.base s) (.loc a off) h = .ok (n, h')) :
    ∃ obj', E.Advances S s [f] h h' obj obj' ∧ (E.FieldHas S V obj' f →
      E.FieldRead V buf.cells f off.toNat ∧ n = BitVec.ofNat 64 (V.wireSize E.layout f)) := by
  cases hr : f.isRepeated with
  | true => exact fieldDeserializer_read_array flat hA ha has hl hb hf hc hr hok
  | false => exact fieldDeserializer_read_scalar flat ha has hl hb hf hc hr hok

/-- What a field has survives the deserializers of others. -/
theorem FieldHas.of_advances {fs : List Field} {obj' : Block} (wf : S.WellFormed)
    (hadv : E.Advances S s fs h h' obj obj') (hm : ∀ g ∈ fs, g ∈ S.fields) (hf : f ∈ S.fields)
    (hc : f.isCount = false) (hnew : f ∉ fs) (hhas : E.FieldHas S V obj' f) :
    E.FieldHas S V obj f := by
  have hne : ∀ g ∈ fs, f ≠ g := fun g hg he => hnew (he ▸ hg)
  unfold FieldHas at hhas ⊢
  cases hr : f.isRepeated with
  | true =>
    have hcount := hadv.frame _ (wf.countOf_mem hf hr)
      fun g hg => untouched_count wf hf (hm g hg) hr (hne g hg)
    rw [hr, if_pos rfl, countAt, hcount] at hhas
    exact hhas
  | false =>
    have hself := hadv.frame f hf fun g hg => untouched_field wf (hm g hg) hc (hne g hg)
    rw [hr, if_neg Bool.false_ne_true, intAt, hself] at hhas
    exact hhas

/-- The calls for `fs`, if the struct has the right values in the end. -/
theorem deserializeEntries_read (flat : S.IsFlat) (hfun : Resolves E S)
    (hA : ∀ t n, E.alloc.succeeds t n = true) (has : a ≠ s) :
    ∀ (fs : List Field) (off : I64) (h : Heap) (obj : Block) (res : I64 × Heap),
      (∀ f ∈ fs, f ∈ S.fields) → fs.Nodup → h.block? a = some buf → h.block? s = some obj →
      E.Holds S obj → E.deserializeEntries S (.base a) (.base s) fs off h = .ok res →
      ∃ obj', E.Advances S s fs h res.2 obj obj' ∧
        (off.toNat + (fs.map (V.wireSize E.layout)).sum < 2 ^ 64 →
          (∀ f ∈ fs, f.isCount = false → E.FieldHas S V obj' f) →
          Along (V.wireSize E.layout) (E.FieldRead V buf.cells) fs off.toNat) := by
  have wf := flat.toWellFormed
  intro fs
  induction fs with
  | nil =>
    intro off h obj res _ _ _ hl _ hok
    obtain rfl := Except.ok.inj hok
    exact ⟨obj, ⟨hl, rfl, fun _ _ _ => rfl, le_rfl, fun _ _ _ => rfl⟩, fun _ _ => trivial⟩
  | cons f fs ih =>
    intro off h obj res hm hnd ha hl hb hok
    have hf := hm f List.mem_cons_self
    have hm' : ∀ g ∈ fs, g ∈ S.fields := fun g hg => hm g (List.mem_cons_of_mem f hg)
    obtain ⟨hnew, hnd'⟩ := List.nodup_cons.mp hnd
    rw [List.map_cons, List.sum_cons]
    unfold deserializeEntries at hok
    unfold Along
    cases hc : f.isCount with
    | true =>
      simp only [hc, if_true] at hok ⊢
      obtain ⟨obj', hadv, hread⟩ := ih off h obj res hm' hnd' ha hl hb hok
      refine ⟨obj', ⟨hadv.block, hadv.length, hadv.other, hadv.next_le, ?_⟩, ?_⟩
      · intro g hg hun
        exact hadv.frame g hg fun x hx => hun x (List.mem_cons_of_mem f hx)
      · intro hfit hhas
        exact hread (by omega) fun g hg => hhas g (List.mem_cons_of_mem f hg)
    | false =>
      simp only [hc, Bool.false_eq_true, if_false, hfun.deserializer hf hc] at hok ⊢
      rw [Ptr.add_loc, show (0 : I64) + off = off from BitVec.zero_add off] at hok
      obtain ⟨n, h₁, hrun₁, hrun⟩ := bind_eq_ok hok
      obtain ⟨obj₁, hadv₁, hread₁⟩ :=
        fieldDeserializer_read (V := V) flat hA ha has hl hb hf hc hrun₁
      have ha₁ : h₁.block? a = some buf := by rw [hadv₁.other a (Heap.lt_next ha) has, ha]
      have hb₁ : E.Holds S obj₁ := by
        rw [Holds, hadv₁.length]
        exact hb
      obtain ⟨obj', hadv, hread⟩ := ih (off + n) h₁ obj₁ res hm' hnd' ha₁ hadv₁.block hb₁ hrun
      refine ⟨obj', hadv₁.cons hadv, fun hfit hhas => ?_⟩
      obtain ⟨hhead, rfl⟩ := hread₁
        ((hhas f List.mem_cons_self hc).of_advances wf hadv hm' hf hc hnew)
      have hoff := toNat_add_fieldWire E V f off (by omega)
      rw [hoff] at hread
      exact ⟨hhead, hread (by omega) fun g hg => hhas g (List.mem_cons_of_mem f hg)⟩

/-- A buffer from which the value is recovered. -/
theorem Recovers.read (flat : S.IsFlat) (hfun : Resolves E S)
    (hA : ∀ t n, E.alloc.succeeds t n = true)
    (hstruct : E.layout.structSize S.packed S.elements < 2 ^ 64)
    (hsize : V.size E.layout S < 2 ^ 64) (hrec : E.Recovers S V buf) :
    Along (V.wireSize E.layout) (E.FieldRead V buf.cells) S.fields 8 := by
  have wf := flat.toWellFormed
  set h : Heap := Heap.mk [some buf] 0 with hh
  have ha : h.block? 0 = some buf := rfl
  have has : 0 ≠ h.next := Nat.ne_of_lt (Heap.lt_next ha)
  obtain ⟨r, h', obj, hrun, hobj, hrep⟩ := hrec h 0 ha
  have h8 : 8 ≤ buf.cells.length := by
    by_contra hno
    have hfault : E.loadI64 (.base 0) h = .error .access :=
      loadI64_fault ha (by rw [show (0 : I64).toNat = 0 from rfl]; omega)
    rw [getDeserializer, bind_of_error hfault] at hrun
    cases hrun
  have hok := hrun
  rw [getDeserializer, bind_of_ok (loadI64_ok ha (by simpa using h8)), insertNullCheck_loc,
    bind_of_ok (malloc_ok (hA _ _)), insertNullCheck_loc] at hok
  obtain ⟨idx, h₁, hentries, -⟩ := bind_eq_ok hok
  obtain ⟨obj₁, hadv, hread⟩ := deserializeEntries_read (V := V) flat hfun hA has S.fields 8 _ _ _
    (fun _ hf => hf) wf.fields_nodup (Heap.block?_push_of_some ha _) (Heap.block?_push_self h _)
    (holds_fresh hstruct _) hentries
  have hb₁ : E.Holds S obj₁ := by
    rw [Holds, hadv.length]
    exact holds_fresh hstruct _
  rw [getDeserializer_run wf ha h8 (hA _ _) hentries hadv.block hb₁] at hrun
  obtain ⟨hptr, rfl⟩ := Prod.mk.inj (Except.ok.inj hrun)
  have hr : r = h.next := by
    split at hptr
    · exact ((Ptr.loc.inj hptr).1).symm
    · cases hptr
  rw [hr, hadv.block] at hobj
  obtain rfl := Option.some.inj hobj
  have hsum := sum_fieldWire (E := E) (V := V) wf
  exact hread (by rw [show (8 : I64).toNat = 8 from rfl, hsum]; exact hsize)
    fun f hf hc => hrep.fieldHas hf hc

end Read

/-! ## Two orders -/

section Clash

variable {E : Env} {V : Value} {f g : Field} {buf : List Cell} {off : Nat}

/-- A field whose part of the buffer starts with a byte that is 1. -/
theorem FieldWire.marked (hw : E.FieldWire V buf f off)
    (hmark : if f.isRepeated then (V.array f).length = 1 else
      (E.wireCells f.type (V.scalar f))[0]? = some (.byte 1)) :
    buf[off]? = some (.byte 1) := by
  unfold FieldWire at hw
  have hfirst : ∀ n, 0 < n → (slice buf off n)[0]? = buf[off]? := by
    intro n hn
    rw [getElem?_slice, if_pos hn, Nat.add_zero]
  split at hw
  · next hr =>
    rw [if_pos hr] at hmark
    rw [← hfirst 8 (by decide), hw.1, hmark]
    rfl
  · next hr =>
    rw [if_neg hr] at hmark
    have hpos : 0 < E.layout.storeSize f.type := by
      rw [← length_wireCells (E := E) (v := V.scalar f)]
      exact (List.getElem?_eq_some_iff.mp hmark).1
    rw [← hfirst _ hpos, hw, hmark]

/-- Another field does not find its value there. -/
theorem FieldRead.not_marked (hr : g.isRepeated = false → g.type.IsScalar)
    (hread : E.FieldRead V buf g off)
    (hvalue : if g.isRepeated then (V.array g).length = 2 else V.scalar g = 0) :
    buf[off]? ≠ some (.byte 1) := by
  intro hmark
  have hfirst : ∀ n, 0 < n → (slice buf off n)[0]? = some (.byte 1) := by
    intro n hn
    rw [getElem?_slice, if_pos hn, Nat.add_zero, hmark]
  unfold FieldRead at hread
  cases hg : g.isRepeated with
  | true =>
    rw [if_pos hg] at hread hvalue
    have hone := count_marked (E := E) (length_slice hread.1) (hfirst 8 (by decide))
    rw [hread.2, hvalue] at hone
    cases hone
  | false =>
    rw [if_neg (by simp [hg])] at hread hvalue
    have ht := hr hg
    exact decode_marked ht (length_slice hread.1) (hfirst _ (E.layout.storeSize_pos ht))
      (hread.2.trans hvalue)

end Clash

/-- Two lists part at some place. -/
theorem exists_split_of_ne {α : Type} {l l' : List α} (hlen : l.length = l'.length)
    (hne : l ≠ l') :
    ∃ pre a b r r', l = pre ++ a :: r ∧ l' = pre ++ b :: r' ∧ a ≠ b := by
  induction l generalizing l' with
  | nil => exact absurd (List.eq_nil_of_length_eq_zero hlen.symm).symm hne
  | cons x l ih =>
    obtain ⟨y, l', rfl⟩ : ∃ y ys, l' = y :: ys :=
      List.exists_cons_of_length_eq_add_one (hlen.symm.trans List.length_cons)
    by_cases hxy : x = y
    · subst hxy
      obtain ⟨pre, a, b, r, r', hl, hl', hab⟩ :=
        ih (Nat.succ.inj hlen) fun he => hne (by rw [he])
      exact ⟨x :: pre, a, b, r, r', by rw [hl]; rfl, by rw [hl']; rfl, hab⟩
    · exact ⟨[], x, y, l, l', rfl, rfl, hxy⟩

section Necessary

variable {A A' : Allocator} {SL DL : DataLayout} {T : Struct} {σ τ : StdSort SL} {type type' : Ty}

theorem wireOrder_perm (T : Struct) (σ τ : StdSort SL) (type type' : Ty) :
    (T.finalizeFields σ type).wireOrder.Perm (T.finalizeFields τ type').wireOrder := by
  rw [wireOrder_finalizeFields, wireOrder_finalizeFields]
  exact (((σ.perm _).trans (τ.perm _).symm).filter _).map _

/-- What is in the buffer of a value that crosses, by the order of either struct. -/
theorem CrossesTo.along {E E' : Env} {S S' : Struct} {scalar : Nat → Nat} {array : Nat → List Nat}
    {h : Heap} {b : Nat} {blk : Block} (hcross : CrossesTo E E' S S') (hflat : S.IsFlat)
    (hflat' : S'.IsFlat) (hfun : Resolves E S) (hfun' : Resolves E' S')
    (hA : ∀ t n, E.alloc.succeeds t n = true) (hA' : ∀ t n, E'.alloc.succeeds t n = true)
    (hstruct' : E'.layout.structSize S'.packed S'.elements < 2 ^ 64) (hl : h.block? b = some blk)
    (hrep : E.HasValue S (.byId scalar array) h blk)
    (hsize : (Value.byId scalar array).size E.layout S < 2 ^ 64)
    (hsize' : (Value.byId scalar array).size E'.layout S' < 2 ^ 64)
    (hswap : ∀ f ∈ S.fields, f.isCount = false → E.FieldSwappable (.byId scalar array) f) :
    ∃ buf : List Cell,
      Along ((Value.byId scalar array).wireSize E.layout)
        (E.FieldWire (.byId scalar array) buf) S.wireOrder 8 ∧
      Along ((Value.byId scalar array).wireSize E'.layout)
        (E'.FieldRead (.byId scalar array) buf) S'.wireOrder 8 := by
  obtain ⟨buf, hrun, hrec⟩ := hcross scalar array h b blk hl hrep hsize hswap
  obtain ⟨buf', hrun', hw⟩ := getSerializer_wire hrep hflat hsize hfun hl hswap (hA _ _)
  rw [hrun] at hrun'
  obtain rfl := Heap.push_inj (Prod.mk.inj (Except.ok.inj hrun')).2
  have hread := hrec.read hflat' hfun' hA' hstruct' hsize'
  exact ⟨buf.cells, (along_wireOrder (fun _ => rfl) fun _ _ => Iff.rfl).mp hw.fields,
    (along_wireOrder (fun _ => rfl) fun _ _ => Iff.rfl).mp hread⟩

/-- A value that makes the parts of `f` and `g` in a buffer start differently. -/
def tellApart (f g : Field) (x : Nat) : Value :=
  .byId (fun i => if i = f.id then x else 0) fun i => if i = g.id then [0, 0] else [0]

variable {f g : Field} {x : Nat}

theorem length_tellApart (y : Field) :
    ((tellApart f g x).array y).length = if y.id = g.id then 2 else 1 := by
  show (if y.id = g.id then [0, 0] else [0] : List Nat).length = _
  split <;> rfl

theorem scalar_tellApart (y : Field) :
    (tellApart f g x).scalar y = if y.id = f.id then x else 0 := rfl

theorem size_tellApart_le :
    (tellApart f g x).size DL T ≤ (Value.byId (fun _ => 0) fun _ => [0, 0]).size DL T := by
  unfold Value.size
  refine Nat.add_le_add_left (List.sum_le_sum fun y _ => ?_) 8
  unfold Value.fieldSize
  split
  · refine Nat.mul_le_mul_left _ ?_
    rw [length_tellApart]
    show _ ≤ 2
    split <;> decide
  · exact le_rfl

theorem size_tellApart (hfit : (Value.byId (fun _ => 0) fun _ => [0, 0]).size DL T < 2 ^ 64) :
    (tellApart f g x).size DL T < 2 ^ 64 := Nat.lt_of_le_of_lt size_tellApart_le hfit

theorem tellApart_zero (y : Field) : ∀ v ∈ (tellApart f g x).array y, v = 0 := by
  intro v hv
  have hv' : v ∈ (if y.id = g.id then [0, 0] else [0] : List Nat) := hv
  split at hv' <;> simpa using hv'

theorem fieldSwappable_tellApart {E : Env} (hL : E.layout = DL) (hsw : DL.CanSwap T) :
    ∀ y ∈ T.fields, y.isCount = false → E.FieldSwappable (tellApart f g x) y := by
  intro y hy hc
  have hy' := hsw y hy hc
  unfold FieldSwappable ArraySwappable Swappable
  rw [hL]
  cases hr : y.isRepeated with
  | true =>
    rw [hr, if_pos rfl] at hy'
    rw [if_pos rfl]
    refine ⟨hy', fun _ _ => ?_⟩
    rw [length_tellApart]
    split <;> decide
  | false =>
    rw [hr, if_neg Bool.false_ne_true] at hy'
    rw [if_neg Bool.false_ne_true]
    exact hy'

theorem bounded_tellApart {S : Struct} (wf : S.WellFormed) (hf : f ∈ S.fields)
    (hx : f.isRepeated = false → x < 2 ^ DL.getTypeSizeInBits f.type) :
    (tellApart f.unplaced g x).Bounded DL S := by
  intro y hy
  refine ⟨fun hr _ => ?_, fun _ v hv => ?_⟩
  · rw [scalar_tellApart]
    split
    · next he =>
      obtain rfl := wf.eq_of_id hy hf he
      exact hx hr
    · exact Nat.two_pow_pos _
  · rw [tellApart_zero y v hv]
    exact Nat.two_pow_pos _

/-- A value of `f` whose part of the buffer starts with a byte that is 1, if it has a value. -/
theorem exists_marked_field (E : Env) (hscalar : f.isRepeated = false → f.type.IsScalar) :
    ∃ x, f.isRepeated = false → x < 2 ^ E.layout.getTypeSizeInBits f.type ∧
      (E.wireCells f.type x)[0]? = some (.byte 1) := by
  cases hr : f.isRepeated with
  | true => exact ⟨0, fun h => Bool.noConfusion h⟩
  | false =>
    obtain ⟨x, hx, hmark⟩ := exists_marked E (hscalar hr)
    exact ⟨x, fun _ => ⟨hx, hmark⟩⟩

/-- The parts of the two fields start differently. -/
theorem not_read_of_tellApart {E E' : Env} {buf : List Cell} {off : Nat} (hid : f.id ≠ g.id)
    (hg : g.isRepeated = false → g.type.IsScalar)
    (hmark : f.isRepeated = false → (E.wireCells f.type x)[0]? = some (.byte 1))
    (hw : E.FieldWire (tellApart f g x) buf f off) :
    ¬ E'.FieldRead (tellApart f g x) buf g off := by
  intro hread
  refine hread.not_marked hg ?_ (hw.marked ?_)
  · rw [length_tellApart, scalar_tellApart, if_pos rfl, if_neg (Ne.symm hid)]
    split <;> rfl
  · rw [length_tellApart, scalar_tellApart, if_neg hid, if_pos rfl]
    split
    · rfl
    · next hr => exact hmark (Bool.eq_false_iff.mpr hr)

/-- Orders that agree on every value agree on what is in a buffer. -/
theorem wireOrder_of_crossesTo (hflat : (T.finalizeFields σ type).IsFlat)
    (hflat' : (T.finalizeFields τ type').IsFlat)
    (hn : (T.finalizeFields σ type).DistinctNames)
    (hn' : (T.finalizeFields τ type').DistinctNames)
    (hstruct : DL.structSize (T.finalizeFields σ type).packed (T.finalizeFields σ type).elements <
      2 ^ 64)
    (hstruct' : DL.structSize (T.finalizeFields τ type').packed
      (T.finalizeFields τ type').elements < 2 ^ 64)
    (hA : ∀ t n, A.succeeds t n = true) (hA' : ∀ t n, A'.succeeds t n = true)
    (hfit : (Value.byId (fun _ => 0) fun _ => [0, 0]).size DL T < 2 ^ 64) (hsw : DL.CanSwap T)
    (hcross : CrossesTo (ofStruct A DL (T.finalizeFields σ type))
      (ofStruct A' DL (T.finalizeFields τ type')) (T.finalizeFields σ type)
      (T.finalizeFields τ type')) :
    (T.finalizeFields σ type).wireOrder = (T.finalizeFields τ type').wireOrder := by
  by_contra hne
  set S := T.finalizeFields σ type with hS
  set S' := T.finalizeFields τ type' with hS'
  set E := ofStruct A DL S with hE
  have hperm := wireOrder_perm T σ τ type type'
  rw [← hS, ← hS'] at hperm
  obtain ⟨pre, f₀, g, r, r', hσ, hτ, hfg⟩ := exists_split_of_ne hperm.length_eq hne
  have hf₀ : f₀ ∈ S.wireOrder := by simp [hσ]
  have hg₀ : g ∈ S.wireOrder := hperm.mem_iff.mpr (by simp [hτ])
  obtain ⟨f, hf, rfl⟩ := List.mem_map.mp hf₀
  obtain ⟨y, hy, rfl⟩ := List.mem_map.mp hg₀
  have hfS := (List.mem_filter.mp hf).1
  have hyS := (List.mem_filter.mp hy).1
  have hid : f.id ≠ y.id := by
    intro he
    exact hfg (by rw [hflat.toWellFormed.eq_of_id hfS hyS he])
  obtain ⟨x, hx⟩ := exists_marked_field E fun hr => hflat.scalar f hfS hr
  have hsize : (tellApart f.unplaced y.unplaced x).size DL S < 2 ^ 64 := by
    rw [hS, tellApart, size_finalizeFields]
    exact size_tellApart hfit
  have hsize' : (tellApart f.unplaced y.unplaced x).size DL S' < 2 ^ 64 := by
    rw [hS', tellApart, size_finalizeFields]
    exact size_tellApart hfit
  have hswap : ∀ z ∈ S.fields, z.isCount = false →
      E.FieldSwappable (tellApart f.unplaced y.unplaced x) z := by
    rw [hS, forall_finalizeFields σ type fun _ _ _ => Iff.rfl]
    exact fieldSwappable_tellApart rfl hsw
  obtain ⟨h, b, blk, hl, hrep⟩ := exists_hasValue (E := E) hflat (resolves_ofStruct A DL hn) hA
    hstruct (bounded_tellApart hflat.toWellFormed hfS fun hr => (hx hr).1) hswap hsize
    fun z _ => tellApart_zero z
  obtain ⟨buf, hwire, hread⟩ := hcross.along hflat hflat' (resolves_ofStruct A DL hn)
    (resolves_ofStruct A' DL hn') hA hA' hstruct' hl hrep hsize hsize' hswap
  -- both fields are where the orders part
  have hpre : ∀ z ∈ pre, z.isCount = false := by
    intro z hz
    have hz' : z ∈ S.wireOrder := by
      rw [hσ]
      exact List.mem_append_left _ hz
    exact isCount_of_mem_wireOrder hz'
  rw [hσ] at hwire
  rw [hτ] at hread
  have hfield := hwire.at hpre (isCount_of_mem_wireOrder hf₀)
  have hother := hread.at hpre (isCount_of_mem_wireOrder hg₀)
  exact not_read_of_tellApart (f := f.unplaced) (g := y.unplaced) hid
    (fun hr => hflat.scalar y hyS hr) (fun hr => (hx hr).2) hfield hother

end Necessary

end Env

/-- One schema under two orders. If the fields other than counts are in one order, every value
    gets across; otherwise, as long as two elements in each array still fit a buffer and the
    target can swap the types, some value does not. -/
theorem crossesTo_orders {SL DL : DataLayout} {T : Struct} (hT : T.Built)
    (hscalar : ∀ f ∈ T.fields, f.isRepeated = false → f.type.IsScalar)
    (helement : ∀ f ∈ T.fields, ∀ t, f.isRepeated = true → f.type = .ptr t → t.IsScalar)
    (σ τ : StdSort SL) (type type' : Ty)
    (hn : (T.finalizeFields σ type).DistinctNames)
    (hn' : (T.finalizeFields τ type').DistinctNames)
    (hstruct : DL.structSize (T.finalizeFields σ type).packed (T.finalizeFields σ type).elements <
      2 ^ 64)
    (hstruct' : DL.structSize (T.finalizeFields τ type').packed
      (T.finalizeFields τ type').elements < 2 ^ 64)
    {A A' : Allocator} (hA : ∀ t n, A.succeeds t n = true) (hA' : ∀ t n, A'.succeeds t n = true) :
    ((T.finalizeFields σ type).wireOrder = (T.finalizeFields τ type').wireOrder →
      Env.CrossesTo (Env.ofStruct A DL (T.finalizeFields σ type))
        (Env.ofStruct A' DL (T.finalizeFields τ type')) (T.finalizeFields σ type)
        (T.finalizeFields τ type')) ∧
    ((T.finalizeFields σ type).wireOrder ≠ (T.finalizeFields τ type').wireOrder →
      (Value.byId (fun _ => 0) fun _ => [0, 0]).size DL T < 2 ^ 64 → DL.CanSwap T →
      ¬ Env.CrossesTo (Env.ofStruct A DL (T.finalizeFields σ type))
        (Env.ofStruct A' DL (T.finalizeFields τ type')) (T.finalizeFields σ type)
        (T.finalizeFields τ type')) := by
  have hflat := Struct.finalizeFields_isFlat σ type hT hscalar helement
  have hflat' := Struct.finalizeFields_isFlat τ type' hT hscalar helement
  refine ⟨Env.crossesTo_of_wireOrder hflat hflat' hn hn' hstruct' hA hA', ?_⟩
  intro hne hfit hsw hcross
  exact hne (Env.wireOrder_of_crossesTo hflat hflat' hn hn' hstruct hstruct' hA hA' hfit hsw hcross)

/-! ## Examples -/

theorem finalizeFields_reversed {DL : DataLayout} {T : Struct} (type : Ty)
    (h : T.fields.reverse.Pairwise fun a b => getFieldSize DL a ≤ getFieldSize DL b) :
    T.finalizeFields (.reversed DL) type =
      { T with
        type := some type
        fields := T.fields.reverse.mapIdx fun i f =>
          { f with parentType := some type, offset := i } } := by
  have hsort : (StdSort.reversed DL).sort T.fields = T.fields.reverse :=
    StdSort.stable_of_pairwise h
  unfold Struct.finalizeFields
  rw [hsort]

/-- The count of an array may come behind it: an array has one place in a buffer. -/
theorem crossesTo_orders_floats :
    let S := (arrayOf .float).finalizeFields (.stable .default) (.struct 0 "s")
    let S' := (arrayOf .float).finalizeFields (.reversed .default) (.struct 1 "s")
    S.fields.map (·.name) = ["x_count", "x"] ∧ S'.fields.map (·.name) = ["x", "x_count"] ∧
    Env.CrossesTo (Env.ofStruct .calloc .default S) (Env.ofStruct .calloc .default S') S S' := by
  have hfloat : Ty.float.IsElement := trivial
  have hstable := @Struct.finalizeFields_stable .default (arrayOf .float) (.struct 0 "s")
    (by decide)
  have hreversed := @finalizeFields_reversed .default (arrayOf .float) (.struct 1 "s") (by decide)
  have hscalar : ∀ f ∈ (arrayOf .float).fields, f.isRepeated = false → f.type.IsScalar := by decide
  have harray : ∀ f ∈ (arrayOf .float).fields, f.isRepeated = true → f.type = .ptr .float := by
    decide
  have helement : ∀ f ∈ (arrayOf .float).fields, ∀ t, f.isRepeated = true → f.type = .ptr t →
      t.IsScalar := by
    intro f hf t hr ht
    obtain rfl := Ty.ptr.inj ((harray f hf hr).symm.trans ht)
    trivial
  refine ⟨by rw [hstable]; rfl, by rw [hreversed]; rfl, ?_⟩
  refine (crossesTo_orders (built_arrayOf hfloat) hscalar helement _ _ _ _ ?_ ?_ ?_ ?_
    (fun _ _ => rfl) fun _ _ => rfl).1 ?_
  · rw [hstable]
    unfold Struct.DistinctNames
    decide
  · rw [hreversed]
    unfold Struct.DistinctNames
    decide
  · rw [hstable]
    decide
  · rw [hreversed]
    decide
  · rw [hstable, hreversed]
    decide

/-- `struct s { int32 x; int32 y }` -/
def twoInts : Struct :=
  ((Struct.new "s").addField "x" (.int 32) false).addField "y" (.int 32) false

/-- Fields of one size that change places get each other's value. -/
theorem equal_sizes_swapped :
    ¬ Env.CrossesTo
      (Env.ofStruct .calloc .default (twoInts.finalizeFields (.stable .default) (.struct 0 "s")))
      (Env.ofStruct .calloc .default (twoInts.finalizeFields (.reversed .default) (.struct 0 "s")))
      (twoInts.finalizeFields (.stable .default) (.struct 0 "s"))
      (twoInts.finalizeFields (.reversed .default) (.struct 0 "s")) := by
  have h32 : (Ty.int 32).IsElement := (by decide : 0 < 32)
  have hT : twoInts.Built := ((Struct.Built.new "s").addField "x" h32 false).addField "y" h32 false
  have hstable := @Struct.finalizeFields_stable .default twoInts (.struct 0 "s") (by decide)
  have hreversed := @finalizeFields_reversed .default twoInts (.struct 0 "s") (by decide)
  have hscalar : ∀ f ∈ twoInts.fields, f.isRepeated = false → f.type.IsScalar := by decide
  have hplain : ∀ f ∈ twoInts.fields, f.isRepeated = false := by decide
  have helement : ∀ f ∈ twoInts.fields, ∀ t, f.isRepeated = true → f.type = .ptr t →
      t.IsScalar := by
    intro f hf t hr
    rw [hplain f hf] at hr
    cases hr
  intro hcross
  have horder := Env.wireOrder_of_crossesTo
    (Struct.finalizeFields_isFlat _ _ hT hscalar helement)
    (Struct.finalizeFields_isFlat _ _ hT hscalar helement)
    (by rw [hstable]; unfold Struct.DistinctNames; decide)
    (by rw [hreversed]; unfold Struct.DistinctNames; decide)
    (by rw [hstable]; decide) (by rw [hreversed]; decide) (fun _ _ => rfl) (fun _ _ => rfl)
    (by decide) (fun f hf hc hBE => absurd hBE (by decide)) hcross
  rw [hstable, hreversed] at horder
  exact absurd horder (by decide)

end Tyr
