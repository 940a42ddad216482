import Tyr.CodeGen.Wire

/-
  A struct object in memory: one slot of bytes for each field.

  `slot` is what a load of the field reads, `put` what a store writes. Slots of different
  fields do not overlap (`fieldOffset_disjoint`), so `slot_put_self` and `slot_put_ne`
  describe every store. `intAt`, `countAt`, `ptrAt` are the values in the slots.
  The rules `loadTy_slot`, `loadI64_slot`, `storeTy_slot`, `storeI64_slot` and
  `getFieldAllocSize_slot` run the field accesses of generated code on a live struct.
-/

namespace Tyr

/-! ## Encoding -/

namespace Env

variable (E : Env)

theorem length_encode_int (t : Ty) (n : Nat) :
    (E.encode t (.int n)).length = E.layout.storeSize t := by simp [encode]

theorem length_encode_loc (t t' : Ty) (b : Nat) (o : I64) :
    (E.encode t (.ptr (.loc b o))).length = E.layout.storeSize (.ptr t') := by
  simp only [encode, length_encodePtr_loc, DataLayout.storeSize_ptr]

theorem length_encode_null (t t' : Ty) :
    (E.encode t (.ptr .null)).length = E.layout.storeSize (.ptr t') := by
  simp only [encode, length_encodePtr_null, DataLayout.storeSize_ptr]

@[simp] theorem length_encodeI64 (n : I64) : (E.encodeI64 n).length = 8 := by simp [encodeI64]

theorem two_pow_bits_le (t : Ty) :
    2 ^ E.layout.getTypeSizeInBits t ≤ 256 ^ E.layout.storeSize t := by
  rw [show (256 : Nat) = 2 ^ 8 from rfl, ← Nat.pow_mul]
  apply Nat.pow_le_pow_right (by decide)
  simp only [DataLayout.storeSize]
  omega

/-- A stored integer is loaded back. -/
theorem decode_encode_int {t : Ty} (ht : t.isPointerTy = false) (n : Nat) :
    E.decode t (E.encode t (.int n)) = .int (n % 2 ^ E.layout.getTypeSizeInBits t) := by
  have hlt : n % 2 ^ E.layout.getTypeSizeInBits t < 256 ^ E.layout.storeSize t :=
    Nat.lt_of_lt_of_le (Nat.mod_lt _ (Nat.two_pow_pos _)) (E.two_pow_bits_le t)
  simp only [decode, ht, Bool.false_eq_true, if_false, encode, decodeInt_encodeInt,
    Nat.mod_eq_of_lt hlt, Nat.mod_mod]

theorem decode_encode_null (t t' : Ty) :
    E.decode (.ptr t) (E.encode t' (.ptr .null)) = .ptr .null := by
  simp only [decode, encode, Ty.isPointerTy, if_true, decodePtr_encodePtr_null]

theorem decode_encode_loc (t t' : Ty) (b : Nat) (o : I64) :
    E.decode (.ptr t) (E.encode t' (.ptr (.loc b o))) = .ptr (.loc b o) := by
  simp only [decode, encode, Ty.isPointerTy, if_true,
    decodePtr_encodePtr_loc E.layout.pointerSize_pos]

theorem decodeI64_encodeI64 (n : I64) : E.decodeI64 (E.encodeI64 n) = n := by
  apply BitVec.eq_of_toNat_eq
  rw [decodeI64, encodeI64, decodeInt_encodeInt, BitVec.toNat_ofNat]
  have := n.isLt
  omega

theorem decode_i64 (cs : List Cell) :
    E.decode (.int 64) cs = .int (E.decodeI64 cs).toNat := by
  simp only [decode, decodeI64, Ty.isPointerTy, Bool.false_eq_true, if_false,
    DataLayout.getTypeSizeInBits, BitVec.toNat_ofNat]

end Env

/-! ## Fields of a well-formed struct -/

namespace Struct

/-- The count field of an array. -/
def countOf (S : Struct) (f : Field) : Field := (S.deref f.countField).getD f

end Struct

/-- The element type of an array. -/
def Field.elem (f : Field) : Ty := (f.type.getPointerElementType).getD f.type

namespace Struct.WellFormed

variable {S : Struct} {f g : Field}

/-- What is known of an array field. -/
theorem array_spec (w : S.WellFormed) (hf : f ∈ S.fields) (hr : f.isRepeated = true) :
    f.type = .ptr f.elem ∧ f.elem.IsElement ∧ f.isStruct = false ∧ f.isCount = false ∧
      S.deref f.countField = some (S.countOf f) ∧ S.countOf f ∈ S.fields ∧
      (S.countOf f).isCount = true ∧ (S.countOf f).countsFor = some f.id ∧
      (S.countOf f).isMutable = f.isMutable ∧ f.countField = some (S.countOf f).id := by
  cases w.kind f hf with
  | plain hs hr' hc ht => rw [hr] at hr'; cases hr'
  | count r hs hr' hc ht hm hrr hto hfrom => rw [hr] at hr'; cases hr'
  | array t c hs hr' hc ht he hm hcc hto hfrom hmut =>
    have hd : S.deref f.countField = some c := by rw [hto]; exact w.deref_id hm
    have hco : S.countOf f = c := by rw [countOf, hd]; rfl
    have hel : f.elem = t := by simp [Field.elem, ht, Ty.getPointerElementType]
    rw [hco, hel]
    exact ⟨ht, he, hs, hc, hd, hm, hcc, hfrom, hmut, hto⟩

theorem pointee (w : S.WellFormed) (hf : f ∈ S.fields) (hr : f.isRepeated = true) :
    f.type.getPointerElementType = some f.elem := by
  rw [(w.array_spec hf hr).1]
  rfl

/-- What is known of a count field. -/
theorem count_spec (w : S.WellFormed) (hf : f ∈ S.fields) (hc : f.isCount = true) :
    f.type = .int 64 ∧ f.isStruct = false ∧ f.isRepeated = false ∧
      ∃ r ∈ S.fields, r.isRepeated = true ∧ S.deref f.countsFor = some r ∧ S.countOf r = f := by
  cases w.kind f hf with
  | plain hs hr hc' ht => rw [hc] at hc'; cases hc'
  | count r hs hr hc' ht hm hrr hto hfrom =>
    refine ⟨ht, hs, hr, r, hm, hrr, by rw [hto]; exact w.deref_id hm, ?_⟩
    rw [countOf, hfrom, w.deref_id hf]
    rfl
  | array t c hs hr hc' ht he hm hcc hto hfrom hmut => rw [hc] at hc'; cases hc'

/-- What is known of any other field. -/
theorem plain_spec (w : S.WellFormed) (hf : f ∈ S.fields) (hr : f.isRepeated = false)
    (hc : f.isCount = false) : f.isStruct = f.type.isPointerTy ∧ f.type.IsElement := by
  cases w.kind f hf with
  | plain hs hr' hc' ht => exact ⟨hs, ht⟩
  | count r hs hr' hc' ht hm hrr hto hfrom => rw [hc] at hc'; cases hc'
  | array t c hs hr' hc' ht he hm hcc hto hfrom hmut => rw [hr] at hr'; cases hr'

theorem countOf_mem (w : S.WellFormed) (hf : f ∈ S.fields) (hr : f.isRepeated = true) :
    S.countOf f ∈ S.fields := (w.array_spec hf hr).2.2.2.2.2.1

theorem countOf_type (w : S.WellFormed) (hf : f ∈ S.fields) (hr : f.isRepeated = true) :
    (S.countOf f).type = .int 64 :=
  (w.count_spec (w.countOf_mem hf hr) (w.array_spec hf hr).2.2.2.2.2.2.1).1

theorem countOf_ne (w : S.WellFormed) (hf : f ∈ S.fields) (hr : f.isRepeated = true) :
    S.countOf f ≠ f := by
  intro he
  have h1 := (w.array_spec hf hr).2.2.2.2.2.2.1
  rw [he, (w.array_spec hf hr).2.2.2.1] at h1
  cases h1

/-- Different arrays have different counts. -/
theorem countOf_inj (w : S.WellFormed) (hf : f ∈ S.fields) (hg : g ∈ S.fields)
    (hrf : f.isRepeated = true) (hrg : g.isRepeated = true) (h : S.countOf f = S.countOf g) :
    f = g := by
  have h1 := (w.array_spec hf hrf).2.2.2.2.2.2.2.1
  rw [h, (w.array_spec hg hrg).2.2.2.2.2.2.2.1] at h1
  exact w.eq_of_id hf hg (Option.some.inj h1).symm

/-- A count is not an array. -/
theorem countOf_ne_array (w : S.WellFormed) (hf : f ∈ S.fields) (hg : g ∈ S.fields)
    (hrf : f.isRepeated = true) (hrg : g.isRepeated = true) : S.countOf f ≠ g := by
  intro he
  have h1 := (w.array_spec hf hrf).2.2.2.2.2.2.1
  rw [he, (w.array_spec hg hrg).2.2.2.1] at h1
  cases h1

end Struct.WellFormed

/-- A flat struct has no struct-typed field. -/
theorem Struct.IsFlat.isStruct {S : Struct} (flat : S.IsFlat) :
    ∀ f ∈ S.fields, f.isStruct = false := by
  intro f hf
  cases flat.kind f hf with
  | plain hs hr hc ht =>
    have hsc := flat.scalar f hf hr
    rw [hs]
    cases htype : f.type with
    | ptr t => rw [htype] at hsc; exact hsc.elim
    | int n => rfl
    | float => rfl
    | double => rfl
    | struct i n => rfl
  | count r hs hr hc ht hm hrr hto hfrom => exact hs
  | array t c hs hr hc ht he hm hcc hto hfrom hmut => exact hs

namespace Struct.IsFlat

variable {S : Struct} {f : Field}

theorem elem_isScalar (flat : S.IsFlat) (hf : f ∈ S.fields) (hr : f.isRepeated = true) :
    f.elem.IsScalar := flat.element f hf f.elem hr (flat.toWellFormed.array_spec hf hr).1

theorem elem_not_pointer (flat : S.IsFlat) (hf : f ∈ S.fields) (hr : f.isRepeated = true) :
    f.elem.isPointerTy = false := (flat.elem_isScalar hf hr).not_pointer

end Struct.IsFlat

/-! ## Slots -/

namespace Env

/-- Unless it is repeated, a field of a struct without nested structs is no pointer. -/
theorem not_pointer {S : Struct} (wf : S.WellFormed) {f : Field} (hf : f ∈ S.fields)
    (hs : f.isStruct = false) (hr : f.isRepeated = false) : f.type.isPointerTy = false := by
  cases hc : f.isCount with
  | true => rw [(wf.count_spec hf hc).1]; rfl
  | false => rw [← (wf.plain_spec hf hr hc).1]; exact hs

variable (E : Env) (S : Struct)

/-- The bytes of field `f` in a struct object. -/
def slot (blk : Block) (f : Field) : List Cell :=
  slice blk.cells (E.fieldOffset S f) (E.layout.storeSize f.type)

/-- The struct object after a store of `w` to field `f`. -/
def put (blk : Block) (f : Field) (w : List Cell) : Block := blk.overwrite (E.fieldOffset S f) w

/-- The block is large enough for the struct. -/
def Holds (blk : Block) : Prop := E.layout.structSize S.packed S.elements ≤ blk.cells.length

instance (blk : Block) : Decidable (E.Holds S blk) :=
  inferInstanceAs (Decidable (_ ≤ _))

def valueAt (blk : Block) (f : Field) : Val := E.decode f.type (E.slot S blk f)

def intAt (blk : Block) (f : Field) : Nat := (E.decode f.type (E.slot S blk f)).asInt

def countAt (blk : Block) (f : Field) : I64 := E.decodeI64 (E.slot S blk f)

def ptrAt (blk : Block) (f : Field) : Ptr := (E.decode f.type (E.slot S blk f)).asPtr

/-- The value of `getFieldAllocSize` on a struct object. -/
def fieldSizeAt (blk : Block) (f : Field) : I64 :=
  if f.isRepeated then
    BitVec.ofNat 64 (E.layout.allocSize f.elem) * E.countAt S blk (S.countOf f)
  else BitVec.ofNat 64 (E.layout.allocSize f.type)

variable {E S} {f g : Field} {blk : Block} {w : List Cell}

theorem fieldOffset_add_le (wf : S.WellFormed) (hf : f ∈ S.fields) :
    E.fieldOffset S f + E.layout.allocSize f.type ≤ E.layout.structSize S.packed S.elements := by
  obtain ⟨hi, he⟩ := wf.getElem_elements hf
  have h := E.layout.structOffset_add_le S.packed S.elements hi
  rwa [he] at h

theorem fieldOffset_disjoint (wf : S.WellFormed) (hf : f ∈ S.fields) (hg : g ∈ S.fields)
    (hne : f ≠ g) :
    E.fieldOffset S f + E.layout.storeSize f.type ≤ E.fieldOffset S g ∨
      E.fieldOffset S g + E.layout.storeSize g.type ≤ E.fieldOffset S f := by
  obtain ⟨hi, hef⟩ := wf.getElem_elements hf
  obtain ⟨hj, heg⟩ := wf.getElem_elements hg
  have sf := E.layout.storeSize_le_allocSize f.type
  have sg := E.layout.storeSize_le_allocSize g.type
  have hone : f.offset ≠ g.offset := fun he => hne (wf.eq_of_offset hf hg he)
  simp only [fieldOffset]
  rcases Nat.lt_or_gt_of_ne hone with hlt | hlt
  · left
    have h := E.layout.structOffset_disjoint S.packed S.elements hlt hj
    rw [hef] at h
    omega
  · right
    have h := E.layout.structOffset_disjoint S.packed S.elements hlt hi
    rw [heg] at h
    omega

theorem fieldOffset_lt (wf : S.WellFormed) (hb : E.Holds S blk) (hf : f ∈ S.fields) :
    E.fieldOffset S f + E.layout.storeSize f.type ≤ blk.cells.length := by
  have h1 := fieldOffset_add_le (E := E) wf hf
  have h2 := E.layout.storeSize_le_allocSize f.type
  have h3 : E.layout.structSize S.packed S.elements ≤ blk.cells.length := hb
  omega

theorem holds_put (hb : E.Holds S blk) : E.Holds S (E.put S blk f w) := by
  simpa [Holds, put] using hb

theorem slot_put_self (wf : S.WellFormed) (hb : E.Holds S blk) (hf : f ∈ S.fields)
    (hw : w.length = E.layout.storeSize f.type) : E.slot S (E.put S blk f w) f = w :=
  Block.slice_overwrite_self hw (fieldOffset_lt wf hb hf)

theorem slot_put_ne (wf : S.WellFormed) (hb : E.Holds S blk) (hf : f ∈ S.fields)
    (hg : g ∈ S.fields) (hne : g ≠ f) (hw : w.length = E.layout.storeSize f.type) :
    E.slot S (E.put S blk f w) g = E.slot S blk g := by
  have hle := fieldOffset_lt wf hb hf
  rw [slot, put, Block.overwrite_cells (by rw [hw]; exact hle)]
  apply slice_splice_disjoint (by rw [hw]; exact hle)
  rw [hw]
  exact fieldOffset_disjoint wf hg hf hne

/-! ## The two slots of an array -/

/-- The size of `n` elements of array `f`, modulo `2 ^ 64`. -/
def sizeFor (E : Env) (f : Field) (n : I64) : I64 :=
  BitVec.ofNat 64 (E.layout.allocSize f.elem) * n

/-- The same as an exact integer. -/
def exactSizeFor (E : Env) (f : Field) (n : I64) : Nat := E.layout.allocSize f.elem * n.toNat

theorem sizeFor_toNat {n : I64} (hn : E.exactSizeFor f n < 2 ^ 64) :
    (E.sizeFor f n).toNat = E.exactSizeFor f n := by
  rw [sizeFor, BitVec.toNat_mul, BitVec.toNat_ofNat, Nat.mod_mul_mod]
  exact Nat.mod_eq_of_lt hn

@[simp] theorem exactSizeFor_zero : E.exactSizeFor f 0 = 0 := Nat.mul_zero _

@[simp] theorem exactSizeFor_one : E.exactSizeFor f 1 = E.layout.allocSize f.elem := Nat.mul_one _

variable (E S) in
/-- The struct with count `n` stored for array `f`. -/
def putCount (blk : Block) (f : Field) (n : I64) : Block :=
  E.put S blk (S.countOf f) (E.encodeI64 n)

variable (E S) in
/-- The struct with the address of block `d` stored in `f`. -/
def putPtr (blk : Block) (f : Field) (d : Nat) : Block :=
  E.put S blk f (E.encode f.type (.ptr (.base d)))

@[simp] theorem length_put (blk : Block) (f : Field) (w : List Cell) :
    (E.put S blk f w).cells.length = blk.cells.length := Block.length_overwrite _ _ _

@[simp] theorem length_putCount (blk : Block) (f : Field) (n : I64) :
    (E.putCount S blk f n).cells.length = blk.cells.length := length_put _ _ _

@[simp] theorem length_putPtr (blk : Block) (f : Field) (d : Nat) :
    (E.putPtr S blk f d).cells.length = blk.cells.length := length_put _ _ _

theorem holds_putCount (hb : E.Holds S blk) (n : I64) : E.Holds S (E.putCount S blk f n) :=
  holds_put hb

theorem holds_putPtr (hb : E.Holds S blk) (d : Nat) : E.Holds S (E.putPtr S blk f d) :=
  holds_put hb

theorem fieldSizeAt_array (hr : f.isRepeated = true) (blk : Block) :
    E.fieldSizeAt S blk f = E.sizeFor f (E.countAt S blk (S.countOf f)) := by
  rw [fieldSizeAt, if_pos hr, sizeFor]

theorem putCount_putCount (blk : Block) (f : Field) (n m : I64) :
    E.putCount S (E.putCount S blk f n) f m = E.putCount S blk f m :=
  Block.overwrite_overwrite (by rw [length_encodeI64, length_encodeI64])

section Array

variable (wf : S.WellFormed) (hf : f ∈ S.fields) (hr : f.isRepeated = true)
include wf hf hr

theorem length_count_slot (n : I64) :
    (E.encodeI64 n).length = E.layout.storeSize (S.countOf f).type := by
  rw [wf.countOf_type hf hr, length_encodeI64, DataLayout.storeSize_i64]

theorem length_ptr_slot (d : Nat) :
    (E.encode f.type (.ptr (.base d))).length = E.layout.storeSize f.type := by
  rw [(wf.array_spec hf hr).1]
  exact length_encode_loc _ _ _ _ _

variable (hb : E.Holds S blk)
include hb

theorem countAt_putCount (n : I64) : E.countAt S (E.putCount S blk f n) (S.countOf f) = n := by
  rw [countAt, putCount, slot_put_self wf hb (wf.countOf_mem hf hr)
    (length_count_slot wf hf hr n), decodeI64_encodeI64]

theorem slot_putCount_ne (n : I64) (hg : g ∈ S.fields) (hne : g ≠ S.countOf f) :
    E.slot S (E.putCount S blk f n) g = E.slot S blk g :=
  slot_put_ne wf hb (wf.countOf_mem hf hr) hg hne (length_count_slot wf hf hr n)

theorem ptrAt_putCount (n : I64) : E.ptrAt S (E.putCount S blk f n) f = E.ptrAt S blk f := by
  rw [ptrAt, slot_putCount_ne wf hf hr hb n hf (wf.countOf_ne hf hr).symm]
  rfl

theorem fieldSizeAt_putCount (n : I64) :
    E.fieldSizeAt S (E.putCount S blk f n) f = E.sizeFor f n := by
  rw [fieldSizeAt_array hr, countAt_putCount wf hf hr hb]

theorem slot_putPtr_ne (d : Nat) (hg : g ∈ S.fields) (hne : g ≠ f) :
    E.slot S (E.putPtr S blk f d) g = E.slot S blk g :=
  slot_put_ne wf hb hf hg hne (length_ptr_slot wf hf hr d)

theorem ptrAt_putPtr (d : Nat) : E.ptrAt S (E.putPtr S blk f d) f = .base d := by
  rw [ptrAt, putPtr, slot_put_self wf hb hf (length_ptr_slot wf hf hr d),
    (wf.array_spec hf hr).1, decode_encode_loc]
  rfl

theorem countAt_putPtr (d : Nat) :
    E.countAt S (E.putPtr S blk f d) (S.countOf f) = E.countAt S blk (S.countOf f) := by
  rw [countAt, slot_putPtr_ne wf hf hr hb d (wf.countOf_mem hf hr) (wf.countOf_ne hf hr)]
  rfl

end Array

/-! ## Rules for memory accesses -/

variable {h : Heap} {b : Nat} {t : Ty} {o : I64}

theorem loadTy_ok (hl : h.block? b = some blk)
    (hfit : o.toNat + E.layout.storeSize t ≤ blk.cells.length) :
    E.loadTy t (.loc b o) h =
      .ok (E.decode t (slice blk.cells o.toNat (E.layout.storeSize t)), h) := by
  rw [loadTy, Prog.bind_of_ok (load_ok hl hfit), Prog.pure_apply]

theorem loadTy_fault (hl : h.block? b = some blk)
    (hfit : blk.cells.length < o.toNat + E.layout.storeSize t) :
    E.loadTy t (.loc b o) h = .error .access :=
  Prog.bind_of_error (load_fault hl hfit)

theorem loadI64_ok (hl : h.block? b = some blk) (hfit : o.toNat + 8 ≤ blk.cells.length) :
    E.loadI64 (.loc b o) h = .ok (E.decodeI64 (slice blk.cells o.toNat 8), h) := by
  rw [loadI64, Prog.bind_of_ok (load_ok hl hfit), Prog.pure_apply]

theorem loadI64_fault (hl : h.block? b = some blk) (hfit : blk.cells.length < o.toNat + 8) :
    E.loadI64 (.loc b o) h = .error .access :=
  Prog.bind_of_error (load_fault hl hfit)

/-! ## Rules for field accesses -/

theorem structGEP_base (wf : S.WellFormed) (hb : E.Holds S blk) (hf : f ∈ S.fields) :
    ∃ o : I64, E.structGEP S (.base b) f = .loc b o ∧ o.toNat = E.fieldOffset S f := by
  refine ⟨_, rfl, ?_⟩
  have hle := fieldOffset_lt wf hb hf
  have hlt := blk.fits
  show ((0 : I64) + BitVec.ofNat 64 (E.fieldOffset S f)).toNat = _
  rw [show (0 : I64) + BitVec.ofNat 64 (E.fieldOffset S f) =
    BitVec.ofNat 64 (E.fieldOffset S f) from BitVec.zero_add _, BitVec.toNat_ofNat]
  exact Nat.mod_eq_of_lt (by omega)

theorem loadTy_slot (wf : S.WellFormed) (hl : h.block? b = some blk) (hb : E.Holds S blk)
    (hf : f ∈ S.fields) :
    E.loadTy f.type (E.structGEP S (.base b) f) h =
      .ok (E.decode f.type (E.slot S blk f), h) := by
  obtain ⟨o, hp, ho⟩ := structGEP_base (b := b) wf hb hf
  have hle := fieldOffset_lt wf hb hf
  rw [hp, loadTy_ok hl (by omega), ho]
  rfl

theorem loadI64_slot (wf : S.WellFormed) (hl : h.block? b = some blk) (hb : E.Holds S blk)
    (hf : f ∈ S.fields) (ht : f.type = .int 64) :
    E.loadI64 (E.structGEP S (.base b) f) h = .ok (E.countAt S blk f, h) := by
  obtain ⟨o, hp, ho⟩ := structGEP_base (b := b) wf hb hf
  have hle := fieldOffset_lt wf hb hf
  rw [ht, DataLayout.storeSize_i64] at hle
  rw [hp, loadI64_ok hl (by omega), ho, countAt, slot, ht, DataLayout.storeSize_i64]

theorem store_slot (wf : S.WellFormed) (hl : h.block? b = some blk) (hb : E.Holds S blk)
    (hf : f ∈ S.fields) (hw : w.length = E.layout.storeSize f.type) :
    store (E.structGEP S (.base b) f) w h = .ok ((), h.update b (E.put S blk f w)) := by
  obtain ⟨o, hp, ho⟩ := structGEP_base (b := b) wf hb hf
  have hle := fieldOffset_lt wf hb hf
  rw [hp, store_ok hl (by omega), ho]
  rfl

theorem storeI64_slot (wf : S.WellFormed) (hl : h.block? b = some blk) (hb : E.Holds S blk)
    (hf : f ∈ S.fields) (ht : f.type = .int 64) (n : I64) :
    E.storeI64 n (E.structGEP S (.base b) f) h =
      .ok ((), h.update b (E.put S blk f (E.encodeI64 n))) :=
  store_slot wf hl hb hf (by rw [ht, length_encodeI64, DataLayout.storeSize_i64])

theorem storeCount_slot (wf : S.WellFormed) (hl : h.block? b = some blk) (hb : E.Holds S blk)
    (hf : f ∈ S.fields) (hr : f.isRepeated = true) (n : I64) :
    E.storeI64 n (E.structGEP S (.base b) (S.countOf f)) h =
      .ok ((), h.update b (E.putCount S blk f n)) :=
  storeI64_slot wf hl hb (wf.countOf_mem hf hr) (wf.countOf_type hf hr) n

theorem storePtr_slot (wf : S.WellFormed) (hl : h.block? b = some blk) (hb : E.Holds S blk)
    (hf : f ∈ S.fields) (hr : f.isRepeated = true) (d : Nat) :
    E.storeTy f.type (.ptr (.base d)) (E.structGEP S (.base b) f) h =
      .ok ((), h.update b (E.putPtr S blk f d)) :=
  store_slot wf hl hb hf (length_ptr_slot wf hf hr d)

theorem getFieldAllocSize_slot (wf : S.WellFormed) (hl : h.block? b = some blk)
    (hb : E.Holds S blk) (hf : f ∈ S.fields) :
    E.getFieldAllocSize S f (.base b) h = .ok (E.fieldSizeAt S blk f, h) := by
  unfold getFieldAllocSize fieldSizeAt
  cases hr : f.isRepeated with
  | false => rfl
  | true =>
    obtain ⟨ht, -, -, -, hd, -⟩ := wf.array_spec hf hr
    have hpt := wf.pointee hf hr
    simp only [if_true, hpt, hd]
    rw [Prog.bind_of_ok (loadI64_slot wf hl hb (wf.countOf_mem hf hr) (wf.countOf_type hf hr))]
    rfl

end Env

end Tyr
