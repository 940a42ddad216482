import Tyr.Lib.Heap
import Tyr.Lib.Layout

/-
  The LLVM types tyr uses and `llvm::DataLayout` (LLVM 8): store size, ABI alignment,
  alloc size, struct layout. `allocSize` is the distance between array elements;
  `structOffset` and `structSize` are what `CreateStructGEP` and `getTypeAllocSize` of a
  struct type use.
-/

namespace Tyr

/-! ## Types -/

/-- A named struct type is identified by its creation number in the context; its name is
    the one the context gave it. -/
inductive Ty where
  | int (bits : Nat)
  | float
  | double
  | struct (id : Nat) (name : String)
  | ptr (pointee : Ty)
  deriving DecidableEq, Inhabited

namespace Ty

def isPointerTy : Ty → Bool
  | ptr _ => true
  | _ => false

def isStructTy : Ty → Bool
  | struct _ _ => true
  | _ => false

/-- `getPointerElementType`: only a pointer type has one. -/
def getPointerElementType : Ty → Option Ty
  | ptr t => some t
  | _ => none

/-- `getStructName`: casts the type itself to a struct type. -/
def getStructName : Ty → Option String
  | struct _ n => some n
  | _ => none

/-- An integer, float or double type. -/
def IsScalar : Ty → Prop
  | int n => 0 < n
  | float => True
  | double => True
  | _ => False

instance : DecidablePred IsScalar := fun t => by
  cases t <;> unfold IsScalar <;> infer_instance

theorem IsScalar.not_pointer {t : Ty} (ht : t.IsScalar) : t.isPointerTy = false := by
  cases t with
  | ptr t => exact ht.elim
  | int n => rfl
  | float => rfl
  | double => rfl
  | struct i n => rfl

theorem exists_pointee {t : Ty} (ht : t.isPointerTy = true) : ∃ t', t = .ptr t' := by
  cases t with
  | ptr t => exact ⟨t, rfl⟩
  | int n => cases ht
  | float => cases ht
  | double => cases ht
  | struct i n => cases ht

end Ty

/-! ## Data layout -/

/-- ABI alignment of an integer type: the first entry at least as wide, else the widest. -/
def getAlignmentInfo (table : List (Nat × Nat)) (bits : Nat) : Nat :=
  match table.find? (fun e => bits ≤ e.1) with
  | some e => e.2
  | none => (table.getLast?.map (·.2)).getD 1

/-- The part of `llvm::DataLayout` that tyr depends on. Sizes and alignments are in bytes;
    `intAligns` lists (bit width, ABI alignment) by increasing width. Alignments are powers
    of two, bytes are byte-aligned and no layout aligns `i64` beyond 8. -/
structure DataLayout where
  bigEndian : Bool
  pointerSize : Nat
  pointerAlign : Nat
  intAligns : List (Nat × Nat)
  floatAlign : Nat
  doubleAlign : Nat
  pointerSize_pos : 0 < pointerSize
  pointerAlign_pow2 : pointerAlign.isPowerOfTwo
  intAligns_pow2 : ∀ e ∈ intAligns, e.2.isPowerOfTwo
  floatAlign_pow2 : floatAlign.isPowerOfTwo
  doubleAlign_pow2 : doubleAlign.isPowerOfTwo
  i8_align : getAlignmentInfo intAligns 8 = 1
  i64_align : getAlignmentInfo intAligns 64 ≤ 8

theorem getAlignmentInfo_pow2 {table : List (Nat × Nat)}
    (h : ∀ e ∈ table, e.2.isPowerOfTwo) (bits : Nat) :
    (getAlignmentInfo table bits).isPowerOfTwo := by
  unfold getAlignmentInfo
  split
  · next e he => exact h e (List.mem_of_find?_eq_some he)
  · cases hl : table.getLast? with
    | none => exact ⟨0, rfl⟩
    | some e => exact h e (List.mem_of_getLast? hl)

namespace DataLayout

variable (DL : DataLayout)

def getTypeSizeInBits : Ty → Nat
  | .int n => n
  | .float => 32
  | .double => 64
  | .ptr _ => 8 * DL.pointerSize
  | .struct _ _ => 0

/-- Bytes written by a store. -/
def storeSize (t : Ty) : Nat := (DL.getTypeSizeInBits t + 7) / 8

def getABITypeAlignment : Ty → Nat
  | .int n => getAlignmentInfo DL.intAligns n
  | .float => DL.floatAlign
  | .double => DL.doubleAlign
  | .ptr _ => DL.pointerAlign
  | .struct _ _ => 1

/-- Distance between consecutive elements of an array of `t`. -/
def allocSize (t : Ty) : Nat := alignTo (DL.storeSize t) (DL.getABITypeAlignment t)

/-- Size and alignment of the members of a struct type. -/
def members (packed : Bool) (elements : List Ty) : List (Nat × Nat) :=
  elements.map fun t => (DL.allocSize t, if packed then 1 else DL.getABITypeAlignment t)

def structOffset (packed : Bool) (elements : List Ty) (i : Nat) : Nat :=
  offsetAt (DL.members packed elements) 0 i

def structSize (packed : Bool) (elements : List Ty) : Nat :=
  recordSize (DL.members packed elements)

theorem getABITypeAlignment_pow2 (t : Ty) : (DL.getABITypeAlignment t).isPowerOfTwo := by
  cases t with
  | int n => exact getAlignmentInfo_pow2 DL.intAligns_pow2 n
  | float => exact DL.floatAlign_pow2
  | double => exact DL.doubleAlign_pow2
  | ptr t => exact DL.pointerAlign_pow2
  | struct i n => exact ⟨0, rfl⟩

theorem getABITypeAlignment_pos (t : Ty) : 0 < DL.getABITypeAlignment t :=
  Nat.pos_of_isPowerOfTwo (DL.getABITypeAlignment_pow2 t)

theorem storeSize_le_allocSize (t : Ty) : DL.storeSize t ≤ DL.allocSize t :=
  le_alignTo _ (DL.getABITypeAlignment_pos t)

theorem storeSize_pos {t : Ty} (ht : t.IsScalar) : 0 < DL.storeSize t := by
  cases t with
  | int n => simp only [Ty.IsScalar] at ht; simp only [storeSize, getTypeSizeInBits]; omega
  | float => simp [storeSize, getTypeSizeInBits]
  | double => simp [storeSize, getTypeSizeInBits]
  | struct i n => exact ht.elim
  | ptr t => exact ht.elim

theorem allocSize_pos {t : Ty} (ht : t.IsScalar) : 0 < DL.allocSize t :=
  Nat.lt_of_lt_of_le (DL.storeSize_pos ht) (DL.storeSize_le_allocSize t)

@[simp] theorem storeSize_i64 : DL.storeSize (.int 64) = 8 := by
  simp [storeSize, getTypeSizeInBits]

@[simp] theorem allocSize_i64 : DL.allocSize (.int 64) = 8 := by
  obtain ⟨k, hk⟩ := DL.getABITypeAlignment_pow2 (.int 64)
  have hle : DL.getABITypeAlignment (.int 64) ≤ 2 ^ 3 := DL.i64_align
  have hd : DL.getABITypeAlignment (.int 64) ∣ 8 := by
    rw [hk] at hle ⊢
    exact Nat.pow_dvd_pow 2 ((Nat.pow_le_pow_iff_right (by decide)).mp hle)
  rw [allocSize, storeSize_i64, alignTo_of_dvd (DL.getABITypeAlignment_pos _) hd]

@[simp] theorem storeSize_ptr (t : Ty) : DL.storeSize (.ptr t) = DL.pointerSize := by
  simp only [storeSize, getTypeSizeInBits]; omega

theorem members_align_pow2 (packed : Bool) (elements : List Ty) :
    ∀ m ∈ DL.members packed elements, m.2.isPowerOfTwo := by
  intro m hm
  obtain ⟨t, -, rfl⟩ := List.mem_map.mp hm
  cases packed
  · exact DL.getABITypeAlignment_pow2 t
  · exact ⟨0, rfl⟩

theorem members_align_pos (packed : Bool) (elements : List Ty) :
    ∀ m ∈ DL.members packed elements, 0 < m.2 := fun m hm =>
  Nat.pos_of_isPowerOfTwo (DL.members_align_pow2 packed elements m hm)

variable (packed : Bool) (elements : List Ty) {i j : Nat}

/-- A member's bytes lie inside the struct. -/
theorem structOffset_add_le (hi : i < elements.length) :
    DL.structOffset packed elements i + DL.allocSize elements[i] ≤
      DL.structSize packed elements := by
  have hi' : i < (DL.members packed elements).length := by simpa [members] using hi
  have h := offsetAt_add_le_recordSize (DL.members_align_pos packed elements) hi'
  have hm : ((DL.members packed elements)[i]).1 = DL.allocSize elements[i] := by simp [members]
  rw [hm] at h
  exact h

/-- Different members occupy different bytes. -/
theorem structOffset_disjoint (hij : i < j) (hj : j < elements.length) :
    DL.structOffset packed elements i + DL.allocSize elements[i] ≤
      DL.structOffset packed elements j := by
  have hj' : j < (DL.members packed elements).length := by simpa [members] using hj
  have h := offsetAt_disjoint (DL.members_align_pos packed elements) (o := 0) hij hj'
  have hm : ((DL.members packed elements)[i]).1 = DL.allocSize elements[i] := by simp [members]
  rw [hm] at h
  exact h

end DataLayout

theorem eight_pos : 0 < 8 := by decide

theorem isPowerOfTwo_four : Nat.isPowerOfTwo 4 := ⟨2, rfl⟩

theorem isPowerOfTwo_eight : Nat.isPowerOfTwo 8 := ⟨3, rfl⟩

/-- The layout of a module none was set on. -/
def DataLayout.default : DataLayout where
  bigEndian := false
  pointerSize := 8
  pointerAlign := 8
  intAligns := [(1, 1), (8, 1), (16, 2), (32, 4), (64, 4)]
  floatAlign := 4
  doubleAlign := 8
  pointerSize_pos := eight_pos
  pointerAlign_pow2 := isPowerOfTwo_eight
  intAligns_pow2 := by
    intro e he
    simp only [List.mem_cons, List.not_mem_nil, or_false] at he
    rcases he with rfl | rfl | rfl | rfl | rfl
    exacts [⟨0, rfl⟩, ⟨0, rfl⟩, ⟨1, rfl⟩, ⟨2, rfl⟩, ⟨2, rfl⟩]
  floatAlign_pow2 := isPowerOfTwo_four
  doubleAlign_pow2 := isPowerOfTwo_eight
  i8_align := rfl
  i64_align := by decide

end Tyr
