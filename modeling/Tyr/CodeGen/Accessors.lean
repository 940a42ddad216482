import Tyr.CodeGen.Functions

/-
  The functions `LLVMIRGenPass` emits, part one: constructor, destructor, getters, setters.

  Each definition is the body that the generator of the same name emits: a test on the
  field (`f.isRepeated`) is made when the body is generated, a test on a loaded value when
  it runs. Blocks reached from several others are definitions of their own and take the
  PHI's value as an argument. The functions of other structs, which struct-typed fields
  call, are parameters of `Env`.
-/

namespace Tyr

/-- A register value: the bits of an integer or float, or a pointer. -/
inductive Val where
  | int (n : Nat)
  | ptr (p : Ptr)
  deriving DecidableEq

def Val.asPtr : Val → Ptr
  | ptr p => p
  | int _ => .wild []

def Val.asInt : Val → Nat
  | int n => n
  | ptr _ => 0

/-- Where generated code runs. `serializeStruct t` and `deserializeStruct t` are the functions
    called for a struct-typed field of type `t`. -/
structure Env where
  alloc : Allocator
  layout : DataLayout
  getFunction : String → Option Func
  serializeStruct : Ty → Ptr → Prog Ptr
  deserializeStruct : Ty → Ptr → Prog Ptr

namespace Env

variable (E : Env)

/-! ## Typed memory access -/

/-- The bytes of a stored pointer. -/
def ptrBytes (b : Nat) (o : I64) : List Byte :=
  inOrder E.layout.bigEndian (toLE E.layout.pointerSize (E.alloc.addr b + o).toNat)

/-- The value a load of type `t` finds in `cs`. -/
def decode (t : Ty) (cs : List Cell) : Val :=
  if t.isPointerTy then .ptr (decodePtr E.layout.pointerSize cs)
  else .int (decodeInt E.ptrBytes E.layout.bigEndian cs % 2 ^ E.layout.getTypeSizeInBits t)

/-- The cells a store of type `t` writes. -/
def encode (t : Ty) : Val → List Cell
  | .int n => encodeInt E.layout.bigEndian (E.layout.storeSize t)
      (n % 2 ^ E.layout.getTypeSizeInBits t)
  | .ptr p => encodePtr E.layout.pointerSize p

def decodeI64 (cs : List Cell) : I64 :=
  BitVec.ofNat 64 (decodeInt E.ptrBytes E.layout.bigEndian cs)

def encodeI64 (n : I64) : List Cell := encodeInt E.layout.bigEndian 8 n.toNat

def loadTy (t : Ty) (p : Ptr) : Prog Val := do
  let cs ← load p (E.layout.storeSize t)
  pure (E.decode t cs)

def storeTy (t : Ty) (v : Val) (p : Ptr) : Prog Unit := store p (E.encode t v)

def loadI64 (p : Ptr) : Prog I64 := do
  let cs ← load p 8
  pure (E.decodeI64 cs)

def storeI64 (n : I64) (p : Ptr) : Prog Unit := store p (E.encodeI64 n)

/-- The zero that `CreateTruncOrBitCast(getInt64(0), t)` folds to. -/
def zero (t : Ty) : Val := if t.isPointerTy then .ptr .null else .int 0

/-! ## Utilities -/

end Env

/-- Emits a branch on the disjunction of the pointers' `IsNotNull`. -/
def insertNullCheck {α : Type} (Ptrs : List Ptr) (ReturnFail : α) (IsNotNull : Prog α) : Prog α :=
  if Ptrs.any Ptr.isNotNull then IsNotNull else pure ReturnFail

section NullCheck

variable {α : Type} {ReturnFail : α} {IsNotNull : Prog α}

theorem insertNullCheck_loc (b : Nat) (o : I64) (Ptrs : List Ptr) :
    insertNullCheck (.loc b o :: Ptrs) ReturnFail IsNotNull = IsNotNull := by
  simp [insertNullCheck]

theorem insertNullCheck_null : insertNullCheck [.null] ReturnFail IsNotNull = pure ReturnFail := by
  simp [insertNullCheck]

end NullCheck

namespace Env

variable (E : Env) (S : Struct)

/-- Byte offset of a field in the struct. -/
def fieldOffset (f : Field) : Nat := E.layout.structOffset S.packed S.elements f.offset

/-- `CreateStructGEP(Self, f->offset)` -/
def structGEP (Self : Ptr) (f : Field) : Ptr := Self.add (BitVec.ofNat 64 (E.fieldOffset S f))

/-- `CreateGEP(Array, Idx)` for elements of type `t` -/
def itemGEP (t : Ty) (Array : Ptr) (Idx : I64) : Ptr :=
  Array.add (Idx * BitVec.ofNat 64 (E.layout.allocSize t))

def getFieldAllocSize (f : Field) (Self : Ptr) : Prog I64 :=
  if f.isRepeated then
    match f.type.getPointerElementType, S.deref f.countField with
    | some t, some countField => do
      let count ← E.loadI64 (E.structGEP S Self countField)
      pure (BitVec.ofNat 64 (E.layout.allocSize t) * count)
    | _, _ => Prog.fault .invalid
  else pure (BitVec.ofNat 64 (E.layout.allocSize f.type))

def getStructAllocSize : I64 := BitVec.ofNat 64 (E.layout.structSize S.packed S.elements)

/-! ## Constructor and destructor -/

/-- Initialises one field and goes on with `Next`; a failed allocation returns NULL from the
    constructor. -/
def initField (f : Field) (Self : Ptr) (Arg : Val) (Next : Prog Ptr) : Prog Ptr :=
  if f.isMutable then do
    E.storeTy f.type (zero f.type) (E.structGEP S Self f)
    Next
  else if f.type.isPointerTy then do
    let FieldAllocSize ← E.getFieldAllocSize S f Self
    let AllocdMem ← malloc E.alloc FieldAllocSize
    insertNullCheck [AllocdMem] .null do
      memcpy AllocdMem Arg.asPtr FieldAllocSize
      E.storeTy f.type (.ptr AllocdMem) (E.structGEP S Self f)
      Next
  else do
    E.storeTy f.type Arg (E.structGEP S Self f)
    Next

/-- The arguments are those of the non-mutable fields, in field order. -/
def initFields (Self : Ptr) : List Field → List Val → Prog Ptr
  | [], _ => pure Self
  | f :: fs, args =>
    if f.isMutable then E.initField S f Self (.int 0) (initFields Self fs args)
    else match args with
      | arg :: args => E.initField S f Self arg (initFields Self fs args)
      | [] => Prog.fault .invalid

/-- `create_S` -/
def getConstructor (args : List Val) : Prog Ptr := do
  let StructOut ← malloc E.alloc (E.getStructAllocSize S)
  insertNullCheck [StructOut] .null (E.initFields S StructOut S.fields args)

def destroyField (f : Field) (Self : Ptr) : Prog Unit :=
  if f.type.isPointerTy then do
    let v ← E.loadTy f.type (E.structGEP S Self f)
    free v.asPtr
  else pure ()

def destroyFields (Self : Ptr) : List Field → Prog Unit
  | [] => pure ()
  | f :: fs => do
    E.destroyField S f Self
    destroyFields Self fs

/-- `destroy_S` -/
def getDestructor (Self : Ptr) : Prog Unit := do
  E.destroyFields S Self S.fields
  free Self

/-! ## Getters -/

/-- `get_S_f` -/
def getGetter (f : Field) (Self OutVal : Ptr) : Prog Bool :=
  insertNullCheck [Self, OutVal] false do
    let FieldLoad ← E.loadTy f.type (E.structGEP S Self f)
    if f.isStruct && !f.isMutable then do
      let SerializedField ← E.serializeStruct f.type FieldLoad.asPtr
      let DeserializedField ← E.deserializeStruct f.type SerializedField
      E.storeTy f.type (.ptr DeserializedField) OutVal
      pure true
    else if f.isRepeated && !f.isMutable then do
      let FieldAllocSize ← E.getFieldAllocSize S f Self
      let AllocdMem ← malloc E.alloc FieldAllocSize
      insertNullCheck [AllocdMem] false do
        memcpy AllocdMem FieldLoad.asPtr FieldAllocSize
        E.storeTy f.type (.ptr AllocdMem) OutVal
        pure true
    else do
      E.storeTy f.type FieldLoad OutVal
      pure true

/-- `get_S_f_item` -/
def getItemGetter (f : Field) (Self : Ptr) (IDX : I64) (OutVal : Ptr) : Prog Bool :=
  match f.type.getPointerElementType, S.deref f.countField with
  | some t, some countField =>
    insertNullCheck [Self, OutVal] false do
      let FieldLoad ← E.loadTy f.type (E.structGEP S Self f)
      let Count ← E.loadI64 (E.structGEP S Self countField)
      if IDX < Count then do
        let Item ← E.loadTy t (E.itemGEP t FieldLoad.asPtr IDX)
        E.storeTy t Item OutVal
        pure true
      else pure false
  | _, _ => Prog.fault .invalid

/-! ## Setters -/

/-- Block `SizeIsRight` of the array setter; `FinalFieldMem` is the PHI. -/
def sizeIsRight (f countField : Field) (Self ToInsert : Ptr) (NumElts : I64)
    (FinalFieldMem : Ptr) : Prog Bool := do
  E.storeI64 NumElts (E.structGEP S Self countField)
  let FieldAllocSize ← E.getFieldAllocSize S f Self
  memcpy FinalFieldMem ToInsert FieldAllocSize
  E.storeTy f.type (.ptr FinalFieldMem) (E.structGEP S Self f)
  pure true

/-- The array setter after the null check. -/
def setRepeated (f countField : Field) (Self ToInsert : Ptr) (NumElts : I64) : Prog Bool := do
  let LoadedField ← E.loadTy f.type (E.structGEP S Self f)
  if LoadedField.asPtr.isNotNull then do
    let FieldCount ← E.loadI64 (E.structGEP S Self countField)
    if FieldCount = NumElts then
      E.sizeIsRight S f countField Self ToInsert NumElts LoadedField.asPtr
    else do
      -- the new count is stored before the allocation is known to succeed
      E.storeI64 NumElts (E.structGEP S Self countField)
      let FieldAllocSize ← E.getFieldAllocSize S f Self
      let ReallocFieldMem ← realloc E.alloc LoadedField.asPtr FieldAllocSize
      insertNullCheck [ReallocFieldMem] false
        (E.sizeIsRight S f countField Self ToInsert NumElts ReallocFieldMem)
  else do
    E.storeI64 NumElts (E.structGEP S Self countField)
    let FieldAllocSize ← E.getFieldAllocSize S f Self
    let AllocdMem ← malloc E.alloc FieldAllocSize
    insertNullCheck [AllocdMem] false
      (E.sizeIsRight S f countField Self ToInsert NumElts AllocdMem)

/-- The count setter after the null check. -/
def setCount (f countsFor : Field) (Self : Ptr) (ToInsert : I64) : Prog Bool :=
  if ToInsert = 0 then pure false
  else do
    let LoadedCount ← E.loadI64 (E.structGEP S Self f)
    E.storeI64 ToInsert (E.structGEP S Self f)
    let LoadedRepeatedField ← E.loadTy countsFor.type (E.structGEP S Self countsFor)
    let FieldAllocSize ← E.getFieldAllocSize S countsFor Self
    let ReallocFieldMem ← realloc E.alloc LoadedRepeatedField.asPtr FieldAllocSize
    -- the old count is put back until the reallocation is known to have succeeded
    E.storeI64 LoadedCount (E.structGEP S Self f)
    insertNullCheck [ReallocFieldMem] false do
      E.storeTy countsFor.type (.ptr ReallocFieldMem) (E.structGEP S Self countsFor)
      E.storeI64 ToInsert (E.structGEP S Self f)
      pure true

/-- `set_S_f`. Only the array setter has the parameter `NumElts`. -/
def getSetter (f : Field) (Self : Ptr) (ToInsert : Val) (NumElts : I64) : Prog Bool :=
  insertNullCheck [Self] false
    (if f.isStruct then do
      let SerializedField ← E.serializeStruct f.type ToInsert.asPtr
      let DeserializedField ← E.deserializeStruct f.type SerializedField
      E.storeTy f.type (.ptr DeserializedField) (E.structGEP S Self f)
      pure true
    else if f.isRepeated then
      match S.deref f.countField with
      | some countField => E.setRepeated S f countField Self ToInsert.asPtr NumElts
      | none => Prog.fault .invalid
    else if f.isCount then
      match S.deref f.countsFor with
      | some countsFor => E.setCount S f countsFor Self (BitVec.ofNat 64 ToInsert.asInt)
      | none => Prog.fault .invalid
    else do
      E.storeTy f.type ToInsert (E.structGEP S Self f)
      pure true)

/-- `set_S_f_item`, which is generated for immutable arrays too. -/
def getItemSetter (f : Field) (Self : Ptr) (IDX : I64) (ValToSet : Val) : Prog Bool :=
  match f.type.getPointerElementType, S.deref f.countField with
  | some t, some countField =>
    insertNullCheck [Self] false do
      let FieldLoad ← E.loadTy f.type (E.structGEP S Self f)
      let Count ← E.loadI64 (E.structGEP S Self countField)
      if IDX < Count then do
        E.storeTy t ValToSet (E.itemGEP t FieldLoad.asPtr IDX)
        pure true
      else pure false
  | _, _ => Prog.fault .invalid

end Env

end Tyr
