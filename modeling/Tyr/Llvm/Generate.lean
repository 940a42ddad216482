import Tyr.CodeGen.Wire
import Tyr.Lib.Ssa

/-
  The functions of `LLVMIRGenPass` as the basic blocks it builds.

  Each definition makes the builder calls of the generator of the same name, in its order. What the
  generator asks of the types, of its fields and of the module it asks here too, and stops where
  the answer is missing (`fail`). Two things are left out: a bitcast, which changes no bits, is no
  instruction, and nothing is folded. `Op.eval` says what the instructions do; the functions of
  `Tyr.CodeGen` are not used.
-/

namespace Tyr

namespace Val

def i64 (n : I64) : Val := .int n.toNat

def bool (b : Bool) : Val := .int b.toNat

def asI64 (v : Val) : I64 := BitVec.ofNat 64 v.asInt

def isTrue (v : Val) : Bool := v == .int 1

@[simp] theorem asI64_i64 (n : I64) : (i64 n).asI64 = n := by simp [asI64, i64, asInt]

@[simp] theorem asI64_int (n : Nat) : (Val.int n).asI64 = BitVec.ofNat 64 n := rfl

@[simp] theorem isTrue_bool (b : Bool) : (bool b).isTrue = b := by cases b <;> rfl

@[simp] theorem asPtr_ptr (p : Ptr) : (Val.ptr p).asPtr = p := rfl

end Val

namespace Llvm

open Ssa Builder

/-! ## Instructions -/

inductive Op where
  | load (t : Ty)
  | store (t : Ty)
  /-- The address of member `idx` of a struct. -/
  | structGEP (S : Struct) (idx : Nat)
  | gep (t : Ty)
  | mul
  | add
  | icmpEQ
  | icmpULT
  | isNotNull
  | or
  | memcpy (DstAlign SrcAlign : Nat)
  /-- The intrinsic `llvm.bswap.i<bits>`. -/
  | bswap (bits : Nat)
  | call (name : String)

/-- An operation without a result has the result 0. -/
def Op.eval (E : Env) (callee : String → List Val → Nat → Part Val) :
    Op → List Val → Nat → Part Val
  | .load t, [p], _ => Part.ofProg (E.loadTy t p.asPtr)
  | .store t, [v, p], _ => Part.ofProg (do E.storeTy t v p.asPtr; pure (.int 0))
  | .structGEP S idx, [p], _ => pure (.ptr (p.asPtr.add
      (BitVec.ofNat 64 (E.layout.structOffset S.packed S.elements idx))))
  | .gep t, [p, i], _ => pure (.ptr (E.itemGEP t p.asPtr i.asI64))
  | .mul, [a, b], _ => pure (.i64 (a.asI64 * b.asI64))
  | .add, [a, b], _ => pure (.i64 (a.asI64 + b.asI64))
  | .icmpEQ, [a, b], _ => pure (.bool (a.asI64 = b.asI64))
  | .icmpULT, [a, b], _ => pure (.bool (a.asI64 < b.asI64))
  | .isNotNull, [p], _ => pure (.bool p.asPtr.isNotNull)
  | .or, [a, b], _ => pure (.bool (a.isTrue || b.isTrue))
  | .memcpy _ _, [dst, src, n], _ =>
    Part.ofProg (do Tyr.memcpy dst.asPtr src.asPtr n.asI64; pure (.int 0))
  | .bswap bits, [v], _ =>
    if bits % 16 = 0 then pure (.int (Env.bswap (bits / 8) v.asInt)) else Part.fault .invalid
  | .call name, vs, fuel => callee name vs fuel
  | _, _, _ => Part.fault .invalid

def machine (E : Env) (callee : String → List Val → Nat → Part Val) : Machine Op Val where
  eval := Op.eval E callee
  isTrue := Val.isTrue

abbrev Value := Operand Val

abbrev IRBuilder := Builder Op Val

section IRBuilder

def getInt64 (n : Nat) : Value := .const (.i64 (BitVec.ofNat 64 n))

def getInt1 (b : Bool) : Value := .const (.bool b)

def nullPointer : Value := .const (.ptr .null)

def createLoad (t : Ty) (p : Value) : IRBuilder Value := emit (.load t) [p]

def createStore (t : Ty) (v p : Value) : IRBuilder Value := emit (.store t) [v, p]

def createStructGEP (S : Struct) (p : Value) (f : Field) : IRBuilder Value :=
  emit (.structGEP S f.offset) [p]

def createGEP (t : Ty) (p i : Value) : IRBuilder Value := emit (.gep t) [p, i]

def createMul (a b : Value) : IRBuilder Value := emit .mul [a, b]

def createAdd (a b : Value) : IRBuilder Value := emit .add [a, b]

def createICmpEQ (a b : Value) : IRBuilder Value := emit .icmpEQ [a, b]

def createICmpULT (a b : Value) : IRBuilder Value := emit .icmpULT [a, b]

def createIsNotNull (p : Value) : IRBuilder Value := emit .isNotNull [p]

def createOr (a b : Value) : IRBuilder Value := emit .or [a, b]

def createMemCpy (Dst : Value) (DstAlign : Nat) (Src : Value) (SrcAlign : Nat) (Size : Value) :
    IRBuilder Value := emit (.memcpy DstAlign SrcAlign) [Dst, Src, Size]

end IRBuilder

/-- What the generators ask of the module: its layout, the names of the builtins, and whether it
    has a function of a name. -/
structure Context where
  layout : DataLayout
  malloc : String
  realloc : String
  free : String
  hasFunction : String → Bool

variable (C : Context)

/-- `CreateCall(getFunction(name), args)` -/
def createCall (name : String) (args : List Value) : IRBuilder Value :=
  if C.hasFunction name then emit (.call name) args else fail

/-! ## Utilities -/

def orNotNull (NotNull : Value) : List Value → IRBuilder Value
  | [] => pure NotNull
  | p :: ps => do
    let IsNotNull ← createIsNotNull p
    let NotNull ← createOr NotNull IsNotNull
    orNotNull NotNull ps

/-- Returns the non-null block. -/
def insertNullCheck (Ptrs : List Value) (ReturnFail : Value) (OnSuccess : Option Nat) :
    IRBuilder Nat :=
  match Ptrs with
  | [] => fail
  | p :: ps => do
    let NotNull ← createIsNotNull p
    let NotNull ← orNotNull NotNull ps
    let IsNull ← createBlock
    let IsNotNull ← match OnSuccess with
      | none => createBlock
      | some OnSuccess => pure OnSuccess
    condBr NotNull IsNotNull IsNull
    setInsertPoint IsNull
    ret ReturnFail
    pure IsNotNull

/-- A pointer cannot be cast to the integer that would be swapped. -/
def swapBytes (t : Ty) (val : Value) : IRBuilder Value :=
  if !C.layout.bigEndian then pure val
  else match t with
    | .int n => if n % 8 ≠ 0 then pure val else emit (.bswap n) [val]
    | .float => emit (.bswap (C.layout.getTypeSizeInBits .float)) [val]
    | .double => emit (.bswap (C.layout.getTypeSizeInBits .double)) [val]
    | _ => fail

/-- The loop of `swapArrayBytes`. -/
def swapLoop (t : Ty) (bits : Nat) (ArrayPtr Count : Value) : IRBuilder Unit := do
  let PrevBlock ← getInsertBlock
  let loopBlock ← createBlock
  let nextBlock ← createBlock
  br loopBlock
  setInsertPoint loopBlock
  let loopIter ← phi
  addIncoming loopIter (getInt64 0) PrevBlock
  let ElementGEP ← createGEP t ArrayPtr (.reg loopIter)
  let ArrayElement ← createLoad t ElementGEP
  let SwappedElement ← emit (.bswap bits) [ArrayElement]
  let _ ← createStore t SwappedElement ElementGEP
  let loopNextIter ← createAdd (getInt64 1) (.reg loopIter)
  let loopEnd ← createICmpEQ loopNextIter Count
  condBr loopEnd nextBlock loopBlock
  addIncoming loopIter loopNextIter loopBlock
  setInsertPoint nextBlock

def swapArrayBytes (t : Ty) (ArrayPtr Count : Value) : IRBuilder Unit :=
  if !C.layout.bigEndian then pure ()
  else match t with
    | .int n => if n % 8 ≠ 0 then pure () else swapLoop t n ArrayPtr Count
    | .float => swapLoop t (C.layout.getTypeSizeInBits .float) ArrayPtr Count
    | .double => swapLoop t (C.layout.getTypeSizeInBits .double) ArrayPtr Count
    | _ => fail

/-! ## Constructor and destructor -/

variable (S : Struct)

def getFieldAllocSize (f : Field) (Self : Value) : IRBuilder Value :=
  if f.isRepeated then
    match f.type.getPointerElementType, S.deref f.countField with
    | some t, some countField => do
      let CountGEP ← createStructGEP S Self countField
      let Count ← createLoad countField.type CountGEP
      createMul (getInt64 (C.layout.allocSize t)) Count
    | _, _ => fail
  else pure (getInt64 (C.layout.allocSize f.type))

/-- Returns whether there was an argument where one is needed. -/
def initField (f : Field) (Self : Value) (Arg : Option Value) : IRBuilder Bool :=
  if f.isMutable then do
    let FieldGEP ← createStructGEP S Self f
    let _ ← createStore f.type (.const (Env.zero f.type)) FieldGEP
    pure true
  else match Arg with
    | none => pure false
    | some Arg =>
      if f.type.isPointerTy then do
        let FieldAllocSize ← getFieldAllocSize C S f Self
        let AllocdMem ← createCall C C.malloc [FieldAllocSize]
        let AllocSucceeded ← insertNullCheck [AllocdMem] nullPointer none
        setInsertPoint AllocSucceeded
        let FieldAlignment := C.layout.getABITypeAlignment f.type
        let _ ← createMemCpy AllocdMem FieldAlignment Arg FieldAlignment FieldAllocSize
        let FieldGEP ← createStructGEP S Self f
        let _ ← createStore f.type AllocdMem FieldGEP
        pure true
      else do
        let FieldGEP ← createStructGEP S Self f
        let _ ← createStore f.type Arg FieldGEP
        pure true

/-- The loop of `getConstructor`; `ArgIter` is the number of the next argument. -/
def initFields (Self : Value) : List Field → Nat → IRBuilder Unit
  | [], _ => pure ()
  | entry :: rest, ArgIter =>
    if !entry.isMutable then do
      let _ ← initField C S entry Self (some (.arg ArgIter))
      initFields Self rest (ArgIter + 1)
    else do
      let _ ← initField C S entry Self none
      initFields Self rest ArgIter

def getConstructor : IRBuilder Unit := do
  let StructOut ← createCall C C.malloc
    [getInt64 (C.layout.structSize S.packed S.elements)]
  let MallocSuccess ← insertNullCheck [StructOut] nullPointer none
  setInsertPoint MallocSuccess
  initFields C S StructOut S.fields 0
  ret StructOut

def destroyField (f : Field) (Self : Value) : IRBuilder Unit := do
  let FieldGEP ← createStructGEP S Self f
  if f.type.isPointerTy then do
    let FieldLoad ← createLoad f.type FieldGEP
    let _ ← createCall C C.free [FieldLoad]
    pure ()
  else pure ()

def destroyFields (Self : Value) : List Field → IRBuilder Unit
  | [] => pure ()
  | entry :: rest => do
    destroyField C S entry Self
    destroyFields Self rest

/-- A function without a result returns 0. -/
def getDestructor : IRBuilder Unit := do
  destroyFields C S (.arg 0) S.fields
  let _ ← createCall C C.free [.arg 0]
  ret (.const (.int 0))

/-! ## Getters -/

/-- The call of another struct's `serialize_<name>`. The type asked for its struct's name is the
    field's. -/
def callSerializer (t : Ty) (p : Value) : IRBuilder Value :=
  match t.getStructName with
  | some name => createCall C ("serialize_" ++ name) [p]
  | none => fail

def callDeserializer (t : Ty) (p : Value) : IRBuilder Value :=
  match t.getStructName with
  | some name => createCall C ("deserialize_" ++ name) [p]
  | none => fail

def getGetter (f : Field) : IRBuilder Unit := do
  let Self := .arg 0
  let OutVal := .arg 1
  let SelfIsNotNull ← insertNullCheck [Self, OutVal] (getInt1 false) none
  setInsertPoint SelfIsNotNull
  let FieldGEP ← createStructGEP S Self f
  let FieldLoad ← createLoad f.type FieldGEP
  if f.isStruct && !f.isMutable then do
    let SerializedField ← callSerializer C f.type FieldLoad
    let DeserializedField ← callDeserializer C f.type SerializedField
    let _ ← createStore f.type DeserializedField OutVal
    ret (getInt1 true)
  else if f.isRepeated && !f.isMutable then do
    let FieldAllocSize ← getFieldAllocSize C S f Self
    let AllocdMem ← createCall C C.malloc [FieldAllocSize]
    let AllocSucceeded ← insertNullCheck [AllocdMem] (getInt1 false) none
    setInsertPoint AllocSucceeded
    let FieldAlignment := C.layout.getABITypeAlignment f.type
    let _ ← createMemCpy AllocdMem FieldAlignment FieldLoad FieldAlignment FieldAllocSize
    let _ ← createStore f.type AllocdMem OutVal
    ret (getInt1 true)
  else do
    let _ ← createStore f.type FieldLoad OutVal
    ret (getInt1 true)

def getItemGetter (f : Field) : IRBuilder Unit :=
  match f.type.getPointerElementType, S.deref f.countField with
  | some t, some countField => do
    let Self := .arg 0
    let IDX := .arg 1
    let OutVal := .arg 2
    let SelfIsNotNull ← insertNullCheck [Self, OutVal] (getInt1 false) none
    setInsertPoint SelfIsNotNull
    let FieldGEP ← createStructGEP S Self f
    let FieldLoad ← createLoad f.type FieldGEP
    let CountGEP ← createStructGEP S Self countField
    let Count ← createLoad countField.type CountGEP
    let OutOfBounds ← createBlock
    let InBounds ← createBlock
    let IsInBounds ← createICmpULT IDX Count
    condBr IsInBounds InBounds OutOfBounds
    setInsertPoint OutOfBounds
    ret (getInt1 false)
    setInsertPoint InBounds
    let ItemGEP ← createGEP t FieldLoad IDX
    let Item ← createLoad t ItemGEP
    let _ ← createStore t Item OutVal
    ret (getInt1 true)
  | _, _ => fail

/-! ## Setters -/

/-- `getSetter` for a struct-typed field, after the null check. -/
def setStruct (f : Field) (ToInsert FieldGEP : Value) : IRBuilder Unit := do
  let SerializedField ← callSerializer C f.type ToInsert
  let DeserializedField ← callDeserializer C f.type SerializedField
  let _ ← createStore f.type DeserializedField FieldGEP
  ret (getInt1 true)

/-- Block `SizeIsRight` of `getSetter` for an array, which is entered from three others. -/
def sizeIsRight (f countField : Field) (Self ToInsert NumElts FieldGEP PtrFieldCount : Value)
    (SizeIsRight : Nat) (AllocdMem : Value) (FieldIsNull : Nat) (LoadedField : Value)
    (CheckSize : Nat) (ReallocFieldMem : Value) (SizeIsWrong : Nat) : IRBuilder Unit := do
  setInsertPoint SizeIsRight
  let FinalFieldMem ← phi
  addIncoming FinalFieldMem AllocdMem FieldIsNull
  addIncoming FinalFieldMem LoadedField CheckSize
  addIncoming FinalFieldMem ReallocFieldMem SizeIsWrong
  let _ ← createStore countField.type NumElts PtrFieldCount
  let FieldAllocSize ← getFieldAllocSize C S f Self
  let FieldAlignment := C.layout.getABITypeAlignment f.type
  let _ ← createMemCpy (.reg FinalFieldMem) FieldAlignment ToInsert FieldAlignment FieldAllocSize
  let _ ← createStore f.type (.reg FinalFieldMem) FieldGEP
  ret (getInt1 true)

/-- `getSetter` for an array, after the null check. -/
def setRepeated (f countField : Field) (Self ToInsert NumElts FieldGEP : Value) :
    IRBuilder Unit := do
  let PtrFieldCount ← createStructGEP S Self countField
  let LoadedField ← createLoad f.type FieldGEP
  let FieldNotNull ← createIsNotNull LoadedField
  let FieldIsNull ← createBlock
  let CheckSize ← createBlock
  condBr FieldNotNull CheckSize FieldIsNull
  setInsertPoint FieldIsNull
  let _ ← createStore countField.type NumElts PtrFieldCount
  let FieldAllocSize ← getFieldAllocSize C S f Self
  let AllocdMem ← createCall C C.malloc [FieldAllocSize]
  let SizeIsRight ← insertNullCheck [AllocdMem] (getInt1 false) none
  setInsertPoint CheckSize
  let FieldCount ← createLoad countField.type PtrFieldCount
  let SizeMatches ← createICmpEQ FieldCount NumElts
  let SizeIsWrong ← createBlock
  condBr SizeMatches SizeIsRight SizeIsWrong
  setInsertPoint SizeIsWrong
  let _ ← createStore countField.type NumElts PtrFieldCount
  let FieldAllocSize ← getFieldAllocSize C S f Self
  let ReallocFieldMem ← createCall C C.realloc [LoadedField, FieldAllocSize]
  let _ ← insertNullCheck [ReallocFieldMem] (getInt1 false) (some SizeIsRight)
  sizeIsRight C S f countField Self ToInsert NumElts FieldGEP PtrFieldCount SizeIsRight AllocdMem
    FieldIsNull LoadedField CheckSize ReallocFieldMem SizeIsWrong

/-- `getSetter` for a count, after the null check. -/
def setCount (f countsFor : Field) (Self ToInsert FieldGEP : Value) : IRBuilder Unit := do
  let NewSizeIsZero ← createBlock
  let NewSizeIsNotZero ← createBlock
  let InputSizeIsZero ← createICmpEQ ToInsert (getInt64 0)
  condBr InputSizeIsZero NewSizeIsZero NewSizeIsNotZero
  setInsertPoint NewSizeIsZero
  ret (getInt1 false)
  setInsertPoint NewSizeIsNotZero
  let LoadedCount ← createLoad f.type FieldGEP
  let _ ← createStore f.type ToInsert FieldGEP
  let RepeatedFieldGEP ← createStructGEP S Self countsFor
  let LoadedRepeatedField ← createLoad countsFor.type RepeatedFieldGEP
  let FieldAllocSize ← getFieldAllocSize C S countsFor Self
  let ReallocFieldMem ← createCall C C.realloc [LoadedRepeatedField, FieldAllocSize]
  let _ ← createStore f.type LoadedCount FieldGEP
  let SizeIsRight ← createBlock
  let _ ← insertNullCheck [ReallocFieldMem] (getInt1 false) (some SizeIsRight)
  setInsertPoint SizeIsRight
  let _ ← createStore countsFor.type ReallocFieldMem RepeatedFieldGEP
  let _ ← createStore f.type ToInsert FieldGEP
  ret (getInt1 true)

def getSetter (f : Field) : IRBuilder Unit := do
  let Self := .arg 0
  let ToInsert := .arg 1
  let SelfIsNotNull ← insertNullCheck [Self] (getInt1 false) none
  setInsertPoint SelfIsNotNull
  let FieldGEP ← createStructGEP S Self f
  if f.isStruct then
    setStruct C f ToInsert FieldGEP
  else if f.isRepeated then
    match S.deref f.countField with
    | some countField => setRepeated C S f countField Self ToInsert (.arg 2) FieldGEP
    | none => fail
  else if f.isCount then
    match S.deref f.countsFor with
    | some countsFor => setCount C S f countsFor Self ToInsert FieldGEP
    | none => fail
  else do
    let _ ← createStore f.type ToInsert FieldGEP
    ret (getInt1 true)

def getItemSetter (f : Field) : IRBuilder Unit :=
  match f.type.getPointerElementType, S.deref f.countField with
  | some t, some countField => do
    let Self := .arg 0
    let IDX := .arg 1
    let SelfIsNotNull ← insertNullCheck [Self] (getInt1 false) none
    setInsertPoint SelfIsNotNull
    let FieldGEP ← createStructGEP S Self f
    let FieldLoad ← createLoad f.type FieldGEP
    let CountGEP ← createStructGEP S Self countField
    let Count ← createLoad countField.type CountGEP
    let OutOfBounds ← createBlock
    let InBounds ← createBlock
    let IsInBounds ← createICmpULT IDX Count
    condBr IsInBounds InBounds OutOfBounds
    setInsertPoint OutOfBounds
    ret (getInt1 false)
    let ValToSet := .arg 2
    setInsertPoint InBounds
    let ItemGEP ← createGEP t FieldLoad IDX
    let _ ← createStore t ValToSet ItemGEP
    ret (getInt1 true)
  | _, _ => fail

/-! ## Field functions -/

def fieldSerializer (f : Field) : IRBuilder Unit := do
  let Self := .arg 0
  let OutBuf := .arg 1
  let IsNotNull ← insertNullCheck [Self, OutBuf] (getInt64 0) none
  setInsertPoint IsNotNull
  let FieldGEP ← createStructGEP S Self f
  let FieldData ← createLoad f.type FieldGEP
  let CurrentPtr ← createGEP (.int 8) OutBuf (getInt64 0)
  if f.isStruct then do
    let SerializedField ← callSerializer C f.type FieldData
    let OutSize ← createLoad (.int 64) SerializedField
    let _ ← createMemCpy CurrentPtr 0 SerializedField 0 OutSize
    let _ ← createCall C C.free [SerializedField]
    ret OutSize
  else if f.isRepeated then
    match f.type.getPointerElementType, S.deref f.countField with
    | some t, some countField => do
      let CountGEP ← createStructGEP S Self countField
      let Count ← createLoad countField.type CountGEP
      let SwappedCount ← swapBytes C countField.type Count
      let _ ← createStore countField.type SwappedCount CurrentPtr
      let OutSize ← getFieldAllocSize C S countField Self
      let CurrentPtr ← createGEP (.int 8) OutBuf OutSize
      let PtrFieldAllocSize ← getFieldAllocSize C S f Self
      let FieldAlignment := C.layout.getABITypeAlignment f.type
      let _ ← createMemCpy CurrentPtr 0 FieldData FieldAlignment PtrFieldAllocSize
      swapArrayBytes C t CurrentPtr Count
      let OutSize ← createAdd OutSize PtrFieldAllocSize
      ret OutSize
    | _, _ => fail
  else do
    let SwappedData ← swapBytes C f.type FieldData
    let OutSize ← getFieldAllocSize C S f Self
    let _ ← createStore f.type SwappedData CurrentPtr
    ret OutSize

def fieldDeserializer (f : Field) : IRBuilder Unit := do
  let Self := .arg 0
  let InBuf := .arg 1
  let IsNotNull ← insertNullCheck [Self, InBuf] (getInt64 0) none
  setInsertPoint IsNotNull
  let CurrentPtr ← createGEP (.int 8) InBuf (getInt64 0)
  if f.isStruct then do
    let Field ← callDeserializer C f.type CurrentPtr
    let FieldGEP ← createStructGEP S Self f
    let _ ← createStore f.type Field FieldGEP
    let OutSize ← createLoad (.int 64) CurrentPtr
    ret OutSize
  else if f.type.isPointerTy then
    match f.type.getPointerElementType, S.deref f.countField with
    | some t, some countField => do
      let SwappedCount ← createLoad countField.type CurrentPtr
      let Count ← swapBytes C countField.type SwappedCount
      let CountGEP ← createStructGEP S Self countField
      let _ ← createStore countField.type Count CountGEP
      let OutSize ← getFieldAllocSize C S countField Self
      let CurrentPtr ← createGEP (.int 8) InBuf OutSize
      let PtrFieldAllocSize ← getFieldAllocSize C S f Self
      let FieldMem ← createCall C C.malloc [PtrFieldAllocSize]
      let MallocSucceeded ← insertNullCheck [FieldMem] (getInt64 0) none
      setInsertPoint MallocSucceeded
      let FieldAlignment := C.layout.getABITypeAlignment f.type
      let _ ← createMemCpy FieldMem FieldAlignment CurrentPtr 0 PtrFieldAllocSize
      swapArrayBytes C t FieldMem Count
      let FieldGEP ← createStructGEP S Self f
      let _ ← createStore f.type FieldMem FieldGEP
      let OutSize ← createAdd OutSize PtrFieldAllocSize
      ret OutSize
    | _, _ => fail
  else do
    let Loaded ← createLoad f.type CurrentPtr
    let FieldData ← swapBytes C f.type Loaded
    let OutSize ← getFieldAllocSize C S f Self
    let FieldGEP ← createStructGEP S Self f
    let _ ← createStore f.type FieldData FieldGEP
    ret OutSize

/-! ## Struct functions -/

def sumAllocSizes (Self : Value) : List Field → Value → IRBuilder Value
  | [], AllocSize => pure AllocSize
  | entry :: rest, AllocSize => do
    let FieldAllocSize ← getFieldAllocSize C S entry Self
    let AllocSize ← createAdd AllocSize FieldAllocSize
    sumAllocSizes Self rest AllocSize

def serializeEntries (Self AllocdMem : Value) : List Field → Value → IRBuilder Unit
  | [], _ => pure ()
  | entry :: rest, CurrentIDX =>
    if entry.isCount then serializeEntries Self AllocdMem rest CurrentIDX
    else do
      let CurrentPtr ← createGEP (.int 8) AllocdMem CurrentIDX
      let OutSize ← createCall C (getSerializerName entry) [Self, CurrentPtr]
      let CurrentIDX ← createAdd CurrentIDX OutSize
      serializeEntries Self AllocdMem rest CurrentIDX

def getSerializer : IRBuilder Unit := do
  let Self := .arg 0
  let IsNotNull ← insertNullCheck [Self] nullPointer none
  setInsertPoint IsNotNull
  let AllocSize ← sumAllocSizes C S Self S.fields (getInt64 8)
  let AllocdMem ← createCall C C.malloc [AllocSize]
  let MallocSucceeded ← insertNullCheck [AllocdMem] nullPointer none
  setInsertPoint MallocSucceeded
  let SwappedSize ← swapBytes C (.int 64) AllocSize
  let _ ← createStore (.int 64) SwappedSize AllocdMem
  serializeEntries C Self AllocdMem S.fields (getInt64 8)
  ret AllocdMem

def deserializeEntries (SerializedSelf StructOut : Value) : List Field → Value → IRBuilder Unit
  | [], _ => pure ()
  | entry :: rest, CurrentIDX =>
    if entry.isCount then deserializeEntries SerializedSelf StructOut rest CurrentIDX
    else do
      let CurrentPtr ← createGEP (.int 8) SerializedSelf CurrentIDX
      let OutSize ← createCall C (getDeserializerName entry) [StructOut, CurrentPtr]
      let CurrentIDX ← createAdd CurrentIDX OutSize
      deserializeEntries SerializedSelf StructOut rest CurrentIDX

def getDeserializer : IRBuilder Unit := do
  let SerializedSelf := .arg 0
  let Header ← createLoad (.int 64) SerializedSelf
  let SerializedSize ← swapBytes C (.int 64) Header
  let IsNotNull ← insertNullCheck [SerializedSelf] nullPointer none
  setInsertPoint IsNotNull
  let StructOut ← createCall C C.malloc
    [getInt64 (C.layout.structSize S.packed S.elements)]
  let MallocSucceeded ← insertNullCheck [StructOut] nullPointer none
  setInsertPoint MallocSucceeded
  deserializeEntries C SerializedSelf StructOut S.fields (getInt64 8)
  let AllocSize ← sumAllocSizes C S StructOut S.fields (getInt64 8)
  let CheckSize ← createICmpEQ SerializedSize AllocSize
  let SizeIsRight ← createBlock
  let SizeIsWrong ← createBlock
  condBr CheckSize SizeIsRight SizeIsWrong
  setInsertPoint SizeIsWrong
  ret nullPointer
  setInsertPoint SizeIsRight
  ret StructOut

/-- The body of a function. -/
def body : Func → IRBuilder Unit
  | .getter f => getGetter C S f
  | .itemGetter f => getItemGetter S f
  | .setter f => getSetter C S f
  | .itemSetter f => getItemSetter S f
  | .fieldSerializer f => fieldSerializer C S f
  | .fieldDeserializer f => fieldDeserializer C S f
  | .constructor T => getConstructor C T
  | .serializer T => getSerializer C T
  | .deserializer T => getDeserializer C T
  | .destructor T => getDestructor C T

end Llvm

end Tyr
