import Tyr.CodeGen.Slots
import Tyr.Lib.Traced

/-
  The generated functions with the alignment of every load, store and memcpy.

  The bodies are those of `Accessors` and `Wire`, with the events recorded that an instruction
  and its alignment are: a load or store that is built without one carries the ABI alignment of
  its value's type, `CreateMemCpy` the two alignments it is given, 0 for none. What
  `serialize_S` and `deserialize_S` do themselves, and the functions of other structs, is not
  recorded. `erase_getConstructor` and so on: without the record these are the same functions.
-/

namespace Tyr

open Prog Traced

/-- A pointer that is loaded from, stored to or copied, and the alignment claimed for it. -/
structure Access where
  ptr : Ptr
  align : Nat
  deriving DecidableEq

namespace Env

variable (E : Env)

/-- The address a pointer stands for. -/
def address : Ptr → Nat
  | .null => 0
  | .loc b o => (E.alloc.addr b + o).toNat
  | .wild raw => decodeInt E.ptrBytes E.layout.bigEndian raw

/-- The address is as aligned as the instruction says. -/
def Meets (a : Access) : Prop := a.align = 0 ∨ a.align ∣ E.address a.ptr

instance : DecidablePred E.Meets := fun a =>
  inferInstanceAs (Decidable (a.align = 0 ∨ a.align ∣ E.address a.ptr))

end Env

namespace Emitted

variable (E : Env) (S : Struct)

/-! ## Instructions -/

/-- `CreateLoad` -/
def loadTy (t : Ty) (p : Ptr) : Traced Access Val := do
  record ⟨p, E.layout.getABITypeAlignment t⟩
  quiet (E.loadTy t p)

/-- `CreateStore` -/
def storeTy (t : Ty) (v : Val) (p : Ptr) : Traced Access Unit := do
  record ⟨p, E.layout.getABITypeAlignment t⟩
  quiet (E.storeTy t v p)

def loadI64 (p : Ptr) : Traced Access I64 := do
  record ⟨p, E.layout.getABITypeAlignment (.int 64)⟩
  quiet (E.loadI64 p)

def storeI64 (n : I64) (p : Ptr) : Traced Access Unit := do
  record ⟨p, E.layout.getABITypeAlignment (.int 64)⟩
  quiet (E.storeI64 n p)

/-- `CreateMemCpy` -/
def memcpy (Dst : Ptr) (DstAlign : Nat) (Src : Ptr) (SrcAlign : Nat) (n : I64) :
    Traced Access Unit := do
  record ⟨Dst, DstAlign⟩
  record ⟨Src, SrcAlign⟩
  quiet (Tyr.memcpy Dst Src n)

def insertNullCheck {α : Type} (Ptrs : List Ptr) (ReturnFail : α) (IsNotNull : Traced Access α) :
    Traced Access α :=
  if Ptrs.any Ptr.isNotNull then IsNotNull else pure ReturnFail

def getFieldAllocSize (f : Field) (Self : Ptr) : Traced Access I64 :=
  if f.isRepeated then
    match f.type.getPointerElementType, S.deref f.countField with
    | some t, some countField => do
      let count ← loadI64 E (E.structGEP S Self countField)
      pure (BitVec.ofNat 64 (E.layout.allocSize t) * count)
    | _, _ => quiet (Prog.fault .invalid)
  else pure (BitVec.ofNat 64 (E.layout.allocSize f.type))

/-! ## Constructor -/

def initField (f : Field) (Self : Ptr) (Arg : Val) (Next : Traced Access Ptr) :
    Traced Access Ptr :=
  if f.isMutable then do
    storeTy E f.type (Env.zero f.type) (E.structGEP S Self f)
    Next
  else if f.type.isPointerTy then do
    let FieldAllocSize ← getFieldAllocSize E S f Self
    let AllocdMem ← quiet (malloc E.alloc FieldAllocSize)
    insertNullCheck [AllocdMem] .null do
      -- the alignment of the pointer, not of what it points at
      let FieldAlignment := E.layout.getABITypeAlignment f.type
      memcpy AllocdMem FieldAlignment Arg.asPtr FieldAlignment FieldAllocSize
      storeTy E f.type (.ptr AllocdMem) (E.structGEP S Self f)
      Next
  else do
    storeTy E f.type Arg (E.structGEP S Self f)
    Next

def initFields (Self : Ptr) : List Field → List Val → Traced Access Ptr
  | [], _ => pure Self
  | f :: fs, args =>
    if f.isMutable then initField E S f Self (.int 0) (initFields Self fs args)
    else match args with
      | arg :: args => initField E S f Self arg (initFields Self fs args)
      | [] => quiet (Prog.fault .invalid)

theorem initFields_cons (arg : Field → Val) (f : Field) (rest : List Field) (Self : Ptr) :
    initFields E S Self (f :: rest) (((f :: rest).filter (! ·.isMutable)).map arg) =
      initField E S f Self (if f.isMutable then .int 0 else arg f)
        (initFields E S Self rest ((rest.filter (! ·.isMutable)).map arg)) := by
  cases hm : f.isMutable <;> simp [initFields, hm]

/-- `create_S` -/
def getConstructor (args : List Val) : Traced Access Ptr := do
  let StructOut ← quiet (malloc E.alloc (E.getStructAllocSize S))
  insertNullCheck [StructOut] .null (initFields E S StructOut S.fields args)

/-! ## Getters -/

/-- `get_S_f` -/
def getGetter (f : Field) (Self OutVal : Ptr) : Traced Access Bool :=
  insertNullCheck [Self, OutVal] false do
    let FieldLoad ← loadTy E f.type (E.structGEP S Self f)
    if f.isStruct && !f.isMutable then do
      let SerializedField ← quiet (E.serializeStruct f.type FieldLoad.asPtr)
      let DeserializedField ← quiet (E.deserializeStruct f.type SerializedField)
      storeTy E f.type (.ptr DeserializedField) OutVal
      pure true
    else if f.isRepeated && !f.isMutable then do
      let FieldAllocSize ← getFieldAllocSize E S f Self
      let AllocdMem ← quiet (malloc E.alloc FieldAllocSize)
      insertNullCheck [AllocdMem] false do
        let FieldAlignment := E.layout.getABITypeAlignment f.type
        memcpy AllocdMem FieldAlignment FieldLoad.asPtr FieldAlignment FieldAllocSize
        storeTy E f.type (.ptr AllocdMem) OutVal
        pure true
    else do
      storeTy E f.type FieldLoad OutVal
      pure true

/-- `get_S_f_item` -/
def getItemGetter (f : Field) (Self : Ptr) (IDX : I64) (OutVal : Ptr) : Traced Access Bool :=
  match f.type.getPointerElementType, S.deref f.countField with
  | some t, some countField =>
    insertNullCheck [Self, OutVal] false do
      let FieldLoad ← loadTy E f.type (E.structGEP S Self f)
      let Count ← loadI64 E (E.structGEP S Self countField)
      if IDX < Count then do
        let Item ← loadTy E t (E.itemGEP t FieldLoad.asPtr IDX)
        storeTy E t Item OutVal
        pure true
      else pure false
  | _, _ => quiet (Prog.fault .invalid)

/-! ## Setters -/

def sizeIsRight (f countField : Field) (Self ToInsert : Ptr) (NumElts : I64)
    (FinalFieldMem : Ptr) : Traced Access Bool := do
  storeI64 E NumElts (E.structGEP S Self countField)
  let FieldAllocSize ← getFieldAllocSize E S f Self
  let FieldAlignment := E.layout.getABITypeAlignment f.type
  memcpy FinalFieldMem FieldAlignment ToInsert FieldAlignment FieldAllocSize
  storeTy E f.type (.ptr FinalFieldMem) (E.structGEP S Self f)
  pure true

def setRepeated (f countField : Field) (Self ToInsert : Ptr) (NumElts : I64) :
    Traced Access Bool := do
  let LoadedField ← loadTy E f.type (E.structGEP S Self f)
  if LoadedField.asPtr.isNotNull then do
    let FieldCount ← loadI64 E (E.structGEP S Self countField)
    if FieldCount = NumElts then
      sizeIsRight E S f countField Self ToInsert NumElts LoadedField.asPtr
    else do
      storeI64 E NumElts (E.structGEP S Self countField)
      let FieldAllocSize ← getFieldAllocSize E S f Self
      let ReallocFieldMem ← quiet (realloc E.alloc LoadedField.asPtr FieldAllocSize)
      insertNullCheck [ReallocFieldMem] false
        (sizeIsRight E S f countField Self ToInsert NumElts ReallocFieldMem)
  else do
    storeI64 E NumElts (E.structGEP S Self countField)
    let FieldAllocSize ← getFieldAllocSize E S f Self
    let AllocdMem ← quiet (malloc E.alloc FieldAllocSize)
    insertNullCheck [AllocdMem] false
      (sizeIsRight E S f countField Self ToInsert NumElts AllocdMem)

def setCount (f countsFor : Field) (Self : Ptr) (ToInsert : I64) : Traced Access Bool :=
  if ToInsert = 0 then pure false
  else do
    let LoadedCount ← loadI64 E (E.structGEP S Self f)
    storeI64 E ToInsert (E.structGEP S Self f)
    let LoadedRepeatedField ← loadTy E countsFor.type (E.structGEP S Self countsFor)
    let FieldAllocSize ← getFieldAllocSize E S countsFor Self
    let ReallocFieldMem ← quiet (realloc E.alloc LoadedRepeatedField.asPtr FieldAllocSize)
    storeI64 E LoadedCount (E.structGEP S Self f)
    insertNullCheck [ReallocFieldMem] false do
      storeTy E countsFor.type (.ptr ReallocFieldMem) (E.structGEP S Self countsFor)
      storeI64 E ToInsert (E.structGEP S Self f)
      pure true

/-- `set_S_f` -/
def getSetter (f : Field) (Self : Ptr) (ToInsert : Val) (NumElts : I64) : Traced Access Bool :=
  insertNullCheck [Self] false
    (if f.isStruct then do
      let SerializedField ← quiet (E.serializeStruct f.type ToInsert.asPtr)
      let DeserializedField ← quiet (E.deserializeStruct f.type SerializedField)
      storeTy E f.type (.ptr DeserializedField) (E.structGEP S Self f)
      pure true
    else if f.isRepeated then
      match S.deref f.countField with
      | some countField => setRepeated E S f countField Self ToInsert.asPtr NumElts
      | none => quiet (Prog.fault .invalid)
    else if f.isCount then
      match S.deref f.countsFor with
      | some countsFor => setCount E S f countsFor Self (BitVec.ofNat 64 ToInsert.asInt)
      | none => quiet (Prog.fault .invalid)
    else do
      storeTy E f.type ToInsert (E.structGEP S Self f)
      pure true)

/-- `set_S_f_item` -/
def getItemSetter (f : Field) (Self : Ptr) (IDX : I64) (ValToSet : Val) : Traced Access Bool :=
  match f.type.getPointerElementType, S.deref f.countField with
  | some t, some countField =>
    insertNullCheck [Self] false do
      let FieldLoad ← loadTy E f.type (E.structGEP S Self f)
      let Count ← loadI64 E (E.structGEP S Self countField)
      if IDX < Count then do
        storeTy E t ValToSet (E.itemGEP t FieldLoad.asPtr IDX)
        pure true
      else pure false
  | _, _ => quiet (Prog.fault .invalid)

/-! ## Serializers and deserializers -/

def swapLoop (t : Ty) (ArrayPtr : Ptr) (Count loopIter : I64) : Traced Access Unit := do
  let val ← loadTy E t (E.itemGEP t ArrayPtr loopIter)
  let swapped ← quiet (E.swapBytes t val)
  storeTy E t swapped (E.itemGEP t ArrayPtr loopIter)
  if _h : loopIter + 1 = Count then pure ()
  else swapLoop t ArrayPtr Count (loopIter + 1)
termination_by (Count - 1 - loopIter).toNat
decreasing_by bv_omega

def swapArrayBytes (t : Ty) (ArrayPtr : Ptr) (Count : I64) : Traced Access Unit :=
  if !E.layout.bigEndian then pure ()
  else match t with
    | .int n => if n % 8 ≠ 0 then pure () else swapLoop E t ArrayPtr Count 0
    | _ => swapLoop E t ArrayPtr Count 0

/-- `__serialize_S_f` -/
def fieldSerializer (f : Field) (Self OutBuf : Ptr) : Traced Access I64 :=
  insertNullCheck [Self, OutBuf] 0 do
    let FieldData ← loadTy E f.type (E.structGEP S Self f)
    if f.isStruct then do
      let SerializedField ← quiet (E.serializeStruct f.type FieldData.asPtr)
      let OutSize ← loadI64 E SerializedField
      memcpy OutBuf 0 SerializedField 0 OutSize
      quiet (free SerializedField)
      pure OutSize
    else if f.isRepeated then
      match f.type.getPointerElementType, S.deref f.countField with
      | some t, some countField => do
        let Count ← loadI64 E (E.structGEP S Self countField)
        storeI64 E (E.swapI64 Count) OutBuf
        let OutSize ← getFieldAllocSize E S countField Self
        let PtrFieldAllocSize ← getFieldAllocSize E S f Self
        memcpy (OutBuf.add OutSize) 0 FieldData.asPtr (E.layout.getABITypeAlignment f.type)
          PtrFieldAllocSize
        swapArrayBytes E t (OutBuf.add OutSize) Count
        pure (OutSize + PtrFieldAllocSize)
      | _, _ => quiet (Prog.fault .invalid)
    else do
      let SwappedData ← quiet (E.swapBytes f.type FieldData)
      let OutSize ← getFieldAllocSize E S f Self
      storeTy E f.type SwappedData OutBuf
      pure OutSize

/-- `__deserialize_S_f` -/
def fieldDeserializer (f : Field) (Self InBuf : Ptr) : Traced Access I64 :=
  insertNullCheck [Self, InBuf] 0
    (if f.isStruct then do
      let Field ← quiet (E.deserializeStruct f.type InBuf)
      storeTy E f.type (.ptr Field) (E.structGEP S Self f)
      loadI64 E InBuf
    else if f.type.isPointerTy then
      match f.type.getPointerElementType, S.deref f.countField with
      | some t, some countField => do
        let SwappedCount ← loadI64 E InBuf
        let Count := E.swapI64 SwappedCount
        storeI64 E Count (E.structGEP S Self countField)
        let OutSize ← getFieldAllocSize E S countField Self
        let PtrFieldAllocSize ← getFieldAllocSize E S f Self
        let FieldMem ← quiet (malloc E.alloc PtrFieldAllocSize)
        insertNullCheck [FieldMem] 0 do
          memcpy FieldMem (E.layout.getABITypeAlignment f.type) (InBuf.add OutSize) 0
            PtrFieldAllocSize
          swapArrayBytes E t FieldMem Count
          storeTy E f.type (.ptr FieldMem) (E.structGEP S Self f)
          pure (OutSize + PtrFieldAllocSize)
      | _, _ => quiet (Prog.fault .invalid)
    else do
      let Loaded ← loadTy E f.type InBuf
      let FieldData ← quiet (E.swapBytes f.type Loaded)
      let OutSize ← getFieldAllocSize E S f Self
      storeTy E f.type FieldData (E.structGEP S Self f)
      pure OutSize)

def serializeEntries (Self AllocdMem : Ptr) : List Field → I64 → Traced Access I64
  | [], CurrentIDX => pure CurrentIDX
  | entry :: rest, CurrentIDX =>
    if entry.isCount then serializeEntries Self AllocdMem rest CurrentIDX
    else match E.getFunction (getSerializerName entry) with
      | some (.fieldSerializer f) => do
        let OutSize ← fieldSerializer E S f Self (AllocdMem.add CurrentIDX)
        serializeEntries Self AllocdMem rest (CurrentIDX + OutSize)
      | _ => quiet (Prog.fault .invalid)

def serializeWithIDX (Self : Ptr) : Traced Access (Ptr × I64) :=
  insertNullCheck [Self] (.null, 0) do
    let AllocSize ← quiet (E.sumAllocSizes S Self S.fields 8)
    let AllocdMem ← quiet (malloc E.alloc AllocSize)
    insertNullCheck [AllocdMem] (.null, 0) do
      quiet (E.storeI64 (E.swapI64 AllocSize) AllocdMem)
      let CurrentIDX ← serializeEntries E S Self AllocdMem S.fields 8
      pure (AllocdMem, CurrentIDX)

/-- `serialize_S` -/
def getSerializer (Self : Ptr) : Traced Access Ptr := do
  let (AllocdMem, _) ← serializeWithIDX E S Self
  pure AllocdMem

def deserializeEntries (SerializedSelf StructOut : Ptr) : List Field → I64 → Traced Access I64
  | [], CurrentIDX => pure CurrentIDX
  | entry :: rest, CurrentIDX =>
    if entry.isCount then deserializeEntries SerializedSelf StructOut rest CurrentIDX
    else match E.getFunction (getDeserializerName entry) with
      | some (.fieldDeserializer f) => do
        let OutSize ← fieldDeserializer E S f StructOut (SerializedSelf.add CurrentIDX)
        deserializeEntries SerializedSelf StructOut rest (CurrentIDX + OutSize)
      | _ => quiet (Prog.fault .invalid)

/-- `deserialize_S` -/
def getDeserializer (SerializedSelf : Ptr) : Traced Access Ptr := do
  let Header ← quiet (E.loadI64 SerializedSelf)
  let SerializedSize := E.swapI64 Header
  insertNullCheck [SerializedSelf] .null do
    let StructOut ← quiet (malloc E.alloc (E.getStructAllocSize S))
    insertNullCheck [StructOut] .null do
      let _ ← deserializeEntries E S SerializedSelf StructOut S.fields 8
      let AllocSize ← quiet (E.sumAllocSizes S StructOut S.fields 8)
      if SerializedSize = AllocSize then pure StructOut else pure .null

/-! ## Without the record -/

section Erase

@[simp] theorem erase_loadTy (t : Ty) (p : Ptr) : (loadTy E t p).erase = E.loadTy t p := rfl

@[simp] theorem erase_storeTy (t : Ty) (v : Val) (p : Ptr) :
    (storeTy E t v p).erase = E.storeTy t v p := rfl

@[simp] theorem erase_loadI64 (p : Ptr) : (loadI64 E p).erase = E.loadI64 p := rfl

@[simp] theorem erase_storeI64 (n : I64) (p : Ptr) :
    (storeI64 E n p).erase = E.storeI64 n p := rfl

@[simp] theorem erase_memcpy (Dst Src : Ptr) (DstAlign SrcAlign : Nat) (n : I64) :
    (memcpy Dst DstAlign Src SrcAlign n).erase = Tyr.memcpy Dst Src n := rfl

@[simp] theorem erase_insertNullCheck {α : Type} (Ptrs : List Ptr) (ReturnFail : α)
    (IsNotNull : Traced Access α) :
    (insertNullCheck Ptrs ReturnFail IsNotNull).erase =
      Tyr.insertNullCheck Ptrs ReturnFail IsNotNull.erase := erase_ite _ _

@[simp] theorem erase_getFieldAllocSize (f : Field) (Self : Ptr) :
    (getFieldAllocSize E S f Self).erase = E.getFieldAllocSize S f Self := by
  unfold getFieldAllocSize Env.getFieldAllocSize
  rw [erase_ite]
  cases f.type.getPointerElementType <;> cases S.deref f.countField <;> simp

@[simp] theorem erase_initField (f : Field) (Self : Ptr) (Arg : Val) (Next : Traced Access Ptr) :
    (initField E S f Self Arg Next).erase = E.initField S f Self Arg Next.erase := by
  unfold initField Env.initField
  simp

@[simp] theorem erase_initFields (Self : Ptr) (fs : List Field) (args : List Val) :
    (initFields E S Self fs args).erase = E.initFields S Self fs args := by
  induction fs generalizing args with
  | nil => rfl
  | cons f fs ih =>
    unfold initFields Env.initFields
    rw [erase_ite, erase_initField, ih]
    cases args with
    | nil => rfl
    | cons arg args => rw [erase_initField, ih]

/-- The constructor. -/
theorem erase_getConstructor (args : List Val) :
    (getConstructor E S args).erase = E.getConstructor S args := by
  unfold getConstructor Env.getConstructor
  simp

theorem erase_getGetter (f : Field) (Self OutVal : Ptr) :
    (getGetter E S f Self OutVal).erase = E.getGetter S f Self OutVal := by
  unfold getGetter Env.getGetter
  simp

theorem erase_getItemGetter (f : Field) (Self : Ptr) (IDX : I64) (OutVal : Ptr) :
    (getItemGetter E S f Self IDX OutVal).erase = E.getItemGetter S f Self IDX OutVal := by
  unfold getItemGetter Env.getItemGetter
  cases f.type.getPointerElementType <;> cases S.deref f.countField <;> simp

@[simp] theorem erase_sizeIsRight (f countField : Field) (Self ToInsert : Ptr) (NumElts : I64)
    (FinalFieldMem : Ptr) :
    (sizeIsRight E S f countField Self ToInsert NumElts FinalFieldMem).erase =
      E.sizeIsRight S f countField Self ToInsert NumElts FinalFieldMem := by
  unfold sizeIsRight Env.sizeIsRight
  simp

@[simp] theorem erase_setRepeated (f countField : Field) (Self ToInsert : Ptr) (NumElts : I64) :
    (setRepeated E S f countField Self ToInsert NumElts).erase =
      E.setRepeated S f countField Self ToInsert NumElts := by
  unfold setRepeated Env.setRepeated
  simp

@[simp] theorem erase_setCount (f countsFor : Field) (Self : Ptr) (ToInsert : I64) :
    (setCount E S f countsFor Self ToInsert).erase = E.setCount S f countsFor Self ToInsert := by
  unfold setCount Env.setCount
  simp

theorem erase_getSetter (f : Field) (Self : Ptr) (ToInsert : Val) (NumElts : I64) :
    (getSetter E S f Self ToInsert NumElts).erase = E.getSetter S f Self ToInsert NumElts := by
  unfold getSetter Env.getSetter
  rw [erase_insertNullCheck]
  cases S.deref f.countField <;> cases S.deref f.countsFor <;> simp

theorem erase_getItemSetter (f : Field) (Self : Ptr) (IDX : I64) (ValToSet : Val) :
    (getItemSetter E S f Self IDX ValToSet).erase = E.getItemSetter S f Self IDX ValToSet := by
  unfold getItemSetter Env.getItemSetter
  cases f.type.getPointerElementType <;> cases S.deref f.countField <;> simp

@[simp] theorem erase_swapLoop (t : Ty) (ArrayPtr : Ptr) (Count loopIter : I64) :
    (swapLoop E t ArrayPtr Count loopIter).erase = E.swapLoop t ArrayPtr Count loopIter := by
  fun_induction Env.swapLoop E t ArrayPtr Count loopIter with
  | case1 loopIter ih =>
    unfold swapLoop
    simp only [erase_bind, erase_loadTy, erase_quiet, erase_storeTy]
    congr 1
    funext val
    congr 1
    funext swapped
    congr 1
    funext _
    split
    · rfl
    · next hne => exact ih hne

@[simp] theorem erase_swapArrayBytes (t : Ty) (ArrayPtr : Ptr) (Count : I64) :
    (swapArrayBytes E t ArrayPtr Count).erase = E.swapArrayBytes t ArrayPtr Count := by
  unfold swapArrayBytes Env.swapArrayBytes
  cases t <;> simp

@[simp] theorem erase_fieldSerializer (f : Field) (Self OutBuf : Ptr) :
    (fieldSerializer E S f Self OutBuf).erase = E.fieldSerializer S f Self OutBuf := by
  unfold fieldSerializer Env.fieldSerializer
  cases f.type.getPointerElementType <;> cases S.deref f.countField <;> simp

@[simp] theorem erase_fieldDeserializer (f : Field) (Self InBuf : Ptr) :
    (fieldDeserializer E S f Self InBuf).erase = E.fieldDeserializer S f Self InBuf := by
  unfold fieldDeserializer Env.fieldDeserializer
  cases f.type.getPointerElementType <;> cases S.deref f.countField <;> simp

@[simp] theorem erase_serializeEntries (Self AllocdMem : Ptr) (fs : List Field)
    (CurrentIDX : I64) :
    (serializeEntries E S Self AllocdMem fs CurrentIDX).erase =
      E.serializeEntries S Self AllocdMem fs CurrentIDX := by
  induction fs generalizing CurrentIDX with
  | nil => rfl
  | cons entry rest ih =>
    unfold serializeEntries Env.serializeEntries
    rw [erase_ite, ih]
    split
    · rfl
    · cases E.getFunction (getSerializerName entry) with
      | none => rfl
      | some g =>
        cases g with
        | fieldSerializer f => simp only [erase_bind, erase_fieldSerializer, ih]
        | _ => rfl

@[simp] theorem erase_deserializeEntries (SerializedSelf StructOut : Ptr) (fs : List Field)
    (CurrentIDX : I64) :
    (deserializeEntries E S SerializedSelf StructOut fs CurrentIDX).erase =
      E.deserializeEntries S SerializedSelf StructOut fs CurrentIDX := by
  induction fs generalizing CurrentIDX with
  | nil => rfl
  | cons entry rest ih =>
    unfold deserializeEntries Env.deserializeEntries
    rw [erase_ite, ih]
    split
    · rfl
    · cases E.getFunction (getDeserializerName entry) with
      | none => rfl
      | some g =>
        cases g with
        | fieldDeserializer f => simp only [erase_bind, erase_fieldDeserializer, ih]
        | _ => rfl

theorem erase_getSerializer (Self : Ptr) :
    (getSerializer E S Self).erase = E.getSerializer S Self := by
  unfold getSerializer Env.getSerializer serializeWithIDX Env.serializeWithIDX
  simp

theorem erase_getDeserializer (SerializedSelf : Ptr) :
    (getDeserializer E S SerializedSelf).erase = E.getDeserializer S SerializedSelf := by
  unfold getDeserializer Env.getDeserializer
  simp

end Erase

/-! ## What is recorded -/

section Every

variable {E : Env} {S : Struct} {P : Access → Prop} {h : Heap}

@[simp] theorem every_loadTy {t : Ty} {p : Ptr} :
    Every P (loadTy E t p) h ↔ P ⟨p, E.layout.getABITypeAlignment t⟩ := by
  unfold loadTy
  rw [every_record_bind]
  exact and_iff_left (every_quiet _)

@[simp] theorem every_storeTy {t : Ty} {v : Val} {p : Ptr} :
    Every P (storeTy E t v p) h ↔ P ⟨p, E.layout.getABITypeAlignment t⟩ := by
  unfold storeTy
  rw [every_record_bind]
  exact and_iff_left (every_quiet _)

@[simp] theorem every_loadI64 {p : Ptr} :
    Every P (loadI64 E p) h ↔ P ⟨p, E.layout.getABITypeAlignment (.int 64)⟩ := by
  unfold loadI64
  rw [every_record_bind]
  exact and_iff_left (every_quiet _)

@[simp] theorem every_storeI64 {n : I64} {p : Ptr} :
    Every P (storeI64 E n p) h ↔ P ⟨p, E.layout.getABITypeAlignment (.int 64)⟩ := by
  unfold storeI64
  rw [every_record_bind]
  exact and_iff_left (every_quiet _)

@[simp] theorem every_memcpy {Dst Src : Ptr} {DstAlign SrcAlign : Nat} {n : I64} :
    Every P (memcpy Dst DstAlign Src SrcAlign n) h ↔ P ⟨Dst, DstAlign⟩ ∧ P ⟨Src, SrcAlign⟩ := by
  unfold memcpy
  rw [every_record_bind, every_record_bind]
  exact and_congr_right fun _ => and_iff_left (every_quiet _)

theorem every_insertNullCheck {α : Type} {Ptrs : List Ptr} {ReturnFail : α}
    {IsNotNull : Traced Access α} (hall : Every P IsNotNull h) :
    Every P (insertNullCheck Ptrs ReturnFail IsNotNull) h := by
  unfold insertNullCheck
  split
  · exact hall
  · exact every_pure _

theorem insertNullCheck_loc {α : Type} (b : Nat) (o : I64) (Ptrs : List Ptr) (ReturnFail : α)
    (IsNotNull : Traced Access α) :
    insertNullCheck (.loc b o :: Ptrs) ReturnFail IsNotNull = IsNotNull := by
  simp [insertNullCheck]

/-- Only the size of an array takes a load, that of its count. -/
theorem every_getFieldAllocSize (wf : S.WellFormed) {f : Field} (hf : f ∈ S.fields) {Self : Ptr} :
    Every P (getFieldAllocSize E S f Self) h ↔
      (f.isRepeated = true →
        P ⟨E.structGEP S Self (S.countOf f), E.layout.getABITypeAlignment (.int 64)⟩) := by
  unfold getFieldAllocSize
  cases hr : f.isRepeated with
  | true =>
    obtain ⟨ht, -, -, -, hd, -⟩ := wf.array_spec hf hr
    have hpt := wf.pointee hf hr
    rw [if_pos rfl, hpt, hd]
    show Every P (loadI64 E (E.structGEP S Self (S.countOf f)) >>= _) h ↔ _
    rw [every_bind, every_loadI64]
    exact ⟨fun hall _ => hall.1, fun hall => ⟨hall rfl, fun _ _ _ => every_pure _⟩⟩
  | false =>
    rw [if_neg Bool.false_ne_true]
    exact ⟨fun _ hc => Bool.noConfusion hc, fun _ => every_pure _⟩

end Every

end Emitted

end Tyr
