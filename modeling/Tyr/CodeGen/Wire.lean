import Tyr.CodeGen.Accessors

/-
  The functions `LLVMIRGenPass` emits, part two: `serialize_S`, `deserialize_S` and the
  private per-field functions they call.

  The struct functions find the per-field functions by name. `serializeEntries` and
  `deserializeEntries` are the unrolled calls over the non-count fields; they return the
  final `CurrentIDX`.
-/

namespace Tyr

namespace Env

variable (E : Env) (S : Struct)

/-! ## Byte order -/

/-- Reverse the bytes of a `8 * k`-bit integer. -/
def bswap (k n : Nat) : Nat := ofLE (toLE k n).reverse

/-- `swapBytes`. There is no `llvm.bswap.iN` unless N is a multiple of 16. -/
def swapBytes (t : Ty) (val : Val) : Prog Val :=
  if !E.layout.bigEndian then pure val
  else match t, val with
    | .int n, .int v =>
      if n % 8 ≠ 0 then pure val
      else if n % 16 = 0 then pure (.int (bswap (n / 8) v))
      else Prog.fault .invalid
    | .float, .int v => pure (.int (bswap 4 v))
    | .double, .int v => pure (.int (bswap 8 v))
    | _, _ => Prog.fault .invalid

/-- The loop of `swapArrayBytes`: the bound is tested after the body. -/
def swapLoop (t : Ty) (ArrayPtr : Ptr) (Count loopIter : I64) : Prog Unit := do
  let val ← E.loadTy t (E.itemGEP t ArrayPtr loopIter)
  let swapped ← E.swapBytes t val
  E.storeTy t swapped (E.itemGEP t ArrayPtr loopIter)
  if _h : loopIter + 1 = Count then pure ()
  else swapLoop t ArrayPtr Count (loopIter + 1)
termination_by (Count - 1 - loopIter).toNat
decreasing_by bv_omega

def swapArrayBytes (t : Ty) (ArrayPtr : Ptr) (Count : I64) : Prog Unit :=
  if !E.layout.bigEndian then pure ()
  else match t with
    | .int n => if n % 8 ≠ 0 then pure () else E.swapLoop t ArrayPtr Count 0
    | _ => E.swapLoop t ArrayPtr Count 0

def swapI64 (n : I64) : I64 :=
  if E.layout.bigEndian then BitVec.ofNat 64 (bswap 8 n.toNat) else n

/-! ## Field functions -/

/-- `__serialize_S_f`; returns the number of bytes written. -/
def fieldSerializer (f : Field) (Self OutBuf : Ptr) : Prog I64 :=
  insertNullCheck [Self, OutBuf] 0 do
    let FieldData ← E.loadTy f.type (E.structGEP S Self f)
    if f.isStruct then do
      let SerializedField ← E.serializeStruct f.type FieldData.asPtr
      let OutSize ← E.loadI64 SerializedField
      memcpy OutBuf SerializedField OutSize
      free SerializedField
      pure OutSize
    else if f.isRepeated then
      match f.type.getPointerElementType, S.deref f.countField with
      | some t, some countField => do
        let Count ← E.loadI64 (E.structGEP S Self countField)
        E.storeI64 (E.swapI64 Count) OutBuf
        let OutSize ← E.getFieldAllocSize S countField Self
        let PtrFieldAllocSize ← E.getFieldAllocSize S f Self
        memcpy (OutBuf.add OutSize) FieldData.asPtr PtrFieldAllocSize
        E.swapArrayBytes t (OutBuf.add OutSize) Count
        pure (OutSize + PtrFieldAllocSize)
      | _, _ => Prog.fault .invalid
    else do
      let SwappedData ← E.swapBytes f.type FieldData
      let OutSize ← E.getFieldAllocSize S f Self
      E.storeTy f.type SwappedData OutBuf
      pure OutSize

/-- `__deserialize_S_f`; returns the number of bytes read, 0 when `malloc` fails. -/
def fieldDeserializer (f : Field) (Self InBuf : Ptr) : Prog I64 :=
  insertNullCheck [Self, InBuf] 0
    (if f.isStruct then do
      let Field ← E.deserializeStruct f.type InBuf
      E.storeTy f.type (.ptr Field) (E.structGEP S Self f)
      E.loadI64 InBuf
    else if f.type.isPointerTy then
      match f.type.getPointerElementType, S.deref f.countField with
      | some t, some countField => do
        let SwappedCount ← E.loadI64 InBuf
        let Count := E.swapI64 SwappedCount
        E.storeI64 Count (E.structGEP S Self countField)
        let OutSize ← E.getFieldAllocSize S countField Self
        let PtrFieldAllocSize ← E.getFieldAllocSize S f Self
        let FieldMem ← malloc E.alloc PtrFieldAllocSize
        insertNullCheck [FieldMem] 0 do
          memcpy FieldMem (InBuf.add OutSize) PtrFieldAllocSize
          E.swapArrayBytes t FieldMem Count
          E.storeTy f.type (.ptr FieldMem) (E.structGEP S Self f)
          pure (OutSize + PtrFieldAllocSize)
      | _, _ => Prog.fault .invalid
    else do
      let Loaded ← E.loadTy f.type InBuf
      let FieldData ← E.swapBytes f.type Loaded
      let OutSize ← E.getFieldAllocSize S f Self
      E.storeTy f.type FieldData (E.structGEP S Self f)
      pure OutSize)

/-! ## Struct functions -/

/-- The sum of the fields' alloc sizes on top of `AllocSize`. -/
def sumAllocSizes (Self : Ptr) : List Field → I64 → Prog I64
  | [], AllocSize => pure AllocSize
  | entry :: rest, AllocSize => do
    let size ← E.getFieldAllocSize S entry Self
    sumAllocSizes Self rest (AllocSize + size)

def serializeEntries (Self AllocdMem : Ptr) : List Field → I64 → Prog I64
  | [], CurrentIDX => pure CurrentIDX
  | entry :: rest, CurrentIDX =>
    if entry.isCount then serializeEntries Self AllocdMem rest CurrentIDX
    else match E.getFunction (getSerializerName entry) with
      | some (.fieldSerializer f) => do
        let OutSize ← E.fieldSerializer S f Self (AllocdMem.add CurrentIDX)
        serializeEntries Self AllocdMem rest (CurrentIDX + OutSize)
      | _ => Prog.fault .invalid

/-- `serialize_S` with the final `CurrentIDX` beside the returned buffer. -/
def serializeWithIDX (Self : Ptr) : Prog (Ptr × I64) :=
  insertNullCheck [Self] (.null, 0) do
    let AllocSize ← E.sumAllocSizes S Self S.fields 8
    let AllocdMem ← malloc E.alloc AllocSize
    insertNullCheck [AllocdMem] (.null, 0) do
      E.storeI64 (E.swapI64 AllocSize) AllocdMem
      let CurrentIDX ← E.serializeEntries S Self AllocdMem S.fields 8
      pure (AllocdMem, CurrentIDX)

/-- `serialize_S` -/
def getSerializer (Self : Ptr) : Prog Ptr := do
  let (AllocdMem, _) ← E.serializeWithIDX S Self
  pure AllocdMem

def deserializeEntries (SerializedSelf StructOut : Ptr) : List Field → I64 → Prog I64
  | [], CurrentIDX => pure CurrentIDX
  | entry :: rest, CurrentIDX =>
    if entry.isCount then deserializeEntries SerializedSelf StructOut rest CurrentIDX
    else match E.getFunction (getDeserializerName entry) with
      | some (.fieldDeserializer f) => do
        let OutSize ← E.fieldDeserializer S f StructOut (SerializedSelf.add CurrentIDX)
        deserializeEntries SerializedSelf StructOut rest (CurrentIDX + OutSize)
      | _ => Prog.fault .invalid

/-- `deserialize_S`. The header is loaded before the null check. -/
def getDeserializer (SerializedSelf : Ptr) : Prog Ptr := do
  let Header ← E.loadI64 SerializedSelf
  let SerializedSize := E.swapI64 Header
  insertNullCheck [SerializedSelf] .null do
    let StructOut ← malloc E.alloc (E.getStructAllocSize S)
    insertNullCheck [StructOut] .null do
      let _ ← E.deserializeEntries S SerializedSelf StructOut S.fields 8
      let AllocSize ← E.sumAllocSizes S StructOut S.fields 8
      if SerializedSize = AllocSize then pure StructOut else pure .null

end Env

/-- The module generated for the single struct `S`. -/
def Env.ofStruct (A : Allocator) (DL : DataLayout) (S : Struct) : Env where
  alloc := A
  layout := DL
  getFunction := lookupFunction (generatedFunctions S)
  serializeStruct := fun _ _ => Prog.fault .invalid
  deserializeStruct := fun _ _ => Prog.fault .invalid

namespace Env

/-- Every function generated for `S` is found under its own name. -/
def Resolves (E : Env) (S : Struct) : Prop :=
  ∀ g ∈ generatedFunctions S, E.getFunction g.name = some g

theorem resolves_ofStruct (A : Allocator) (DL : DataLayout) {S : Struct} (hn : S.DistinctNames) :
    Resolves (Env.ofStruct A DL S) S := fun _ hg => lookupFunction_of_nodup hn hg

variable {E : Env} {S : Struct} {f : Field}

theorem Resolves.serializer (hfun : Resolves E S) (hf : f ∈ S.fields) (hc : f.isCount = false) :
    E.getFunction (getSerializerName f) = some (.fieldSerializer f) :=
  hfun (.fieldSerializer f) (mem_generatedFunctions hf (by simp [fieldFunctions, hc]))

theorem Resolves.deserializer (hfun : Resolves E S) (hf : f ∈ S.fields)
    (hc : f.isCount = false) :
    E.getFunction (getDeserializerName f) = some (.fieldDeserializer f) :=
  hfun (.fieldDeserializer f) (mem_generatedFunctions hf (by simp [fieldFunctions, hc]))

end Env

end Tyr
