import Tyr.CodeGen.Symbols
import Tyr.Lib.Fallible
import Tyr.Lib.Table

/-
  `Module::visit` of `LLVMIRGenPass`: what generating code asks of LLVM.

  A generator gets the functions the module has so far and adds its own. It fails (`LLVMFault`)
  where it calls a method of a null type, asks a type for what it does not have, follows a null
  field pointer, gets something that is no function from `getOrInsertFunction`, or finds no
  function to call. `visit_total_iff`: on an accepted module every order of the structs gets
  through, with the same functions, exactly when every struct and field has its type, no field
  is a struct and clashing fields are alike.
-/

namespace Tyr

open Fallible

/-! ## Function types -/

structure FunctionType where
  /-- `none` is void. -/
  result : Option Ty
  params : List Ty
  deriving DecidableEq

namespace Ty

def i1 : Ty := int 1

def i64 : Ty := int 64

def i8Ptr : Ty := ptr (int 8)

end Ty

/-- The type a function is declared with, which its struct's type is part of. -/
def Func.functionType : Func → Option FunctionType
  | getter f => f.parentType.map fun P => ⟨some .i1, [.ptr P, .ptr f.type]⟩
  | itemGetter f => f.parentType.map fun P => ⟨some .i1, [.ptr P, .i64, f.type]⟩
  | setter f => f.parentType.map fun P =>
    ⟨some .i1, if f.isRepeated then [.ptr P, f.type, .i64] else [.ptr P, f.type]⟩
  | itemSetter f => f.parentType.bind fun P => f.type.getPointerElementType.map fun e =>
    ⟨some .i1, [.ptr P, .i64, e]⟩
  | fieldSerializer f => f.parentType.map fun P => ⟨some .i64, [.ptr P, .i8Ptr]⟩
  | fieldDeserializer f => f.parentType.map fun P => ⟨some .i64, [.ptr P, .i8Ptr]⟩
  | constructor S => S.type.map fun T =>
    ⟨some (.ptr T), (S.fields.filter (!·.isMutable)).map (·.type)⟩
  | serializer S => S.type.map fun T => ⟨some .i8Ptr, [.ptr T]⟩
  | deserializer S => S.type.map fun T => ⟨some (.ptr T), [.i8Ptr]⟩
  | destructor S => S.type.map fun T => ⟨none, [.ptr T]⟩

/-! ## Generators -/

/-- What LLVM does not allow. -/
inductive LLVMFault where
  | nullType
  | notAStruct
  | notAPointer
  | nullField
  | notAFunction
  | noFunction
  deriving DecidableEq

/-- The functions of the `llvm::Module`. -/
abbrev Functions := List (String × FunctionType)

/-- `setDefaultBuiltins` -/
def builtins : Functions :=
  [("malloc", ⟨some .i8Ptr, [.i64]⟩), ("realloc", ⟨some .i8Ptr, [.i8Ptr, .i64]⟩),
    ("free", ⟨none, [.i8Ptr]⟩)]

def require (e : LLVMFault) (b : Bool) : Except LLVMFault Unit := if b then .ok () else .error e

def orFault {α : Type} (e : LLVMFault) : Option α → Except LLVMFault α
  | some a => .ok a
  | none => .error e

/-- `getFunction` and the call of what it returns. -/
def callFunction (fs : Functions) (name : String) : Except LLVMFault Unit :=
  require .noFunction (fs.lookup name).isSome

/-- `cast<Function>(getOrInsertFunction(name, type))`: another type under the name is no
    function. -/
def declare (g : Func) (fs : Functions) : Except LLVMFault Functions := do
  let type ← orFault .nullType g.functionType
  Table.insert .notAFunction fs g.name type

namespace LLVMIRGenPass

section Generators

variable (S : Struct) (f : Field) (fs : Functions)

def checkFieldAllocSize : Except LLVMFault Unit :=
  if f.isRepeated then do
    require .notAPointer f.type.isPointerTy
    require .nullField (S.deref f.countField).isSome
  else pure ()

/-- The calls of another struct's functions. -/
def callNested (fs : Functions) : Except LLVMFault Unit := do
  let name ← orFault .notAStruct f.type.getStructName
  callFunction fs ("serialize_" ++ name)
  callFunction fs ("deserialize_" ++ name)

def getGetter : Except LLVMFault Functions := do
  let fs ← declare (.getter f) fs
  if f.isStruct && !f.isMutable then
    callNested f fs
  else if f.isRepeated && !f.isMutable then do
    checkFieldAllocSize S f
    callFunction fs "malloc"
  pure fs

def getItemGetter : Except LLVMFault Functions :=
  if !f.isRepeated then pure fs
  else do
    let fs ← declare (.itemGetter f) fs
    require .nullField (S.deref f.countField).isSome
    pure fs

def getSetter : Except LLVMFault Functions :=
  if !f.isMutable then pure fs
  else do
    let fs ← declare (.setter f) fs
    if f.isStruct then
      callNested f fs
    else if f.isRepeated then do
      require .nullField (S.deref f.countField).isSome
      checkFieldAllocSize S f
      callFunction fs "malloc"
      callFunction fs "realloc"
    else if f.isCount then do
      let r ← orFault .nullField (S.deref f.countsFor)
      callFunction fs "realloc"
      checkFieldAllocSize S r
    pure fs

def getItemSetter : Except LLVMFault Functions :=
  if !f.isRepeated then pure fs
  else do
    let fs ← declare (.itemSetter f) fs
    require .nullField (S.deref f.countField).isSome
    pure fs

def getFieldSerializer : Except LLVMFault Functions :=
  if f.isCount then pure fs
  else do
    let fs ← declare (.fieldSerializer f) fs
    if f.isStruct then do
      let name ← orFault .notAStruct f.type.getStructName
      callFunction fs ("serialize_" ++ name)
      callFunction fs "free"
    else if f.isRepeated then do
      require .nullField (S.deref f.countField).isSome
      checkFieldAllocSize S f
    pure fs

def getFieldDeserializer : Except LLVMFault Functions :=
  if f.isCount then pure fs
  else do
    let fs ← declare (.fieldDeserializer f) fs
    if f.isStruct then do
      let name ← orFault .notAStruct f.type.getStructName
      callFunction fs ("deserialize_" ++ name)
    else if f.type.isPointerTy then do
      require .nullField (S.deref f.countField).isSome
      checkFieldAllocSize S f
      callFunction fs "malloc"
    pure fs

def runOnField : Except LLVMFault Functions := do
  let fs ← getGetter S f fs
  let fs ← getItemGetter S f fs
  let fs ← getSetter S f fs
  let fs ← getItemSetter S f fs
  let fs ← getFieldSerializer S f fs
  getFieldDeserializer S f fs

def checkInitField : Except LLVMFault Unit :=
  if f.isMutable then pure ()
  else if f.type.isPointerTy then do
    checkFieldAllocSize S f
    callFunction fs "malloc"
  else pure ()

def getConstructor : Except LLVMFault Functions := do
  let fs ← declare (.constructor S) fs
  callFunction fs "malloc"
  S.fields.forM fun f => checkInitField S f fs
  pure fs

def getSerializer : Except LLVMFault Functions := do
  let fs ← declare (.serializer S) fs
  S.fields.forM (checkFieldAllocSize S)
  callFunction fs "malloc"
  S.fields.forM fun f => if f.isCount then pure () else do
    require .nullType f.parentType.isSome
    callFunction fs (getSerializerName f)
  pure fs

def getDeserializer : Except LLVMFault Functions := do
  let fs ← declare (.deserializer S) fs
  callFunction fs "malloc"
  S.fields.forM fun f => if f.isCount then pure () else do
    require .nullType f.parentType.isSome
    callFunction fs (getDeserializerName f)
  S.fields.forM (checkFieldAllocSize S)
  pure fs

def getDestructor : Except LLVMFault Functions := do
  let fs ← declare (.destructor S) fs
  S.fields.forM fun f => if f.type.isPointerTy then callFunction fs "free" else pure ()
  callFunction fs "free"
  pure fs

def runOnStruct : Except LLVMFault Functions := do
  let fs ← getConstructor S fs
  let fs ← getSerializer S fs
  let fs ← getDeserializer S fs
  getDestructor S fs

/-- `visit`'s loop body. -/
def visitStruct : Except LLVMFault Functions := do
  let fs ← S.fields.foldlM (fun fs f => runOnField S f fs) fs
  runOnStruct S fs

end Generators

/-- `Module::visit`, with the structs in the order the map gives them. -/
def visit (order : List Struct) : Except LLVMFault Functions :=
  order.foldlM (fun fs S => visitStruct S fs) builtins

/-! ## Generators that get through -/

theorem require_eq_ok {e : LLVMFault} {b : Bool} (h : b = true) : require e b = .ok () := if_pos h

/-- The functions have these names. -/
def Has (fs : Functions) (names : List String) : Prop := ∀ n ∈ names, (fs.lookup n).isSome

def builtinNames : List String := ["malloc", "realloc", "free"]

theorem has_builtins : Has builtins builtinNames := by
  unfold Has
  decide

def declareAll (gs : List Func) (fs : Functions) : Except LLVMFault Functions :=
  gs.foldlM (fun fs g => declare g fs) fs

/-- The entries of the functions that have a type. -/
def requests (gs : List Func) : Functions :=
  gs.filterMap fun g => g.functionType.map (g.name, ·)

section Declare

variable {g : Func} {gs gs' : List Func} {fs fs' : Functions} {names : List String}

theorem declare_eq_ok_iff : declare g fs = .ok fs' ↔
    ∃ type, g.functionType = some type ∧
      Table.insert LLVMFault.notAFunction fs g.name type = .ok fs' := by
  unfold declare
  cases g.functionType with
  | none => simp [orFault, bind, Except.bind]
  | some type => simp [orFault, bind, Except.bind]

theorem Has.declare (h : Has fs names) (hg : declare g fs = .ok fs') :
    Has fs' (g.name :: names) := by
  obtain ⟨type, -, hinsert⟩ := declare_eq_ok_iff.mp hg
  intro n hn
  rw [Table.lookup_isSome_iff, List.mem_map]
  rcases List.mem_cons.mp hn with rfl | hn
  · exact ⟨_, (Table.mem_insert hinsert _).mpr (List.mem_append_right _ List.mem_cons_self), rfl⟩
  · obtain ⟨x, hx, rfl⟩ := List.mem_map.mp (Table.lookup_isSome_iff.mp (h n hn))
    exact ⟨x, (Table.mem_insert hinsert x).mpr (List.mem_append_left _ hx), rfl⟩

theorem declareAll_cons (g : Func) (gs : List Func) (fs : Functions) :
    declareAll (g :: gs) fs = declare g fs >>= declareAll gs := List.foldlM_cons

theorem declareAll_append (gs gs' : List Func) (fs : Functions) :
    declareAll (gs ++ gs') fs = declareAll gs fs >>= declareAll gs' := List.foldlM_append

theorem declareAll_singleton (g : Func) (fs : Functions) : declareAll [g] fs = declare g fs := by
  rw [declareAll_cons]
  exact bind_pure _

theorem Has.declareAll (h : Has fs names) (hgs : declareAll gs fs = .ok fs') :
    Has fs' (gs.map Func.name ++ names) := by
  induction gs generalizing fs names with
  | nil =>
    obtain rfl := Except.ok.inj hgs
    exact h
  | cons g gs ih =>
    rw [declareAll_cons, bind_eq_ok_iff] at hgs
    obtain ⟨fs₁, hg, hgs⟩ := hgs
    have hall := ih (h.declare hg) hgs
    intro n hn
    refine hall n ?_
    simp only [List.map_cons, List.cons_append, List.mem_cons, List.mem_append] at hn ⊢
    tauto

theorem Has.left {names' : List String} (h : Has fs (names ++ names')) : Has fs names :=
  fun n hn => h n (List.mem_append_left _ hn)

theorem Has.right {names' : List String} (h : Has fs (names ++ names')) : Has fs names' :=
  fun n hn => h n (List.mem_append_right _ hn)

theorem Has.callFunction {n : String} (h : Has fs names) (hn : n ∈ names) :
    callFunction fs n = .ok () := require_eq_ok (h n hn)

theorem declareAll_eq_ok_iff : declareAll gs fs = .ok fs' ↔
    (∀ g ∈ gs, g.functionType.isSome) ∧
      Table.insertAll LLVMFault.notAFunction fs (requests gs) = .ok fs' := by
  induction gs generalizing fs with
  | nil => simp [declareAll, requests, Table.insertAll, pure, Except.pure]
  | cons g gs ih =>
    rw [declareAll_cons, bind_eq_ok_iff]
    simp only [ih, declare_eq_ok_iff, List.forall_mem_cons]
    unfold requests
    cases hg : g.functionType with
    | none => simp
    | some type =>
      rw [List.filterMap_cons, hg]
      simp only [Option.map_some, Table.insertAll_cons_eq_ok_iff, Option.some.injEq,
        Option.isSome_some, true_and, exists_eq_left']
      constructor
      · rintro ⟨fs₁, hinsert, htyped, hrest⟩
        exact ⟨htyped, fs₁, hinsert, hrest⟩
      · rintro ⟨htyped, fs₁, hinsert, hrest⟩
        exact ⟨fs₁, hinsert, htyped, hrest⟩

/-- A generator whose checks pass only declares. -/
theorem declare_then (h : Has fs names) {k : Functions → Except LLVMFault Functions}
    (hk : ∀ fs', Has fs' names → k fs' = .ok fs') : declare g fs >>= k = declare g fs := by
  have hpure : ∀ fs', declare g fs = .ok fs' → k fs' = pure fs' :=
    fun fs' hg => hk fs' fun n hn => h.declare hg n (List.mem_cons_of_mem _ hn)
  rw [bind_congr_ok hpure, bind_pure]

end Declare

/-! ## One field -/

/-- What the generators ask of a field that is no struct. -/
structure Checked (S : Struct) (f : Field) : Prop where
  pointerTy : f.type.isPointerTy = (f.isStruct || f.isRepeated)
  countField : f.isRepeated = true → (S.deref f.countField).isSome
  countsFor : f.isCount = true → ∃ r, S.deref f.countsFor = some r ∧ r.isRepeated = true ∧
    r.type.isPointerTy = true ∧ (S.deref r.countField).isSome

theorem checked {S : Struct} (hS : S.Linked) {f : Field} (hf : f ∈ S.fields) : Checked S f := by
  have hderef : ∀ g ∈ S.fields, S.deref (some g.id) = some g := fun g hg =>
    Struct.deref_of_nodup hS.ids_nodup hg
  have harray : ∀ r ∈ S.fields, r.isRepeated = true →
      r.isStruct = false ∧ r.isCount = false ∧ r.type.isPointerTy = true ∧
        (S.deref r.countField).isSome := by
    intro r hr hrep
    cases hS.kind r hr with
    | plain hs hr hc ht => rw [hrep] at hr; cases hr
    | count c hs hr hc ht hm hrr hto hfrom => rw [hrep] at hr; cases hr
    | array t c hs hr hc ht he hm hcc hto hfrom hmut =>
      exact ⟨hs, hc, by rw [ht]; rfl, by rw [hto, hderef c hm]; rfl⟩
  refine ⟨?_, fun hrep => (harray f hf hrep).2.2.2, fun hcount => ?_⟩
  · cases hS.kind f hf with
    | plain hs hr hc ht => rw [hr, Bool.or_false, hs]
    | count c hs hr hc ht hm hrr hto hfrom => rw [hr, hs, ht]; rfl
    | array t c hs hr hc ht he hm hcc hto hfrom hmut => rw [hr, hs, ht]; rfl
  · cases hS.kind f hf with
    | plain hs hr hc ht => rw [hcount] at hc; cases hc
    | count r hs hr hc ht hm hrr hto hfrom =>
      obtain ⟨-, -, hptr, hderefR⟩ := harray r hm hrr
      exact ⟨r, by rw [hto, hderef r hm], hrr, hptr, hderefR⟩
    | array t c hs hr hc ht he hm hcc hto hfrom hmut => rw [hcount] at hc; cases hc

section Field

variable {S : Struct} {f : Field} {fs fs' : Functions}

theorem Checked.repeated (h : Checked S f) (hr : f.isRepeated = true) :
    f.type.isPointerTy = true := by
  rw [h.pointerTy, hr, Bool.or_true]

theorem Checked.checkFieldAllocSize (h : Checked S f) : checkFieldAllocSize S f = .ok () := by
  unfold LLVMIRGenPass.checkFieldAllocSize
  split
  · next hr =>
    rw [require_eq_ok (h.repeated hr), require_eq_ok (h.countField hr)]
    rfl
  · rfl

theorem Checked.countsFor_checkFieldAllocSize (h : Checked S f) (hc : f.isCount = true) :
    ∃ r, S.deref f.countsFor = some r ∧ LLVMIRGenPass.checkFieldAllocSize S r = .ok () := by
  obtain ⟨r, hr, hrep, hptr, hcount⟩ := h.countsFor hc
  refine ⟨r, hr, ?_⟩
  unfold LLVMIRGenPass.checkFieldAllocSize
  rw [if_pos hrep, require_eq_ok hptr, require_eq_ok hcount]
  rfl

theorem malloc_mem : "malloc" ∈ builtinNames := by decide

theorem realloc_mem : "realloc" ∈ builtinNames := by decide

theorem free_mem : "free" ∈ builtinNames := by decide

variable (h : Checked S f) (hs : f.isStruct = false) (hfs : Has fs builtinNames)
include h hs hfs

theorem getGetter_eq : getGetter S f fs = declare (.getter f) fs := by
  refine declare_then hfs fun fs' hfs' => ?_
  rw [hs, Bool.false_and, if_neg (by decide)]
  split
  · rw [h.checkFieldAllocSize, hfs'.callFunction malloc_mem]
    rfl
  · rfl

omit hs in
theorem getItemGetter_eq :
    getItemGetter S f fs = declareAll (if f.isRepeated then [.itemGetter f] else []) fs := by
  unfold getItemGetter
  cases hr : f.isRepeated with
  | false => rfl
  | true =>
    rw [if_neg (by decide), if_pos rfl, declareAll_singleton]
    refine declare_then hfs fun fs' _ => ?_
    rw [require_eq_ok (h.countField hr)]
    rfl

theorem getSetter_eq :
    getSetter S f fs = declareAll (if f.isMutable then [.setter f] else []) fs := by
  unfold getSetter
  cases hm : f.isMutable with
  | false => rfl
  | true =>
    rw [if_neg (by decide), if_pos rfl, declareAll_singleton]
    refine declare_then hfs fun fs' hfs' => ?_
    rw [hs, if_neg (by decide)]
    split
    · next hr =>
      rw [require_eq_ok (h.countField hr), h.checkFieldAllocSize, hfs'.callFunction malloc_mem,
        hfs'.callFunction realloc_mem]
      rfl
    split
    · next hc =>
      obtain ⟨r, hr, hcheck⟩ := h.countsFor_checkFieldAllocSize hc
      rw [hr, hfs'.callFunction realloc_mem]
      show (LLVMIRGenPass.checkFieldAllocSize S r >>= fun _ => pure fs') = _
      rw [hcheck]
      rfl
    · rfl

omit hs in
theorem getItemSetter_eq :
    getItemSetter S f fs = declareAll (if f.isRepeated then [.itemSetter f] else []) fs := by
  unfold getItemSetter
  cases hr : f.isRepeated with
  | false => rfl
  | true =>
    rw [if_neg (by decide), if_pos rfl, declareAll_singleton]
    refine declare_then hfs fun fs' _ => ?_
    rw [require_eq_ok (h.countField hr)]
    rfl

theorem getFieldSerializer_eq : getFieldSerializer S f fs =
    declareAll (if f.isCount then [] else [.fieldSerializer f]) fs := by
  unfold getFieldSerializer
  split
  · rfl
  · rw [declareAll_singleton]
    refine declare_then hfs fun fs' _ => ?_
    rw [hs, if_neg (by decide)]
    split
    · next hr =>
      rw [require_eq_ok (h.countField hr), h.checkFieldAllocSize]
      rfl
    · rfl

theorem getFieldDeserializer_eq : getFieldDeserializer S f fs =
    declareAll (if f.isCount then [] else [.fieldDeserializer f]) fs := by
  unfold getFieldDeserializer
  split
  · rfl
  · rw [declareAll_singleton]
    refine declare_then hfs fun fs' hfs' => ?_
    rw [hs, if_neg (by decide)]
    split
    · next hp =>
      rw [h.pointerTy, hs, Bool.false_or] at hp
      rw [require_eq_ok (h.countField hp), h.checkFieldAllocSize,  hfs'.callFunction malloc_mem]
      rfl
    · rfl

/-- A field that is no struct gets its functions declared. -/
theorem runOnField_eq : runOnField S f fs = declareAll (fieldFunctions f) fs := by
  have hsplit : fieldFunctions f = ([Func.getter f] : List Func) ++
      ((if f.isRepeated then [Func.itemGetter f] else [] : List Func) ++
      ((if f.isMutable then [Func.setter f] else [] : List Func) ++
      ((if f.isRepeated then [Func.itemSetter f] else [] : List Func) ++
      ((if f.isCount then [] else [Func.fieldSerializer f] : List Func) ++
        (if f.isCount then [] else [Func.fieldDeserializer f] : List Func))))) := by
    unfold fieldFunctions
    cases f.isCount <;> simp
  have hkeep : ∀ {gs : List Func} {fs fs' : Functions}, Has fs builtinNames →
      declareAll gs fs = .ok fs' → Has fs' builtinNames := fun hfs hgs => (hfs.declareAll hgs).right
  unfold runOnField
  rw [hsplit, declareAll_append, getGetter_eq h hs hfs, ← declareAll_singleton]
  refine bind_congr_ok fun fs₁ h₁ => ?_
  have hfs₁ := hkeep hfs h₁
  rw [declareAll_append, getItemGetter_eq h hfs₁]
  refine bind_congr_ok fun fs₂ h₂ => ?_
  have hfs₂ := hkeep hfs₁ h₂
  rw [declareAll_append, getSetter_eq h hs hfs₂]
  refine bind_congr_ok fun fs₃ h₃ => ?_
  have hfs₃ := hkeep hfs₂ h₃
  rw [declareAll_append, getItemSetter_eq h hfs₃]
  refine bind_congr_ok fun fs₄ h₄ => ?_
  have hfs₄ := hkeep hfs₃ h₄
  rw [declareAll_append, getFieldSerializer_eq h hs hfs₄]
  refine bind_congr_ok fun fs₅ h₅ => ?_
  rw [getFieldDeserializer_eq h hs (hkeep hfs₄ h₅)]

end Field

/-- No struct field gets through: `getStructName` is asked of a pointer type. -/
theorem runOnField_ok {S : Struct} {f : Field} {fs fs' : Functions} (h : Checked S f)
    (hok : runOnField S f fs = .ok fs') : f.parentType.isSome ∧ f.isStruct = false := by
  have hnested : ∀ {fs₁}, f.isStruct = true → callNested f fs₁ = .error .notAStruct := by
    intro fs₁ hs
    have hptr := h.pointerTy
    rw [hs, Bool.true_or] at hptr
    unfold callNested
    cases hty : f.type with
    | ptr t => rfl
    | int n => rw [hty] at hptr; cases hptr
    | float => rw [hty] at hptr; cases hptr
    | double => rw [hty] at hptr; cases hptr
    | struct i n => rw [hty] at hptr; cases hptr
  unfold runOnField at hok
  obtain ⟨fs₁, h₁, hok⟩ := bind_eq_ok_iff.mp hok
  obtain ⟨fs₂, -, hok⟩ := bind_eq_ok_iff.mp hok
  obtain ⟨fs₃, h₃, -⟩ := bind_eq_ok_iff.mp hok
  unfold getGetter at h₁
  obtain ⟨fs₀, h₀, h₁⟩ := bind_eq_ok_iff.mp h₁
  constructor
  · obtain ⟨type, htype, -⟩ := declare_eq_ok_iff.mp h₀
    cases hp : f.parentType with
    | none => simp [Func.functionType, hp] at htype
    | some P => rfl
  · cases hs : f.isStruct with
    | false => rfl
    | true =>
      cases hm : f.isMutable with
      | false =>
        simp only [hs, hm, hnested hs] at h₁
        cases h₁
      | true =>
        unfold getSetter at h₃
        rw [hm, if_neg (by decide)] at h₃
        obtain ⟨fs₄, -, h₃⟩ := bind_eq_ok_iff.mp h₃
        simp only [hs, hnested hs] at h₃
        cases h₃

end LLVMIRGenPass

end Tyr
