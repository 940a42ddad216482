import Tyr.CodeGen.Slots
import Tyr.Lib.Transition

/-
  Calls of generated functions.

  A caller names a function; the linker finds the one of that name (`callSymbol`) and its body
  runs (`invoke`). When every function is found under its own name (`Resolves`) a call runs
  the body it was written for: `call_get`, `call_set` and so on.
  `CallStep` is one call as a transition of the heap, labelled with the call and its result.
-/

namespace Tyr

open Prog

/-- The results of a call as a register value. -/
def returnBool (x : Prog Bool) : Prog Val := do
  let ok ← x
  pure (.int ok.toNat)

def returnPtr (x : Prog Ptr) : Prog Val := do
  let p ← x
  pure (.ptr p)

def returnVoid (x : Prog Unit) : Prog Val := do
  x
  pure (.int 0)

theorem returnBool_ok {x : Prog Bool} {h h' : Heap} {b : Bool} (hx : x h = .ok (b, h')) :
    returnBool x h = .ok (.int b.toNat, h') := by
  rw [returnBool, bind_of_ok hx, pure_apply]

theorem returnBool_inj {x : Prog Bool} {h h₁ h' : Heap} {b : Bool} {v : Val}
    (hx : x h = .ok (b, h₁)) (hr : returnBool x h = .ok (v, h')) :
    v = .int b.toNat ∧ h' = h₁ := by
  have heq := (returnBool_ok hx).symm.trans hr
  simp only [Except.ok.injEq, Prod.mk.injEq] at heq
  exact ⟨heq.1.symm, heq.2.symm⟩

theorem returnBool_eq_ok {x : Prog Bool} {h h' : Heap} {v : Val}
    (hr : returnBool x h = .ok (v, h')) : ∃ b, x h = .ok (b, h') ∧ v = .int b.toNat := by
  obtain ⟨b, h₁, hx, hp⟩ := bind_eq_ok hr
  cases hp
  exact ⟨b, hx, rfl⟩

/-- A call of an accessor of struct `S`. `create` takes a value for each field that is not
    mutable; `setArray` is `set_S_f` of a repeated field. -/
inductive Call where
  | create (arg : Field → Val)
  | get (f : Field) (Self OutVal : Ptr)
  | getItem (f : Field) (Self : Ptr) (IDX : I64) (OutVal : Ptr)
  | set (f : Field) (Self : Ptr) (ToInsert : Val)
  | setArray (f : Field) (Self ToInsert : Ptr) (NumElts : I64)
  | setItem (f : Field) (Self : Ptr) (IDX : I64) (ValToSet : Val)
  | destroy (Self : Ptr)

namespace Call

/-- The function a call is meant for. -/
def func (S : Struct) : Call → Func
  | create _ => .constructor S
  | get f _ _ => .getter f
  | getItem f _ _ _ => .itemGetter f
  | set f _ _ => .setter f
  | setArray f _ _ _ => .setter f
  | setItem f _ _ _ => .itemSetter f
  | destroy _ => .destructor S

/-- The arguments passed. -/
def args (S : Struct) : Call → List Val
  | create arg => (S.fields.filter (! ·.isMutable)).map arg
  | get _ Self OutVal => [.ptr Self, .ptr OutVal]
  | getItem _ Self IDX OutVal => [.ptr Self, .int IDX.toNat, .ptr OutVal]
  | set _ Self ToInsert => [.ptr Self, ToInsert]
  | setArray _ Self ToInsert NumElts => [.ptr Self, .ptr ToInsert, .int NumElts.toNat]
  | setItem _ Self IDX ValToSet => [.ptr Self, .int IDX.toNat, ValToSet]
  | destroy Self => [.ptr Self]

end Call

namespace Env

variable (E : Env) (S : Struct)

/-- Run a generated function. -/
def invoke : Func → List Val → Prog Val
  | .constructor T, args => returnPtr (E.getConstructor T args)
  | .destructor T, [.ptr Self] => returnVoid (E.getDestructor T Self)
  | .getter f, [.ptr Self, .ptr OutVal] => returnBool (E.getGetter S f Self OutVal)
  | .itemGetter f, [.ptr Self, .int IDX, .ptr OutVal] =>
    returnBool (E.getItemGetter S f Self (BitVec.ofNat 64 IDX) OutVal)
  | .setter f, [.ptr Self, ToInsert] => returnBool (E.getSetter S f Self ToInsert 0)
  | .setter f, [.ptr Self, ToInsert, .int NumElts] =>
    returnBool (E.getSetter S f Self ToInsert (BitVec.ofNat 64 NumElts))
  | .itemSetter f, [.ptr Self, .int IDX, ValToSet] =>
    returnBool (E.getItemSetter S f Self (BitVec.ofNat 64 IDX) ValToSet)
  | _, _ => Prog.fault .invalid

/-- Call the function named `name`. -/
def callSymbol (name : String) (args : List Val) : Prog Val :=
  match E.getFunction name with
  | some g => E.invoke S g args
  | none => Prog.fault .invalid

def call (c : Call) : Prog Val := E.callSymbol S (c.func S).name (c.args S)

/-- One call, from heap to heap. -/
def CallStep (h : Heap) (e : Call × Val) (h' : Heap) : Prop := E.call S e.1 h = .ok (e.2, h')

variable {E S}

section Resolve

variable (hfun : Resolves E S)
include hfun

theorem callSymbol_of_mem {g : Func} (hg : g ∈ generatedFunctions S) (args : List Val) :
    E.callSymbol S g.name args = E.invoke S g args := by
  simp only [callSymbol, hfun g hg]

theorem call_create (arg : Field → Val) :
    E.call S (.create arg) =
      returnPtr (E.getConstructor S ((S.fields.filter (! ·.isMutable)).map arg)) :=
  callSymbol_of_mem hfun (List.mem_append_right _ List.mem_cons_self) _

theorem call_destroy (Self : Ptr) :
    E.call S (.destroy Self) = returnVoid (E.getDestructor S Self) :=
  callSymbol_of_mem hfun (g := .destructor S)
    (List.mem_append_right _ (by simp [structFunctions])) _

variable {f : Field} (hf : f ∈ S.fields)
include hf

theorem call_get (Self OutVal : Ptr) :
    E.call S (.get f Self OutVal) = returnBool (E.getGetter S f Self OutVal) :=
  callSymbol_of_mem hfun (g := .getter f) (mem_generatedFunctions hf (by simp [fieldFunctions])) _

theorem call_set (hm : f.isMutable = true) (Self : Ptr) (ToInsert : Val) :
    E.call S (.set f Self ToInsert) = returnBool (E.getSetter S f Self ToInsert 0) :=
  callSymbol_of_mem hfun (g := .setter f)
    (mem_generatedFunctions hf (by simp [fieldFunctions, hm])) _

theorem call_setArray (hm : f.isMutable = true) (Self ToInsert : Ptr) (NumElts : I64) :
    E.call S (.setArray f Self ToInsert NumElts) =
      returnBool (E.getSetter S f Self (.ptr ToInsert) NumElts) := by
  have h := callSymbol_of_mem hfun (g := .setter f)
    (mem_generatedFunctions hf (by simp [fieldFunctions, hm]))
    [.ptr Self, .ptr ToInsert, .int NumElts.toNat]
  simp only [invoke, BitVec.ofNat_toNat, BitVec.setWidth_eq] at h
  exact h

variable (hr : f.isRepeated = true)
include hr

theorem call_getItem (Self : Ptr) (IDX : I64) (OutVal : Ptr) :
    E.call S (.getItem f Self IDX OutVal) = returnBool (E.getItemGetter S f Self IDX OutVal) := by
  have h := callSymbol_of_mem hfun (g := .itemGetter f)
    (mem_generatedFunctions hf (by simp [fieldFunctions, hr]))
    [.ptr Self, .int IDX.toNat, .ptr OutVal]
  simp only [invoke, BitVec.ofNat_toNat, BitVec.setWidth_eq] at h
  exact h

theorem call_setItem (Self : Ptr) (IDX : I64) (ValToSet : Val) :
    E.call S (.setItem f Self IDX ValToSet) =
      returnBool (E.getItemSetter S f Self IDX ValToSet) := by
  have h := callSymbol_of_mem hfun (g := .itemSetter f)
    (mem_generatedFunctions hf (by simp [fieldFunctions, hr]))
    [.ptr Self, .int IDX.toNat, ValToSet]
  simp only [invoke, BitVec.ofNat_toNat, BitVec.setWidth_eq] at h
  exact h

end Resolve

end Env

end Tyr
