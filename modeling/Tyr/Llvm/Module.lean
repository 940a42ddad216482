import Tyr.Llvm.Structs
import Tyr.CodeGen.Visit
import Tyr.Wire.Nested

/-
  The module `LLVMIRGenPass` builds, and the calls of its functions.

  A generator declares its function, appends a block to it and builds from there. Functions call
  each other by name; the three builtins are the C library's, under the names the module has for
  them. `callFunction` bounds the stack: a struct's function calls its fields' functions, and these
  call builtins, so three calls at once are enough.
-/

namespace Tyr

open Prog

namespace Llvm

open Ssa Builder

/-! ## The module -/

/-- The names the module has for `malloc`, `realloc` and `free`. -/
structure Builtins where
  malloc : String
  realloc : String
  free : String

def Builtins.names (B : Builtins) : List String := [B.malloc, B.realloc, B.free]

/-- A function that is only declared has no blocks. -/
structure Module where
  functions : Functions
  code : String → Code Op Val

def getOrInsertFunction (fs : Functions) (name : String) (type : FunctionType) : Functions :=
  if (fs.lookup name).isSome then fs else fs ++ [(name, type)]

def finalizeBuiltins (B : Builtins) : Module where
  functions :=
    let fs := getOrInsertFunction [] B.malloc ⟨some .i8Ptr, [.i64]⟩
    let fs := getOrInsertFunction fs B.realloc ⟨some .i8Ptr, [.i8Ptr, .i64]⟩
    getOrInsertFunction fs B.free ⟨none, [.i8Ptr]⟩
  code _ := .empty

section Visit

variable (DL : DataLayout) (B : Builtins)

def context (functions : Functions) : Context where
  layout := DL
  malloc := B.malloc
  realloc := B.realloc
  free := B.free
  hasFunction name := (functions.lookup name).isSome

/-- One generator: its function, with a new block. -/
def addFunction (S : Struct) (M : Module) (g : Func) : Option Module := do
  let functions ← (declare g M.functions).toOption
  let (_, s) ← (body (context DL B functions) S g).run (.newBlock (M.code g.name))
  some ⟨functions, Function.update M.code g.name s.toCode⟩

/-- The generators in the order `Module::visit` calls them. -/
def visitStruct (S : Struct) (M : Module) : Option Module :=
  (generatedFunctions S).foldlM (addFunction DL B S) M

def visit (order : List Struct) : Option Module :=
  order.foldlM (fun M S => visitStruct DL B S M) (finalizeBuiltins B)

end Visit

/-! ## Calls -/

section Call

variable (B : Builtins) (E : Env) (M : Module)

/-- Call the function `name` with room for so many calls at once. -/
def callFunction : Nat → String → List Val → Nat → Part Val
  | 0, _, _, _ => Part.exhausted
  | depth + 1, name, args, fuel =>
    if name = B.malloc then
      match args with
      | [n] => Part.ofProg (returnPtr (malloc E.alloc n.asI64))
      | _ => Part.fault .invalid
    else if name = B.realloc then
      match args with
      | [p, n] => Part.ofProg (returnPtr (realloc E.alloc p.asPtr n.asI64))
      | _ => Part.fault .invalid
    else if name = B.free then
      match args with
      | [p] => Part.ofProg (returnVoid (free p.asPtr))
      | _ => Part.fault .invalid
    else Ssa.call (machine E (callFunction depth)) (M.code name) args fuel

end Call

/-- What a call of a generated function should do. -/
def perform (E : Env) (S : Struct) : Func → List Val → Prog Val
  | .fieldSerializer f, [.ptr Self, .ptr OutBuf] => returnI64 (E.fieldSerializer S f Self OutBuf)
  | .fieldDeserializer f, [.ptr Self, .ptr InBuf] => returnI64 (E.fieldDeserializer S f Self InBuf)
  | .serializer T, [.ptr Self] => returnPtr (E.getSerializer T Self)
  | .deserializer T, [.ptr SerializedSelf] => returnPtr (E.getDeserializer T SerializedSelf)
  | g, args => E.invoke S g args

/-- The value can be passed as a `t`. -/
def Admits : Ty → Val → Prop
  | .ptr _, v => ∃ p, v = .ptr p
  | .int n, v => ∃ k, v = .int k ∧ k < 2 ^ n
  | _, v => ∃ k, v = .int k

/-- The arguments are of the function's type. -/
def Accepts (g : Func) (args : List Val) : Prop :=
  ∃ type, g.functionType = some type ∧ List.Forall₂ Admits type.params args

theorem Admits.i64 {v : Val} (h : Admits .i64 v) : ∃ n : I64, v = .i64 n := by
  obtain ⟨k, rfl, hk⟩ := h
  exact ⟨BitVec.ofNat 64 k, by rw [Val.i64, BitVec.toNat_ofNat, Nat.mod_eq_of_lt hk]⟩

/-! ## The blocks of each function -/

section Bodies

variable {C : Context} {E : Env} {S : Struct} {callee : String → List Val → Nat → Part Val}
  {F : Code Op Val} {f : Field} {args : List Val}
  (hlink : Links C E callee) (wf : S.WellFormed)
include hlink wf

section Field

variable (hf : f ∈ S.fields)
include hf

theorem emits_setter (hargs : Accepts (.setter f) args) :
    Emits (machine E callee) F (argFacts args) [] 0 (getSetter C S f)
      (perform E S (.setter f) args) := by
  obtain ⟨type, htype, hargs⟩ := hargs
  obtain ⟨P, -, rfl⟩ := Option.map_eq_some_iff.mp htype
  cases hr : f.isRepeated with
  | true =>
    simp only [hr, if_true] at hargs
    rcases hargs with _ | ⟨⟨Self, rfl⟩, _ | ⟨hto, _ | ⟨hn, ⟨⟩⟩⟩⟩
    obtain ⟨n, rfl⟩ := hn.i64
    have hperform : ∀ v, perform E S (.setter f) [.ptr Self, v, .i64 n] =
        returnBool (E.getSetter S f Self v n) := by
      intro v
      show returnBool (E.getSetter S f Self v (BitVec.ofNat 64 n.toNat)) = _
      rw [BitVec.ofNat_toNat, BitVec.setWidth_eq]
    rw [hperform]
    refine emits_getSetter hlink wf hf ⟨_, denotes_arg rfl, rfl⟩ (denotes_arg rfl)
      (fun _ => denotes_arg rfl) fun hc => ?_
    rw [(wf.array_spec hf hr).2.2.2.1] at hc
    cases hc
  | false =>
    simp only [hr, Bool.false_eq_true, if_false] at hargs
    rcases hargs with _ | ⟨⟨Self, rfl⟩, _ | ⟨hto, ⟨⟩⟩⟩
    refine emits_getSetter hlink wf hf ⟨_, denotes_arg rfl, rfl⟩ (denotes_arg rfl) (fun h => ?_)
      fun hc => ?_
    · rw [hr] at h
      cases h
    · rw [(wf.count_spec hf hc).1] at hto
      exact hto.i64

omit hlink in
theorem emits_itemGetter (hr : f.isRepeated = true) (hargs : Accepts (.itemGetter f) args) :
    Emits (machine E callee) F (argFacts args) [] 0 (getItemGetter S f)
      (perform E S (.itemGetter f) args) := by
  obtain ⟨type, htype, hargs⟩ := hargs
  obtain ⟨P, -, rfl⟩ := Option.map_eq_some_iff.mp htype
  rw [(wf.array_spec hf hr).1] at hargs
  rcases hargs with _ | ⟨⟨Self, rfl⟩, _ | ⟨hn, _ | ⟨⟨OutVal, rfl⟩, ⟨⟩⟩⟩⟩
  obtain ⟨n, rfl⟩ := hn.i64
  have hperform : perform E S (.itemGetter f) [.ptr Self, .i64 n, .ptr OutVal] =
      returnBool (E.getItemGetter S f Self n OutVal) := by
    show returnBool (E.getItemGetter S f Self (BitVec.ofNat 64 n.toNat) OutVal) = _
    rw [BitVec.ofNat_toNat, BitVec.setWidth_eq]
  rw [hperform]
  exact emits_getItemGetter wf hf hr Self OutVal n

omit hlink in
theorem emits_itemSetter (hr : f.isRepeated = true) (hargs : Accepts (.itemSetter f) args) :
    Emits (machine E callee) F (argFacts args) [] 0 (getItemSetter S f)
      (perform E S (.itemSetter f) args) := by
  obtain ⟨type, htype, hargs⟩ := hargs
  obtain ⟨P, -, htype⟩ := Option.bind_eq_some_iff.mp htype
  obtain ⟨e, -, rfl⟩ := Option.map_eq_some_iff.mp htype
  rcases hargs with _ | ⟨⟨Self, rfl⟩, _ | ⟨hn, _ | ⟨hval, ⟨⟩⟩⟩⟩
  obtain ⟨n, rfl⟩ := hn.i64
  have hperform : ∀ v, perform E S (.itemSetter f) [.ptr Self, .i64 n, v] =
      returnBool (E.getItemSetter S f Self n v) := by
    intro v
    show returnBool (E.getItemSetter S f Self (BitVec.ofNat 64 n.toNat) v) = _
    rw [BitVec.ofNat_toNat, BitVec.setWidth_eq]
  rw [hperform]
  exact emits_getItemSetter wf hf hr Self n _

/-- The functions of a field call builtins only. -/
theorem emits_fieldFunction {g : Func} (hg : g ∈ fieldFunctions f) (hargs : Accepts g args) :
    Emits (machine E callee) F (argFacts args) [] 0 (body C S g) (perform E S g args) := by
  rcases mem_fieldFunctions.mp hg with rfl | ⟨hr, rfl⟩ | ⟨-, rfl⟩ | ⟨hr, rfl⟩ | ⟨-, rfl⟩ | ⟨-, rfl⟩
  · obtain ⟨type, htype, hargs⟩ := hargs
    obtain ⟨P, -, rfl⟩ := Option.map_eq_some_iff.mp htype
    rcases hargs with _ | ⟨⟨Self, rfl⟩, _ | ⟨⟨OutVal, rfl⟩, ⟨⟩⟩⟩
    exact emits_getGetter hlink wf hf Self OutVal
  · exact emits_itemGetter wf hf hr hargs
  · exact emits_setter hlink wf hf hargs
  · exact emits_itemSetter wf hf hr hargs
  · obtain ⟨type, htype, hargs⟩ := hargs
    obtain ⟨P, -, rfl⟩ := Option.map_eq_some_iff.mp htype
    rcases hargs with _ | ⟨⟨Self, rfl⟩, _ | ⟨⟨OutBuf, rfl⟩, ⟨⟩⟩⟩
    exact emits_fieldSerializer hlink wf hf Self OutBuf
  · obtain ⟨type, htype, hargs⟩ := hargs
    obtain ⟨P, -, rfl⟩ := Option.map_eq_some_iff.mp htype
    rcases hargs with _ | ⟨⟨Self, rfl⟩, _ | ⟨⟨InBuf, rfl⟩, ⟨⟩⟩⟩
    exact emits_fieldDeserializer hlink wf hf Self InBuf

end Field

/-- Those of a struct call the functions of its fields too. -/
theorem emits_structFunction (hcalls : LinksFields C E S callee) (hfun : E.Resolves S) {g : Func}
    (hg : g ∈ structFunctions S) (hargs : Accepts g args) :
    Emits (machine E callee) F (argFacts args) [] 0 (body C S g) (perform E S g args) := by
  obtain ⟨type, htype, hargs⟩ := hargs
  simp only [structFunctions, List.mem_cons, List.not_mem_nil, or_false] at hg
  rcases hg with rfl | rfl | rfl | rfl
  · obtain ⟨T, -, rfl⟩ := Option.map_eq_some_iff.mp htype
    have hlen := hargs.length_eq
    rw [List.length_map] at hlen
    exact emits_getConstructor hlink wf hlen
  · obtain ⟨T, -, rfl⟩ := Option.map_eq_some_iff.mp htype
    rcases hargs with _ | ⟨⟨Self, rfl⟩, ⟨⟩⟩
    exact emits_getSerializer hlink wf hcalls hfun Self
  · obtain ⟨T, -, rfl⟩ := Option.map_eq_some_iff.mp htype
    rcases hargs with _ | ⟨⟨SerializedSelf, rfl⟩, ⟨⟩⟩
    exact emits_getDeserializer hlink wf hcalls hfun SerializedSelf
  · obtain ⟨T, -, rfl⟩ := Option.map_eq_some_iff.mp htype
    rcases hargs with _ | ⟨⟨Self, rfl⟩, ⟨⟩⟩
    exact emits_getDestructor hlink Self

end Bodies

/-! ## What a generator leaves -/

/-- The code is what the generator of `g` builds in a new function. -/
def Emitted (DL : DataLayout) (B : Builtins) (S : Struct) (g : Func) (F : Code Op Val) : Prop :=
  ∃ functions u s, (body (context DL B functions) S g).run (.newBlock .empty) = some (u, s) ∧
    F = s.toCode

section Emitted

variable {DL : DataLayout} {B : Builtins} {S : Struct} {M M' : Module} {gs : List Func}

/-- One generator, in a module that does not have its function yet. -/
theorem addFunction_emits {g : Func} (hempty : M.code g.name = .empty)
    (h : addFunction DL B S M g = some M') :
    Emitted DL B S g (M'.code g.name) ∧ ∀ name, name ≠ g.name → M'.code name = M.code name := by
  obtain ⟨functions, -, h⟩ := Option.bind_eq_some_iff.mp h
  obtain ⟨⟨u, s⟩, hrun, h⟩ := Option.bind_eq_some_iff.mp h
  obtain rfl := Option.some.inj h
  rw [hempty] at hrun
  refine ⟨⟨functions, u, s, hrun, Function.update_self _ _ _⟩, fun name hname => ?_⟩
  exact Function.update_of_ne hname _ _

/-- A list of generators whose functions have different names. -/
theorem addFunctions_emit (hn : (gs.map Func.name).Nodup)
    (hempty : ∀ g ∈ gs, M.code g.name = .empty)
    (h : gs.foldlM (addFunction DL B S) M = some M') :
    (∀ g ∈ gs, Emitted DL B S g (M'.code g.name)) ∧
      ∀ name, name ∉ gs.map Func.name → M'.code name = M.code name := by
  induction gs generalizing M with
  | nil =>
    obtain rfl := Option.some.inj h
    exact ⟨fun g hg => (List.not_mem_nil hg).elim, fun _ _ => rfl⟩
  | cons g gs ih =>
    rw [List.map_cons, List.nodup_cons] at hn
    obtain ⟨M₁, h₁, h⟩ := Option.bind_eq_some_iff.mp h
    obtain ⟨hg, hrest⟩ := addFunction_emits (hempty g List.mem_cons_self) h₁
    have hne : ∀ k ∈ gs, k.name ≠ g.name := fun k hk he => hn.1 (he ▸ List.mem_map_of_mem hk)
    obtain ⟨hgs, hothers⟩ := ih hn.2 (fun k hk =>
      (hrest _ (hne k hk)).trans (hempty k (List.mem_cons_of_mem _ hk))) h
    refine ⟨fun k hk => ?_, fun name hname => ?_⟩
    · rcases List.mem_cons.mp hk with rfl | hk
      · rw [hothers _ hn.1]
        exact hg
      · exact hgs k hk
    · rw [List.map_cons, List.mem_cons, not_or] at hname
      rw [hothers _ hname.2, hrest _ hname.1]

/-- Structs whose functions have different names. -/
theorem visitStructs_emit {order : List Struct} (hn : Tyr.DistinctNames order)
    (hempty : ∀ S ∈ order, ∀ g ∈ generatedFunctions S, M.code g.name = .empty)
    (h : order.foldlM (fun M S => visitStruct DL B S M) M = some M') :
    (∀ S ∈ order, ∀ g ∈ generatedFunctions S, Emitted DL B S g (M'.code g.name)) ∧
      ∀ name, name ∉ (order.flatMap generatedFunctions).map Func.name →
        M'.code name = M.code name := by
  induction order generalizing M with
  | nil =>
    obtain rfl := Option.some.inj h
    exact ⟨fun S hS => (List.not_mem_nil hS).elim, fun _ _ => rfl⟩
  | cons S order ih =>
    unfold Tyr.DistinctNames at hn
    rw [List.flatMap_cons, List.map_append, List.nodup_append] at hn
    obtain ⟨hnS, hnrest, hdisj⟩ := hn
    obtain ⟨M₁, h₁, h⟩ := Option.bind_eq_some_iff.mp h
    obtain ⟨hS, hkeep⟩ := addFunctions_emit hnS (hempty S List.mem_cons_self) h₁
    have hmem : ∀ T ∈ order, ∀ g ∈ generatedFunctions T,
        g.name ∈ (order.flatMap generatedFunctions).map Func.name := fun T hT g hg =>
      List.mem_map_of_mem (List.mem_flatMap.mpr ⟨T, hT, hg⟩)
    obtain ⟨hrest, hothers⟩ := ih hnrest (fun T hT g hg => by
      rw [hkeep _ fun hin => hdisj _ hin _ (hmem T hT g hg) rfl]
      exact hempty T (List.mem_cons_of_mem _ hT) g hg) h
    refine ⟨fun T hT g hg => ?_, fun name hname => ?_⟩
    · rcases List.mem_cons.mp hT with rfl | hT
      · rw [hothers _ fun hin => hdisj _ (List.mem_map_of_mem hg) _ hin rfl]
        exact hS g hg
      · exact hrest T hT g hg
    · rw [List.flatMap_cons, List.map_append, List.mem_append, not_or] at hname
      rw [hothers _ hname.2, hkeep _ hname.1]

end Emitted

/-! ## Calls of generated functions -/

section Runs

variable {B : Builtins} {E : Env} {M : Module} {S : Struct} {C : Context}

/-- The builtins have three names. -/
theorem links_callFunction {functions : Functions} (hB : B.names.Nodup) (depth : Nat) :
    Links (context E.layout B functions) E (callFunction B E M (depth + 1)) := by
  obtain ⟨hmr, hmf, hrf⟩ : B.malloc ≠ B.realloc ∧ B.malloc ≠ B.free ∧ B.realloc ≠ B.free := by
    simpa [Builtins.names, and_assoc] using hB
  refine ⟨rfl, fun n => ?_, fun p n => ?_, fun p => ?_⟩
  · simp only [callFunction, context, if_true]
    exact Runs.const _
  · simp only [callFunction, context, hmr.symm, if_false, if_true]
    exact Runs.const _
  · simp only [callFunction, context, hmf.symm, hrf.symm, if_false, if_true]
    exact Runs.const _

/-- A function that is no builtin runs its blocks. -/
theorem runs_callFunction {name : String} (hname : name ∉ B.names) {m : IRBuilder Unit} {u : Unit}
    {s : State Op Val} {depth : Nat} {args : List Val} {c : Prog Val}
    (hcode : M.code name = s.toCode) (hrun : m.run (.newBlock .empty) = some (u, s))
    (hm : Emits (machine E (callFunction B E M depth)) s.toCode (argFacts args) [] 0 m c) :
    Runs (callFunction B E M (depth + 1) name args) c := by
  obtain ⟨hmalloc, hrealloc, hfree⟩ : name ≠ B.malloc ∧ name ≠ B.realloc ∧ name ≠ B.free := by
    simpa [Builtins.names] using hname
  have hcall : callFunction B E M (depth + 1) name args =
      Ssa.call (machine E (callFunction B E M depth)) s.toCode args := by
    funext fuel
    simp only [callFunction, hmalloc, hrealloc, hfree, if_false, hcode]
  rw [hcall]
  exact Emits.call hrun (Code.Le.refl _) hm

variable {DL : DataLayout} (hB : B.names.Nodup) (hDL : E.layout = DL) (wf : S.WellFormed)
  (hnames : ∀ g ∈ generatedFunctions S, g.name ∉ B.names)
  (hcode : ∀ g ∈ generatedFunctions S, Emitted DL B S g (M.code g.name))
include hB hDL wf hnames hcode

theorem runs_fieldFunction {f : Field} (hf : f ∈ S.fields) {g : Func} (hg : g ∈ fieldFunctions f)
    {args : List Val} (hargs : Accepts g args) (depth : Nat) :
    Runs (callFunction B E M (depth + 2) g.name args) (perform E S g args) := by
  subst hDL
  have hmem := mem_generatedFunctions hf hg
  obtain ⟨functions, u, s, hrun, hs⟩ := hcode g hmem
  exact runs_callFunction (hnames g hmem) hs hrun
    (emits_fieldFunction (links_callFunction hB depth) wf hf hg hargs)

theorem linksFields_callFunction (depth : Nat) (functions : Functions) :
    LinksFields (context DL B functions) E S (callFunction B E M (depth + 2)) := by
  have hparent : ∀ f ∈ S.fields, ∃ P, f.parentType = some P := fun f hf => by
    rw [wf.parentType_eq f hf]
    exact Option.isSome_iff_exists.mp wf.isSome_type
  refine ⟨fun f hf hc Self OutBuf => ?_, fun f hf hc Self InBuf => ?_⟩
  · obtain ⟨P, hP⟩ := hparent f hf
    refine runs_fieldFunction hB hDL wf hnames hcode hf (g := .fieldSerializer f)
      (mem_fieldFunctions.mpr (by simp [hc])) ⟨_, congrArg (Option.map _) hP, ?_⟩ depth
    exact .cons ⟨Self, rfl⟩ (.cons ⟨OutBuf, rfl⟩ .nil)
  · obtain ⟨P, hP⟩ := hparent f hf
    refine runs_fieldFunction hB hDL wf hnames hcode hf (g := .fieldDeserializer f)
      (mem_fieldFunctions.mpr (by simp [hc])) ⟨_, congrArg (Option.map _) hP, ?_⟩ depth
    exact .cons ⟨Self, rfl⟩ (.cons ⟨InBuf, rfl⟩ .nil)

theorem runs_generated (hE : E.Resolves S) {g : Func} (hg : g ∈ generatedFunctions S)
    {args : List Val} (hargs : Accepts g args) (depth : Nat) :
    Runs (callFunction B E M (depth + 3) g.name args) (perform E S g args) := by
  rcases List.mem_append.mp hg with hgf | hgs
  · obtain ⟨f, hf, hgf⟩ := List.mem_flatMap.mp hgf
    exact runs_fieldFunction hB hDL wf hnames hcode hf hgf hargs (depth + 1)
  · obtain ⟨functions, u, s, hrun, hs⟩ := hcode g hg
    have hcalls := linksFields_callFunction hB hDL wf hnames hcode depth functions
    subst hDL
    exact runs_callFunction (hnames g hg) hs hrun
      (emits_structFunction (links_callFunction hB (depth + 1)) wf hcalls hE hgs hargs)

end Runs

/-- For every module the generators get through, with names that are all distinct: a call of a
    generated function, with arguments of its type and room for three calls at once, runs to the
    end of what the function of `Tyr.CodeGen` does on every heap: the same result, the same heap
    or the same fault. -/
theorem visit_refines {DL : DataLayout} {B : Builtins} {order : List Struct} {M : Module}
    (hvisit : visit DL B order = some M) (wf : ∀ S ∈ order, S.WellFormed)
    (hn : Tyr.DistinctNames order) (hB : B.names.Nodup)
    (hnames : ∀ S ∈ order, ∀ g ∈ generatedFunctions S, g.name ∉ B.names) (A : Allocator)
    {S : Struct} (hS : S ∈ order) {g : Func} (hg : g ∈ generatedFunctions S) {args : List Val}
    (hargs : Accepts g args) {depth : Nat} (hdepth : 3 ≤ depth) :
    Runs (callFunction B (.ofModule A DL order) M depth g.name args)
      (perform (.ofModule A DL order) S g args) := by
  obtain ⟨d, rfl⟩ : ∃ d, depth = d + 3 := ⟨depth - 3, by omega⟩
  have hempty : ∀ S ∈ order, ∀ g ∈ generatedFunctions S,
      (finalizeBuiltins B).code g.name = .empty := fun _ _ _ _ => rfl
  unfold visit at hvisit
  have hcode := (visitStructs_emit hn hempty hvisit).1
  have hlayout : (Env.ofModule A DL order).layout = DL := rfl
  exact runs_generated hB hlayout (wf S hS) (hnames S hS) (hcode S hS) (resolves_ofModule hn hS)
    hg hargs d

/-- `set_path_x` in the module of `path`. -/
theorem visit_refines_path : ∃ M,
    visit .default ⟨"malloc", "realloc", "free"⟩ [pathStruct] = some M ∧
    Runs (callFunction ⟨"malloc", "realloc", "free"⟩ (.ofModule .calloc .default [pathStruct]) M 3
        "set_path_x" [.ptr (.base 0), .ptr (.base 1), .int 2])
      (returnBool ((Env.ofModule .calloc .default [pathStruct]).getSetter pathStruct pathX
        (.base 0) (.ptr (.base 1)) 2)) := by
  have hsome : (visit .default ⟨"malloc", "realloc", "free"⟩ [pathStruct]).isSome = true := by
    decide +kernel
  obtain ⟨M, hM⟩ := Option.isSome_iff_exists.mp hsome
  refine ⟨M, hM, ?_⟩
  exact visit_refines hM (List.forall_mem_singleton.mpr pathStruct_isFlat.toWellFormed)
    (by unfold Tyr.DistinctNames; decide) (by decide)
    (List.forall_mem_singleton.mpr (by decide)) .calloc (List.mem_singleton_self _)
    (g := .setter pathX) (by decide)
    ⟨_, rfl, .cons ⟨_, rfl⟩ (.cons ⟨_, rfl⟩ (.cons ⟨2, rfl, by decide⟩ .nil))⟩ (Nat.le_refl 3)

end Llvm

end Tyr
