import Tyr.CodeGen.Visit

/-
  When IR generation gets through.

  On structs whose fields have their types and are no structs the pass declares
  `generatedFunctions` and does nothing else that could fail (`visit_eq`). Declaring them fails
  where one symbol would get two types (`alike_iff`).
-/

namespace Tyr

open Fallible

namespace LLVMIRGenPass

/-! ## One struct -/

section Struct

variable {S : Struct} {fs fs' : Functions}

theorem forM_eq_ok {α : Type} {l : List α} {k : α → Except LLVMFault Unit}
    (h : ∀ x ∈ l, k x = .ok ()) : l.forM k = .ok () := by
  induction l with
  | nil => rfl
  | cons x xs ih =>
    show (k x >>= fun _ => xs.forM k) = _
    rw [h x List.mem_cons_self]
    exact ih fun y hy => h y (List.mem_cons_of_mem x hy)

/-- The functions `runOnStruct` calls by name. -/
def calledNames (S : Struct) : List String :=
  builtinNames ++ (S.fields.filter (!·.isCount)).flatMap fun f =>
    [getSerializerName f, getDeserializerName f]

theorem mem_calledNames {f : Field} (hf : f ∈ S.fields) (hc : f.isCount = false) :
    getSerializerName f ∈ calledNames S ∧ getDeserializerName f ∈ calledNames S := by
  have hmem : f ∈ S.fields.filter (!·.isCount) := List.mem_filter.mpr ⟨hf, by simp [hc]⟩
  constructor
  · exact List.mem_append_right _ (List.mem_flatMap.mpr ⟨f, hmem, by simp⟩)
  · exact List.mem_append_right _ (List.mem_flatMap.mpr ⟨f, hmem, by simp⟩)

theorem checkInitField_eq {f : Field} (h : Checked S f) (hfs : Has fs builtinNames) :
    checkInitField S f fs = .ok () := by
  unfold checkInitField
  split
  · rfl
  split
  · rw [h.checkFieldAllocSize, hfs.callFunction malloc_mem]
    rfl
  · rfl

/-- With its fields' functions there, a struct gets its own declared. -/
theorem runOnStruct_eq (hS : S.Linked) (hp : ∀ f ∈ S.fields, f.parentType.isSome)
    (hfs : Has fs (calledNames S)) :
    runOnStruct S fs = declareAll (structFunctions S) fs := by
  have hcheck : ∀ f ∈ S.fields, checkFieldAllocSize S f = .ok () := fun f hf =>
    (checked hS hf).checkFieldAllocSize
  have hconstructor : ∀ {fs}, Has fs (calledNames S) →
      getConstructor S fs = declare (.constructor S) fs := by
    intro fs hfs
    refine declare_then hfs fun fs' hfs' => ?_
    have hinit : S.fields.forM (fun f => checkInitField S f fs') = .ok () :=
      forM_eq_ok fun f hf => checkInitField_eq (checked hS hf) hfs'.left
    rw [hfs'.left.callFunction malloc_mem, hinit]
    rfl
  have hserializer : ∀ {fs}, Has fs (calledNames S) →
      getSerializer S fs = declare (.serializer S) fs := by
    intro fs hfs
    refine declare_then hfs fun fs' hfs' => ?_
    rw [forM_eq_ok hcheck, hfs'.left.callFunction malloc_mem, forM_eq_ok fun f hf => ?_]
    · rfl
    · split
      · rfl
      · next hc =>
        rw [require_eq_ok (hp f hf)]
        exact hfs'.callFunction (mem_calledNames hf (by simpa using hc)).1
  have hdeserializer : ∀ {fs}, Has fs (calledNames S) →
      getDeserializer S fs = declare (.deserializer S) fs := by
    intro fs hfs
    refine declare_then hfs fun fs' hfs' => ?_
    rw [hfs'.left.callFunction malloc_mem, forM_eq_ok fun f hf => ?_, forM_eq_ok hcheck]
    · rfl
    · split
      · rfl
      · next hc =>
        rw [require_eq_ok (hp f hf)]
        exact hfs'.callFunction (mem_calledNames hf (by simpa using hc)).2
  have hdestructor : ∀ {fs}, Has fs (calledNames S) →
      getDestructor S fs = declare (.destructor S) fs := by
    intro fs hfs
    refine declare_then hfs fun fs' hfs' => ?_
    rw [forM_eq_ok fun f hf => ?_, hfs'.left.callFunction free_mem]
    · rfl
    · split
      · exact hfs'.left.callFunction free_mem
      · rfl
  have hkeep : ∀ {g fs fs'}, Has fs (calledNames S) → declare g fs = .ok fs' →
      Has fs' (calledNames S) := fun h hg n hn => h.declare hg n (List.mem_cons_of_mem _ hn)
  unfold runOnStruct structFunctions
  rw [hconstructor hfs, declareAll_cons]
  refine bind_congr_ok fun fs₁ h₁ => ?_
  have hfs₁ := hkeep hfs h₁
  rw [hserializer hfs₁, declareAll_cons]
  refine bind_congr_ok fun fs₂ h₂ => ?_
  have hfs₂ := hkeep hfs₁ h₂
  rw [hdeserializer hfs₂, declareAll_cons]
  refine bind_congr_ok fun fs₃ h₃ => ?_
  rw [hdestructor (hkeep hfs₂ h₃), declareAll_singleton]

theorem runOnStruct_ok (h : runOnStruct S fs = .ok fs') : S.type.isSome := by
  unfold runOnStruct getConstructor at h
  obtain ⟨fs₁, h₁, -⟩ := bind_eq_ok_iff.mp h
  obtain ⟨fs₀, h₀, -⟩ := bind_eq_ok_iff.mp h₁
  obtain ⟨type, htype, -⟩ := declare_eq_ok_iff.mp h₀
  cases hT : S.type with
  | none => simp [Func.functionType, hT] at htype
  | some T => rfl

/-- The fields in order. -/
theorem fields_eq {fields : List Field} (h : ∀ f ∈ fields, Checked S f ∧ f.isStruct = false)
    (hfs : Has fs builtinNames) :
    fields.foldlM (fun fs f => runOnField S f fs) fs =
      declareAll (fields.flatMap fieldFunctions) fs := by
  induction fields generalizing fs with
  | nil => rfl
  | cons f fields ih =>
    obtain ⟨hcheck, hs⟩ := h f List.mem_cons_self
    rw [List.foldlM_cons, List.flatMap_cons, declareAll_append, runOnField_eq hcheck hs hfs]
    refine bind_congr_ok fun fs₁ h₁ => ?_
    exact ih (fun g hg => h g (List.mem_cons_of_mem f hg)) (hfs.declareAll h₁).right

theorem visitStruct_eq (hS : S.Linked) (hs : ∀ f ∈ S.fields, f.isStruct = false)
    (hp : ∀ f ∈ S.fields, f.parentType.isSome) (hfs : Has fs builtinNames) :
    visitStruct S fs = declareAll (generatedFunctions S) fs := by
  unfold visitStruct generatedFunctions
  rw [declareAll_append, fields_eq (fun f hf => ⟨checked hS hf, hs f hf⟩) hfs]
  refine bind_congr_ok fun fs₁ h₁ => runOnStruct_eq hS hp ?_
  have hall := hfs.declareAll h₁
  intro n hn
  rcases List.mem_append.mp hn with hn | hn
  · exact hall n (List.mem_append_right _ hn)
  · refine hall n (List.mem_append_left _ ?_)
    obtain ⟨f, hf, hn⟩ := List.mem_flatMap.mp hn
    obtain ⟨hf, hc⟩ := List.mem_filter.mp hf
    have hc' : f.isCount = false := by simpa using hc
    have hmem : ∀ g ∈ [Func.fieldSerializer f, .fieldDeserializer f],
        g ∈ S.fields.flatMap fieldFunctions := fun g hg =>
      List.mem_flatMap.mpr ⟨f, hf, by simp [fieldFunctions, hc', List.mem_pair.mp hg]⟩
    rcases List.mem_pair.mp hn with rfl | rfl
    · exact List.mem_map_of_mem (hmem (.fieldSerializer f) (by simp))
    · exact List.mem_map_of_mem (hmem (.fieldDeserializer f) (by simp))

end Struct

/-! ## All structs -/

/-- Structs that know their types and have no struct fields. -/
structure Typed (S : Struct) : Prop where
  type : S.type.isSome
  parentType : ∀ f ∈ S.fields, f.parentType.isSome
  isStruct : ∀ f ∈ S.fields, f.isStruct = false

theorem exists_of_foldlM {ε α β : Type} {k : β → α → Except ε β} {l : List α} {b b' : β}
    (h : l.foldlM k b = .ok b') {x : α} (hx : x ∈ l) : ∃ c c', k c x = .ok c' := by
  induction l generalizing b with
  | nil => cases hx
  | cons y ys ih =>
    rw [List.foldlM_cons] at h
    obtain ⟨c, hc, hrest⟩ := bind_eq_ok_iff.mp h
    rcases List.mem_cons.mp hx with rfl | hx
    · exact ⟨b, c, hc⟩
    · exact ih hrest hx

section Visit

variable {order : List Struct} {fs fs' : Functions}

theorem typed_of_visit (hS : ∀ S ∈ order, S.Linked) (h : visit order = .ok fs) :
    ∀ S ∈ order, Typed S := by
  intro S hmem
  obtain ⟨fs₁, fs₂, hvisit⟩ := exists_of_foldlM h hmem
  unfold visitStruct at hvisit
  obtain ⟨fs₃, hfields, hstruct⟩ := bind_eq_ok_iff.mp hvisit
  have hfield : ∀ f ∈ S.fields, f.parentType.isSome ∧ f.isStruct = false := by
    intro f hf
    obtain ⟨fs₄, fs₅, hf'⟩ := exists_of_foldlM hfields hf
    exact runOnField_ok (checked (hS S hmem) hf) hf'
  exact ⟨runOnStruct_ok hstruct, fun f hf => (hfield f hf).1, fun f hf => (hfield f hf).2⟩

theorem visit_eq (hS : ∀ S ∈ order, S.Linked) (ht : ∀ S ∈ order, Typed S) :
    visit order = declareAll (order.flatMap generatedFunctions) builtins := by
  have key : ∀ (order : List Struct) (fs : Functions), (∀ S ∈ order, S.Linked ∧ Typed S) →
      Has fs builtinNames → order.foldlM (fun fs S => visitStruct S fs) fs =
        declareAll (order.flatMap generatedFunctions) fs := by
    intro order
    induction order with
    | nil => exact fun _ _ _ => rfl
    | cons S rest ih =>
      intro fs hall hfs
      obtain ⟨hS, ht⟩ := hall S List.mem_cons_self
      rw [List.foldlM_cons, List.flatMap_cons, declareAll_append,
        visitStruct_eq hS ht.isStruct ht.parentType hfs]
      refine bind_congr_ok fun fs₁ h₁ => ?_
      exact ih fs₁ (fun T hT => hall T (List.mem_cons_of_mem S hT)) (hfs.declareAll h₁).right
  exact key order builtins (fun S hmem => ⟨hS S hmem, ht S hmem⟩) has_builtins

/-- Typed structs have typed functions. -/
theorem functionType_isSome (hS : ∀ S ∈ order, S.Linked) (ht : ∀ S ∈ order, Typed S) :
    ∀ g ∈ order.flatMap generatedFunctions, g.functionType.isSome := by
  intro g hg
  obtain ⟨S, hmem, hg⟩ := List.mem_flatMap.mp hg
  rcases List.mem_append.mp hg with hg | hg
  · obtain ⟨f, hf, hg⟩ := List.mem_flatMap.mp hg
    obtain ⟨P, hP⟩ := Option.isSome_iff_exists.mp ((ht S hmem).parentType f hf)
    rcases mem_fieldFunctions.mp hg with rfl | ⟨-, rfl⟩ | ⟨-, rfl⟩ | ⟨hr, rfl⟩ | ⟨-, rfl⟩ | ⟨-, rfl⟩
    · simp [Func.functionType, hP]
    · simp [Func.functionType, hP]
    · simp [Func.functionType, hP]
    · have hptr := (checked (hS S hmem) hf).repeated hr
      cases hty : f.type with
      | ptr t => simp [Func.functionType, hP, hty, Ty.getPointerElementType]
      | int n => rw [hty] at hptr; cases hptr
      | float => rw [hty] at hptr; cases hptr
      | double => rw [hty] at hptr; cases hptr
      | struct i n => rw [hty] at hptr; cases hptr
    · simp [Func.functionType, hP]
    · simp [Func.functionType, hP]
  · obtain ⟨T, hT⟩ := Option.isSome_iff_exists.mp (ht S hmem).type
    unfold structFunctions at hg
    simp only [List.mem_cons, List.not_mem_nil, or_false] at hg
    rcases hg with rfl | rfl | rfl | rfl <;> simp [Func.functionType, hT]

/-! ## One symbol, one type -/

/-- The functions of one symbol have one type. -/
def Alike (gs : List Func) : Prop :=
  ∀ g ∈ gs, ∀ h ∈ gs, g.name = h.name → g.functionType = h.functionType

theorem mem_requests {gs : List Func} {x : String × FunctionType} :
    x ∈ requests gs ↔ ∃ g ∈ gs, g.name = x.1 ∧ g.functionType = some x.2 := by
  unfold requests
  rw [List.mem_filterMap]
  constructor
  · rintro ⟨g, hg, hx⟩
    obtain ⟨type, htype, rfl⟩ := Option.map_eq_some_iff.mp hx
    exact ⟨g, hg, rfl, htype⟩
  · rintro ⟨g, hg, hname, htype⟩
    exact ⟨g, hg, by rw [htype, hname]; rfl⟩

theorem name_not_builtin (g : Func) : ∀ x ∈ builtins, x.1 ≠ g.name := by
  have hprefix : ∀ op ∈ Func.operations, ∀ x ∈ builtins, ¬ op.toList <+: x.1.toList := by decide
  intro x hx hname
  apply hprefix _ g.operation_mem x hx
  rw [hname, Func.name_eq, String.toList_append]
  exact List.prefix_append _ _

theorem functional_iff {gs : List Func} (hty : ∀ g ∈ gs, g.functionType.isSome) :
    Table.Functional (builtins ++ requests gs) ↔ Alike gs := by
  constructor
  · intro h g hg k hk hname
    obtain ⟨a, ha⟩ := Option.isSome_iff_exists.mp (hty g hg)
    obtain ⟨b, hb⟩ := Option.isSome_iff_exists.mp (hty k hk)
    have hab := h (g.name, a) (List.mem_append_right _ (mem_requests.mpr ⟨g, hg, rfl, ha⟩))
      (k.name, b) (List.mem_append_right _ (mem_requests.mpr ⟨k, hk, rfl, hb⟩)) hname
    rw [ha, hb]
    exact congrArg some hab
  · intro h x hx y hy hxy
    have hbuiltins : Table.Functional builtins := by
      unfold Table.Functional
      decide
    rcases List.mem_append.mp hx with hx | hx <;> rcases List.mem_append.mp hy with hy | hy
    · exact hbuiltins x hx y hy hxy
    · obtain ⟨g, -, hname, -⟩ := mem_requests.mp hy
      exact absurd (hxy.trans hname.symm) (name_not_builtin g x hx)
    · obtain ⟨g, -, hname, -⟩ := mem_requests.mp hx
      exact absurd (hxy.symm.trans hname.symm) (name_not_builtin g y hy)
    · obtain ⟨g, hg, hgname, hgtype⟩ := mem_requests.mp hx
      obtain ⟨k, hk, hkname, hktype⟩ := mem_requests.mp hy
      have hgk := h g hg k hk (by rw [hgname, hkname, hxy])
      rw [hgtype, hktype] at hgk
      exact Option.some.inj hgk

/-- Alike fields get functions of one type. -/
theorem functionType_eq {f f' : Field} {k k' : Func} (hP : f.parentType = f'.parentType)
    (hname : f.name = f'.name) (htype : f.type = f'.type) (hr : f.isRepeated = f'.isRepeated)
    (hk : k ∈ fieldFunctions f) (hk' : k' ∈ fieldFunctions f') (h : k.name = k'.name) :
    k.functionType = k'.functionType := by
  obtain ⟨hop, hsubject⟩ := Func.name_eq_iff.mp h
  have hs : f.subject = f'.subject := by
    unfold Field.subject Field.parentName
    rw [hP, hname]
  have hi : f.itemSubject = f'.itemSubject := by rw [itemSubject_eq, itemSubject_eq, hs]
  have hne := subject_ne_itemSubject f'
  rcases mem_fieldFunctions.mp hk with
    rfl | ⟨-, rfl⟩ | ⟨-, rfl⟩ | ⟨-, rfl⟩ | ⟨-, rfl⟩ | ⟨-, rfl⟩ <;>
  rcases mem_fieldFunctions.mp hk' with
    rfl | ⟨-, rfl⟩ | ⟨-, rfl⟩ | ⟨-, rfl⟩ | ⟨-, rfl⟩ | ⟨-, rfl⟩
  -- one constructor, or different operations, or a field against its items
  all_goals first
    | (simp only [Func.functionType, hP, htype, hr]; done)
    | (simp [Func.operation] at hop; done)
    | exact absurd (hs.symm.trans hsubject) hne
    | exact absurd (hsubject.symm.trans hi) hne

end Visit

/-! ## Clashing fields -/

/-- Every struct and field has its type, no field is a struct, and fields that clash are
    declarations of one thing. -/
structure Generable (M : Module) : Prop where
  typed : ∀ S ∈ M.structs, Typed S
  alike : ∀ S ∈ M.structs, ∀ f ∈ S.fields, ∀ T ∈ M.structs, ∀ g ∈ T.fields, f.Clashes g →
    f.parentType = g.parentType ∧ f.name = g.name ∧ f.type = g.type

/-- Every order of the structs gets through, with the same functions. -/
structure Generates (M : Module) : Prop where
  total : ∀ order, order.Perm M.structs → ∃ fs, visit order = .ok fs
  independent : ∀ order order' fs fs', order.Perm M.structs → order'.Perm M.structs →
    visit order = .ok fs → visit order' = .ok fs' → ∀ x, x ∈ fs ↔ x ∈ fs'

section Module

variable {M : Module}

theorem mem_generated {S : Struct} (hS : S ∈ M.structs) {f : Field} (hf : f ∈ S.fields)
    {k : Func} (hk : k ∈ fieldFunctions f) : k ∈ M.structs.flatMap generatedFunctions :=
  List.mem_flatMap.mpr ⟨S, hS, mem_generatedFunctions hf hk⟩

/-- Functions of one type come from alike fields. -/
theorem alike_of_functions (ht : ∀ S ∈ M.structs, Typed S)
    (h : Alike (M.structs.flatMap generatedFunctions)) {S T : Struct} (hS : S ∈ M.structs)
    (hT : T ∈ M.structs) {f g : Field} (hf : f ∈ S.fields) (hg : g ∈ T.fields)
    (hclash : f.Clashes g) : f.parentType = g.parentType ∧ f.name = g.name ∧ f.type = g.type := by
  obtain ⟨P, hP⟩ := Option.isSome_iff_exists.mp ((ht S hS).parentType f hf)
  obtain ⟨Q, hQ⟩ := Option.isSome_iff_exists.mp ((ht T hT).parentType g hg)
  -- an item getter takes an index, a getter does not
  have hitem : ∀ {k k' : Field}, k.parentType.isSome → (Func.itemGetter k).functionType ≠
      (Func.getter k').functionType := by
    intro k k' hk he
    obtain ⟨R, hR⟩ := Option.isSome_iff_exists.mp hk
    cases hR' : k'.parentType with
    | none => simp [Func.functionType, hR, hR'] at he
    | some R' => simp [Func.functionType, hR, hR'] at he
  rcases hclash with hover | ⟨hr, hover⟩ | ⟨hr, hover⟩
  · have hkey := overlap_iff.mpr hover
    have htype := h _ (mem_generated hS hf (getter_mem f)) _ (mem_generated hT hg (getter_mem g))
      (Func.name_eq_iff.mpr ⟨rfl, hkey⟩)
    simp only [Func.functionType, hP, hQ, Option.map_some, Option.some.injEq, FunctionType.mk.injEq,
      List.cons.injEq, Ty.ptr.injEq, true_and, and_true] at htype
    obtain ⟨rfl, hty⟩ := htype
    have hparent : f.parentName = g.parentName := by
      unfold Field.parentName
      rw [hP, hQ]
    rw [hparent, String.append_right_inj] at hkey
    exact ⟨hP.trans hQ.symm, hkey, hty⟩
  · exact absurd (h _ (mem_generated hS hf (itemGetter_mem hr)) _
      (mem_generated hT hg (getter_mem g)) (Func.name_eq_iff.mpr ⟨rfl, overlap_iff.mpr hover⟩))
      (hitem (by rw [hP]; rfl))
  · exact absurd (h _ (mem_generated hT hg (itemGetter_mem hr)) _
      (mem_generated hS hf (getter_mem f)) (Func.name_eq_iff.mpr ⟨rfl, overlap_iff.mpr hover⟩))
      (hitem (by rw [hQ]; rfl))

theorem functions_alike (hnames : M.names.Nodup) (hM : ∀ S ∈ M.structs, S.Linked)
    (h : Generable M) : Alike (M.structs.flatMap generatedFunctions) := by
  have hrep : ∀ S ∈ M.structs, ∀ f ∈ S.fields, f.isRepeated = f.type.isPointerTy := by
    intro S hS f hf
    rw [(checked (hM S hS) hf).pointerTy, (h.typed S hS).isStruct f hf, Bool.false_or]
  have hop : ∀ {k k' : Func}, k.operation ∈ ["get_", "set_", "__serialize_", "__deserialize_"] →
      k'.operation ∈ ["create_", "serialize_", "deserialize_", "destroy_"] → k.name ≠ k'.name := by
    intro k k' hk hk' he
    exact operations_disjoint _ hk _ hk' (Func.name_eq_iff.mp he).1
  intro k hk k' hk' hname
  obtain ⟨S, hS, hk⟩ := List.mem_flatMap.mp hk
  obtain ⟨T, hT, hk'⟩ := List.mem_flatMap.mp hk'
  rcases List.mem_append.mp hk with hk | hk <;> rcases List.mem_append.mp hk' with hk' | hk'
  · -- two fields with a common symbol
    obtain ⟨f, hf, hk⟩ := List.mem_flatMap.mp hk
    obtain ⟨g, hg, hk'⟩ := List.mem_flatMap.mp hk'
    have hclash : f.Clashes g := by
      by_contra hc
      exact disjoint_iff.mpr hc (List.mem_map_of_mem hk) (hname ▸ List.mem_map_of_mem hk')
    obtain ⟨hparent, hfg, hty⟩ := h.alike S hS f hf T hT g hg hclash
    refine functionType_eq hparent hfg hty ?_ hk hk' hname
    rw [hrep S hS f hf, hrep T hT g hg, hty]
  · obtain ⟨f, -, hk⟩ := List.mem_flatMap.mp hk
    exact absurd hname (hop (operation_of_mem_field hk) (structFunction_of_mem hk').1)
  · obtain ⟨g, -, hk'⟩ := List.mem_flatMap.mp hk'
    exact absurd hname.symm (hop (operation_of_mem_field hk') (structFunction_of_mem hk).1)
  · -- two functions of one struct
    obtain ⟨hoperation, hsubject⟩ := Func.name_eq_iff.mp hname
    rw [(structFunction_of_mem hk).2, (structFunction_of_mem hk').2] at hsubject
    obtain rfl := Parser.Module.eq_of_name hnames hS hT hsubject
    unfold structFunctions at hk hk'
    simp only [List.mem_cons, List.not_mem_nil, or_false] at hk hk'
    rcases hk with rfl | rfl | rfl | rfl <;> rcases hk' with rfl | rfl | rfl | rfl <;>
      first
        | rfl
        | simp [Func.operation] at hoperation

theorem functional_builtins : Table.Functional builtins := by
  unfold Table.Functional
  decide

/-- On typed structs the pass is declaring their functions. -/
theorem visit_perm_eq (hM : ∀ S ∈ M.structs, S.Linked) (ht : ∀ S ∈ M.structs, Typed S)
    {order : List Struct} (horder : order.Perm M.structs) :
    visit order = declareAll (order.flatMap generatedFunctions) builtins ∧
    ∀ g ∈ order.flatMap generatedFunctions, g.functionType.isSome := by
  have hmem : ∀ S ∈ order, S ∈ M.structs := fun S hS => horder.mem_iff.mp hS
  exact ⟨visit_eq (fun S hS => hM S (hmem S hS)) fun S hS => ht S (hmem S hS),
    functionType_isSome (fun S hS => hM S (hmem S hS)) fun S hS => ht S (hmem S hS)⟩

theorem generable_of_visit (hM : ∀ S ∈ M.structs, S.Linked) {fs : Functions}
    (hfs : visit M.structs = .ok fs) : Generable M := by
  have ht := typed_of_visit hM hfs
  obtain ⟨heq, htyped⟩ := visit_perm_eq hM ht (.refl _)
  rw [heq, declareAll_eq_ok_iff] at hfs
  have halike := (functional_iff htyped).mp
    ((Table.insertAll_eq_ok_iff functional_builtins).mp ⟨fs, hfs.2⟩)
  exact ⟨ht, fun S hS f hf T hT g hg hc => alike_of_functions ht halike hS hT hf hg hc⟩

theorem visit_of_generable (hnames : M.names.Nodup) (hM : ∀ S ∈ M.structs, S.Linked)
    (h : Generable M) {order : List Struct} (horder : order.Perm M.structs) :
    ∃ fs, visit order = .ok fs := by
  obtain ⟨heq, htyped⟩ := visit_perm_eq hM h.typed horder
  have hperm : (order.flatMap generatedFunctions).Perm (M.structs.flatMap generatedFunctions) :=
    horder.flatMap_right generatedFunctions
  have halike : Alike (order.flatMap generatedFunctions) := fun g hg k hk =>
    functions_alike hnames hM h g (hperm.mem_iff.mp hg) k (hperm.mem_iff.mp hk)
  obtain ⟨fs, hfs⟩ :=
    (Table.insertAll_eq_ok_iff functional_builtins).mpr ((functional_iff htyped).mpr halike)
  exact ⟨fs, by rw [heq, declareAll_eq_ok_iff]; exact ⟨htyped, hfs⟩⟩

/-- The functions after the pass. -/
theorem mem_visit (hM : ∀ S ∈ M.structs, S.Linked) (ht : ∀ S ∈ M.structs, Typed S)
    {order : List Struct} (horder : order.Perm M.structs) {fs : Functions}
    (hfs : visit order = .ok fs) (x : String × FunctionType) :
    x ∈ fs ↔ x ∈ builtins ∨ ∃ g ∈ M.structs.flatMap generatedFunctions,
      g.name = x.1 ∧ g.functionType = some x.2 := by
  obtain ⟨heq, -⟩ := visit_perm_eq hM ht horder
  rw [heq, declareAll_eq_ok_iff] at hfs
  rw [Table.mem_insertAll hfs.2, List.mem_append, mem_requests]
  simp only [(horder.flatMap_right generatedFunctions).mem_iff]

/-- The pass gets through a linked module exactly when it is generable. -/
theorem generates_iff (hnames : M.names.Nodup) (hM : ∀ S ∈ M.structs, S.Linked) :
    Generates M ↔ Generable M := by
  constructor
  · intro h
    obtain ⟨fs, hfs⟩ := h.total M.structs (.refl _)
    exact generable_of_visit hM hfs
  · intro h
    refine ⟨fun order horder => visit_of_generable hnames hM h horder, ?_⟩
    intro order order' fs fs' horder horder' hfs hfs' x
    rw [mem_visit hM h.typed horder hfs, mem_visit hM h.typed horder' hfs']

end Module

/-! ## Main results -/

/-- IR generation gets through an accepted module, in every order of the structs and with the
    same functions, exactly when the module is generable. -/
theorem visit_total_iff {std : StdSort .default} {input : List Char} {M : Module}
    (h : Parser.parseFile std input = .ok (true, M)) : Generates M ↔ Generable M := by
  obtain ⟨P, hrun, rfl⟩ := Parser.run_of_parseFile h
  have hcons := Parser.consistent_of_run hrun
  exact generates_iff hcons.names_nodup hcons.linked

theorem visit_total_iff_small :
    Generates ⟨[Parser.smallStruct.finalizeFields (.stable .default) (.struct 0 "a")],
      ⟨["a"], 0, 1⟩⟩ ↔
    Generable ⟨[Parser.smallStruct.finalizeFields (.stable .default) (.struct 0 "a")],
      ⟨["a"], 0, 1⟩⟩ := visit_total_iff Parser.parseFile_smallFile

/-- `struct b { a y }` -/
def outerStruct : Struct := (Struct.new "b").addField "y" (.ptr (.struct 0 "a")) false

/-- The name of a pointer type is asked for. -/
theorem struct_field_fails :
    ∃ M, Parser.parseFile (.stable .default)
        "struct a \x7b\n  int8 x\n\x7d\nstruct b \x7b\n  a y\n\x7d\n".toList = .ok (true, M) ∧
      visit M.structs = .error .notAStruct := by
  refine ⟨⟨[Parser.smallStruct.finalizeFields (.stable .default) (.struct 0 "a"),
    outerStruct.finalizeFields (.stable .default) (.struct 1 "b")], ⟨["b", "a"], 0, 2⟩⟩, by rfl, ?_⟩
  rw [Struct.finalizeFields_stable _ (by decide), Struct.finalizeFields_stable _ (by decide)]
  rfl

end LLVMIRGenPass

end Tyr
