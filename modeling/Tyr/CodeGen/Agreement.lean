import Tyr.CodeGen.Header

/-
  When the C header matches the generated functions.

  `Struct.Labelled` is what the printed names rely on: a count is named after its array and
  parents are struct types. Every struct of an accepted module has it.
-/

namespace Tyr

/-! ## Labels -/

/-- Counts are named after their arrays, and parents are struct types. -/
structure Struct.Labelled (S : Struct) : Prop where
  count : ∀ r ∈ S.fields, r.isRepeated = true →
    ∃ c ∈ S.fields, r.countField = some c.id ∧ c.isCount = true ∧ c.name = r.name ++ "_count"
  parent : ∀ f ∈ S.fields, ∀ P, f.parentType = some P → P.isStructTy = true

namespace Struct.Labelled

variable {S : Struct}

theorem new (name : String) : (Struct.new name).Labelled where
  count _ hr := nomatch hr
  parent _ hf := nomatch hf

theorem setIsPacked (h : S.Labelled) (isPacked : Bool) : (S.setIsPacked isPacked).Labelled where
  count := h.count
  parent := h.parent

theorem add (h : S.Labelled) (d : FieldDecl) (t : Ty) : (d.add t S).Labelled := by
  have hold : ∀ {S' : Struct}, (∀ f ∈ S.fields, f ∈ S'.fields) → ∀ r ∈ S.fields,
      r.isRepeated = true → ∃ c ∈ S'.fields, r.countField = some c.id ∧ c.isCount = true ∧
        c.name = r.name ++ "_count" := by
    intro S' hsub r hr hrep
    obtain ⟨c, hc, hrest⟩ := h.count r hr hrep
    exact ⟨c, hsub c hc, hrest⟩
  unfold FieldDecl.add
  split
  · constructor
    · intro r hr hrep
      rcases List.mem_append.mp hr with hr | hr
      · exact hold (fun f hf => List.mem_append_left _ hf) r hr hrep
      · rcases List.mem_pair.mp hr with rfl | rfl
        · cases hrep
        · exact ⟨_, List.mem_append_right _ List.mem_cons_self, rfl, rfl, rfl⟩
    · intro f hf P hP
      rcases List.mem_append.mp hf with hf | hf
      · exact h.parent f hf P hP
      · rcases List.mem_pair.mp hf with rfl | rfl <;> cases hP
  · constructor
    · intro r hr hrep
      rcases List.mem_append.mp hr with hr | hr
      · exact hold (fun f hf => List.mem_append_left _ hf) r hr hrep
      · obtain rfl := List.mem_singleton.mp hr
        cases hrep
    · intro f hf P hP
      rcases List.mem_append.mp hf with hf | hf
      · exact h.parent f hf P hP
      · obtain rfl := List.mem_singleton.mp hf
        cases hP

theorem finalizeFields {DL : DataLayout} (h : S.Labelled) (std : StdSort DL) {T : Ty}
    (hT : T.isStructTy = true) : (S.finalizeFields std T).Labelled where
  count r hr hrep := by
    obtain ⟨r₀, hr₀, i, rfl, -⟩ := Struct.mem_finalizeFields.mp hr
    obtain ⟨c, hc, hto, hcount, hname⟩ := h.count r₀ hr₀ hrep
    obtain ⟨j, hj⟩ := Struct.exists_mem_finalizeFields std T hc
    exact ⟨_, hj, hto, hcount, hname⟩
  parent f hf P hP := by
    obtain ⟨f₀, -, i, rfl, -⟩ := Struct.mem_finalizeFields.mp hf
    obtain rfl := Option.some.inj hP
    exact hT

end Struct.Labelled

namespace Parser

theorem labelled_of_run {std : StdSort .default} {P : Parser} {lines : List Line}
    (hrun : Run (Act std) Parser.new lines P) : ∀ S ∈ P.module.structs, S.Labelled := by
  refine hrun.history (P := fun _ P => ∀ S ∈ P.module.structs, S.Labelled)
    (fun S hS => nomatch hS) ?_
  intro ls Q line Q' hls ih hact S' hS'
  have hcons := consistent_of_run hls
  rcases hact.mem_structs hcons hS' with ⟨name, isPacked, -, -, rfl⟩ | ⟨S, hS, hname, hline⟩
  · exact (Struct.Labelled.new name).setIsPacked isPacked
  have hold := ih S hS
  cases line with
  | header name isPacked =>
    subst hline
    split
    · exact hold.setIsPacked isPacked
    · exact hold
  | close =>
    by_cases hcur : Q.currentStruct = some S.name
    · obtain ⟨T, hT⟩ := (if_pos hcur).mp hline
      have hty : T.isStructTy = true :=
        (hcons.act hact).isStructTy S' hS' T (by rw [hT]; rfl)
      rw [hT]
      exact hold.finalizeFields std hty
    · rw [(if_neg hcur).mp hline]
      exact hold
  | field d =>
    by_cases hcur : Q.currentStruct = some S.name
    · obtain ⟨t, -, rfl⟩ := (if_pos hcur).mp hline
      exact hold.add d t
    · rw [(if_neg hcur).mp hline]
      exact hold

end Parser

namespace CCodegenPass

/-! ## The constructor's parameters -/

section Constructor

variable {S : Struct} {f g : Field} {L : List Field}

/-- The fields behind the parameters for `L`. -/
def paramFields (S : Struct) (L : List Field) : List (Option Field) :=
  (L.filter (!·.isCount)).flatMap fun f =>
    (if f.isRepeated then [S.deref f.countField] else []) ++ [some f]

theorem constructorEntries_fields (S : Struct) :
    (constructorEntries S).map (·.2) = paramFields S (S.fields.filter (!·.isMutable)) := by
  unfold constructorEntries constructorFields paramFields
  rw [List.map_flatMap, List.filter_filter]
  congr 1
  funext f
  cases f.isRepeated <;> rfl

theorem paramFields_count (hc : f.isCount = true) : paramFields S (f :: L) = paramFields S L := by
  unfold paramFields
  rw [List.filter_cons_of_neg (by simp [hc])]

theorem paramFields_other (hc : f.isCount = false) : paramFields S (f :: L) =
    (if f.isRepeated then [S.deref f.countField] else []) ++ some f :: paramFields S L := by
  unfold paramFields
  rw [List.filter_cons_of_pos (by simp [hc]), List.flatMap_cons, List.append_assoc]
  rfl

/-- After a count comes its array. -/
theorem paramFields_head {X : List (Option Field)} (hc : f.isCount = true)
    (h : paramFields S L = some f :: X) : ∃ r Y, r.isCount = false ∧ X = some r :: Y := by
  induction L with
  | nil => cases h
  | cons g L ih =>
    cases hg : g.isCount with
    | true =>
      rw [paramFields_count hg] at h
      exact ih h
    | false =>
      rw [paramFields_other hg] at h
      split at h
      · obtain ⟨-, hX⟩ := List.cons.inj h
        exact ⟨g, _, hg, hX.symm⟩
      · obtain ⟨hgf, -⟩ := List.cons.inj h
        obtain rfl := Option.some.inj hgf
        rw [hc] at hg
        cases hg

/-- An array has a count, and neither is the other. -/
theorem array_count (hS : S.Linked) (hf : f ∈ S.fields) (hr : f.isRepeated = true) :
    f.isCount = false ∧ ∃ c ∈ S.fields, f.countField = some c.id ∧ c.isCount = true ∧
      S.deref f.countField = some c := by
  cases hS.kind f hf with
  | plain hs hr' hc ht => rw [hr] at hr'; cases hr'
  | count c hs hr' hc ht hm hrr hto hfrom => rw [hr] at hr'; cases hr'
  | array t c hs hr' hc ht he hm hcc hto hfrom hmut =>
    exact ⟨hc, c, hm, hto, hcc, by rw [hto, Struct.deref_of_nodup hS.ids_nodup hm]⟩

/-- The fields behind the parameters are the immutable ones exactly when these are paired. -/
theorem paramFields_eq_iff (hS : S.Linked) (hL : ∀ f ∈ L, f ∈ S.fields) :
    paramFields S L = L.map some ↔ Paired L := by
  induction L using Paired.induct with
  | case1 => simp [Paired, paramFields]
  | case2 f =>
    have hf := hL f List.mem_cons_self
    unfold Paired
    cases hc : f.isCount with
    | true => simp [paramFields, hc]
    | false =>
      rw [paramFields_other hc]
      cases hr : f.isRepeated <;> simp [paramFields]
  | case3 f g rest hc ih =>
    have hf := hL f List.mem_cons_self
    have hg := hL g (List.mem_cons_of_mem f List.mem_cons_self)
    have ih : paramFields S rest = rest.map some ↔ Paired rest :=
      ih fun x hx => hL x (List.mem_cons_of_mem f (List.mem_cons_of_mem g hx))
    unfold Paired
    rw [if_pos hc, ← ih, paramFields_count hc, List.map_cons, List.map_cons]
    constructor
    · intro h
      cases hgc : g.isCount with
      | true =>
        -- the parameter after a count is no count
        obtain ⟨r, Y, hr, hX⟩ := paramFields_head hc h
        obtain rfl := Option.some.inj (List.cons.inj hX).1
        rw [hgc] at hr
        cases hr
      | false =>
        rw [paramFields_other hgc] at h
        split at h
        · next hr =>
          obtain ⟨hhead, htail⟩ := List.cons.inj h
          obtain ⟨-, c, -, hto, -, hderef⟩ := array_count hS hg hr
          obtain rfl := Option.some.inj (hderef.symm.trans hhead)
          exact ⟨hr, hto, (List.cons.inj htail).2⟩
        · obtain ⟨hgf, -⟩ := List.cons.inj h
          obtain rfl := Option.some.inj hgf
          rw [hc] at hgc
          cases hgc
    · rintro ⟨hr, hto, hrest⟩
      rw [paramFields_other (array_count hS hg hr).1, if_pos hr, hto,
        Struct.deref_of_nodup hS.ids_nodup hf, hrest]
      rfl
  | case4 f g rest hc ih =>
    have hf := hL f List.mem_cons_self
    have ih : paramFields S (g :: rest) = (g :: rest).map some ↔ Paired (g :: rest) :=
      ih fun x hx => hL x (List.mem_cons_of_mem f hx)
    have hc' : f.isCount = false := by simpa using hc
    unfold Paired
    rw [if_neg hc, ← ih, paramFields_other hc', List.map_cons]
    cases hr : f.isRepeated with
    | false => simp
    | true =>
      obtain ⟨-, c, -, -, hcc, hderef⟩ := array_count hS hf hr
      have hne : c ≠ f := by
        rintro rfl
        rw [hc'] at hcc
        cases hcc
      simp [hderef, hne]

end Constructor

/-! ## Prototypes and functions -/

/-- A prototype has a function of its name with the same parameters. -/
def Declared (S : Struct) (p : Prototype) : Prop :=
  ∃ g type, p.declares = some g ∧ g ∈ generatedFunctions S ∧ p.name = g.name ∧
    g.functionType = some type ∧
    List.Forall₂ (Agrees .default) (p.params.map (·.type)) type.params

/-- What the header needs of a struct. -/
structure StructOk (S : Struct) : Prop where
  named : ∀ f ∈ S.fields, f.parentName = S.name
  printable : ∀ f ∈ S.fields, Printable f.type
  paired : Paired (S.fields.filter (!·.isMutable))

theorem agrees_i64 : Agrees .default .uint64 .i64 := by
  show CType.size 8 .uint64 = some (DataLayout.default.allocSize (.int 64))
  rw [DataLayout.allocSize_i64]
  rfl

theorem forall₂_of_entries {es : List (CParam × Option Field)} {L : List Field}
    (h : es.map (·.2) = L.map some)
    (hes : ∀ e ∈ es, ∀ f, e.2 = some f → Agrees .default e.1.type f.type) :
    List.Forall₂ (Agrees .default) ((es.map (·.1)).map (·.type)) (L.map (·.type)) := by
  induction es generalizing L with
  | nil =>
    obtain rfl := List.map_eq_nil_iff.mp h.symm
    exact .nil
  | cons e es ih =>
    cases L with
    | nil => cases h
    | cons f L =>
      obtain ⟨hf, hrest⟩ := List.cons.inj h
      exact .cons (hes e List.mem_cons_self f hf)
        (ih hrest fun e' he' => hes e' (List.mem_cons_of_mem e he'))

section Struct

variable {S : Struct} (hS : S.Linked) (ht : LLVMIRGenPass.Typed S)
include hS

theorem isFieldTy {f : Field} (hf : f ∈ S.fields) : IsFieldTy f.type := by
  cases hS.kind f hf with
  | plain hs hr hc ht => exact .inl ht
  | count r hs hr hc ht hm hrr hto hfrom =>
    rw [ht]
    exact .inl (by decide : 0 < 64)
  | array t c hs hr hc ht he hm hcc hto hfrom hmut => exact .inr ⟨t, ht, he⟩

theorem array_type {f : Field} (hf : f ∈ S.fields) (hr : f.isRepeated = true) :
    ∃ e, f.type = .ptr e ∧ e.IsElement := by
  cases hS.kind f hf with
  | plain hs hr' hc ht => rw [hr] at hr'; cases hr'
  | count c hs hr' hc ht hm hrr hto hfrom => rw [hr] at hr'; cases hr'
  | array t c hs hr' hc ht he hm hcc hto hfrom hmut => exact ⟨t, ht, he⟩

theorem count_type {c : Field} (hc : c ∈ S.fields) (hcount : c.isCount = true) :
    c.type = .int 64 := by
  cases hS.kind c hc with
  | plain hs hr hc' ht => rw [hcount] at hc'; cases hc'
  | count r hs hr hc' ht hm hrr hto hfrom => exact ht
  | array t c' hs hr hc' ht he hm hcc hto hfrom hmut => rw [hcount] at hc'; cases hc'

/-- Every parameter is printed from the type of its field. -/
theorem agrees_entry (hok : StructOk S) {e : CParam × Option Field} (he : e ∈ constructorEntries S)
    {f : Field} (hf : e.2 = some f) : Agrees .default e.1.type f.type := by
  unfold constructorEntries constructorFields at he
  obtain ⟨g, hg, he⟩ := List.mem_flatMap.mp he
  have hg := (List.mem_filter.mp hg).1
  rcases List.mem_append.mp he with he | he
  · split at he
    · next hr =>
      obtain rfl := List.mem_singleton.mp he
      obtain ⟨-, c, hc, -, hcount, hderef⟩ := array_count hS hg hr
      obtain rfl := Option.some.inj (hderef.symm.trans hf)
      rw [count_type hS hc hcount]
      exact agrees_i64
    · cases he
  · obtain rfl := List.mem_singleton.mp he
    obtain rfl := Option.some.inj hf
    exact agrees_value (isFieldTy hS hg) (hok.printable g hg)

include ht

theorem declared_field (hlabel : S.Labelled) (hok : StructOk S) {f : Field} (hf : f ∈ S.fields)
    {p : Prototype}
    (hp : p ∈ fieldPrototypes S f) : Declared S p := by
  obtain ⟨P, hP⟩ := Option.isSome_iff_exists.mp (ht.parentType f hf)
  have hself := agrees_struct S.name (hlabel.parent f hf P hP)
  have hname := hok.named f hf
  have hprint := hok.printable f hf
  have hty := isFieldTy hS hf
  have hout := (agrees_output hty).mpr hprint
  have hvalue := agrees_value hty hprint
  have hi64 := agrees_i64
  unfold fieldPrototypes at hp
  split at hp
  · cases hp
  rw [List.append_assoc, List.mem_append, List.mem_append, List.mem_singleton] at hp
  rcases hp with rfl | hp | hp
  · refine ⟨.getter f, _, rfl, mem_generatedFunctions hf (getter_mem f), by rw [Func.name, hname],
      by rw [Func.functionType, hP]; rfl, ?_⟩
    exact .cons hself (.cons hout .nil)
  · split at hp
    · next hm =>
      obtain rfl := List.mem_singleton.mp hp
      have hmem : .setter f ∈ fieldFunctions f := by simp [mem_fieldFunctions, hm]
      refine ⟨.setter f, _, rfl, mem_generatedFunctions hf hmem, by rw [Func.name, hname],
        by rw [Func.functionType, hP]; rfl, ?_⟩
      cases f.isRepeated
      · exact .cons hself (.cons hvalue .nil)
      · exact .cons hself (.cons hvalue (.cons hi64 .nil))
    · cases hp
  · split at hp
    · next hr =>
      obtain ⟨e, he, hel⟩ := array_type hS hf hr
      rw [List.append_assoc, List.mem_append, List.mem_append, List.mem_singleton,
        List.mem_singleton] at hp
      rcases hp with rfl | hp | rfl
      · refine ⟨.itemGetter f, _, rfl, mem_generatedFunctions hf (itemGetter_mem hr),
          by rw [Func.name, hname], by rw [Func.functionType, hP]; rfl, ?_⟩
        exact .cons hself (.cons hi64 (.cons hvalue .nil))
      · split at hp
        · obtain rfl := List.mem_singleton.mp hp
          have hmem : .itemSetter f ∈ fieldFunctions f := by simp [mem_fieldFunctions, hr]
          rw [he] at hprint
          refine ⟨.itemSetter f, _, rfl, mem_generatedFunctions hf hmem, by rw [Func.name, hname],
            by rw [Func.functionType, hP, he]; rfl, ?_⟩
          rw [he]
          exact .cons hself (.cons hi64 (.cons (agrees_value (.inl hel) hprint) .nil))
        · cases hp
      · obtain ⟨c, hc, hto, hcount, hcname⟩ := hlabel.count f hf hr
        obtain ⟨Q, hQ⟩ := Option.isSome_iff_exists.mp (ht.parentType c hc)
        have hderef := Struct.deref_of_nodup hS.ids_nodup hc
        refine ⟨.getter c, _, by rw [hto, hderef]; rfl,
          mem_generatedFunctions hc (getter_mem c), ?_,
          by rw [Func.functionType, hQ]; rfl, ?_⟩
        · rw [Func.name, hok.named c hc, hcname, String.append_assoc]
        · rw [count_type hS hc hcount]
          exact .cons (agrees_struct S.name (hlabel.parent c hc Q hQ)) (.cons ⟨_, rfl, hi64⟩ .nil)
    · cases hp

theorem declared_struct (htype : ∀ T, S.type = some T → T.isStructTy = true) (hok : StructOk S)
    {p : Prototype} (hp : p ∈ structPrototypes S) : Declared S p := by
  obtain ⟨T, hT⟩ := Option.isSome_iff_exists.mp ht.type
  have hself := agrees_struct S.name (htype T hT)
  have hmem : ∀ g ∈ structFunctions S, g ∈ generatedFunctions S := fun g hg =>
    List.mem_append_right _ hg
  have hu8 : Agrees .default (.ptr .uint8) .i8Ptr := ⟨_, rfl, rfl⟩
  unfold structPrototypes at hp
  simp only [List.mem_cons, List.not_mem_nil, or_false] at hp
  rcases hp with rfl | rfl | rfl | rfl
  · refine ⟨.constructor S, _, rfl, hmem _ (by simp [structFunctions]), rfl,
      by rw [Func.functionType, hT]; rfl, ?_⟩
    refine forall₂_of_entries ?_ fun e he f hf => agrees_entry hS hok he hf
    rw [constructorEntries_fields]
    exact (paramFields_eq_iff hS fun f hf => (List.mem_filter.mp hf).1).mpr hok.paired
  · refine ⟨.destructor S, _, rfl, hmem _ (by simp [structFunctions]), rfl,
      by rw [Func.functionType, hT]; rfl, ?_⟩
    exact .cons hself .nil
  · refine ⟨.serializer S, _, rfl, hmem _ (by simp [structFunctions]), rfl,
      by rw [Func.functionType, hT]; rfl, ?_⟩
    have hhandle : Agrees .default (.handle S.name) (.ptr T) := by
      cases T with
      | struct i n => exact ⟨rfl, rfl⟩
      | _ => cases htype _ hT
    exact .cons hhandle .nil
  · refine ⟨.deserializer S, _, rfl, hmem _ (by simp [structFunctions]), rfl,
      by rw [Func.functionType, hT]; rfl, ?_⟩
    exact .cons hu8 .nil

end Struct

/-! ## Main results -/

/-- Whatever the order of the structs, the functions are generated, every prototype has one, and
    constructors take the same fields in the same places. -/
structure HeaderMatches (M : Module) : Prop where
  prototypes : ∀ order, order.Perm M.structs → ∃ fs, LLVMIRGenPass.visit order = .ok fs ∧
    ∀ p ∈ header order, ∃ g type, p.declares = some g ∧ p.name = g.name ∧
      g.functionType = some type ∧ (p.name, type) ∈ fs ∧
      List.Forall₂ (Agrees .default) (p.params.map (·.type)) type.params
  constructors : ∀ S ∈ M.structs,
    (constructorEntries S).map (·.2) = (S.fields.filter (!·.isMutable)).map some

structure HeaderOk (M : Module) : Prop where
  generable : LLVMIRGenPass.Generable M
  structs : ∀ S ∈ M.structs, StructOk S

section Module

variable {M : Module}

theorem mem_header {order : List Struct} {p : Prototype} : p ∈ header order ↔
    ∃ S ∈ order, (∃ f ∈ S.fields, p ∈ fieldPrototypes S f) ∨ p ∈ structPrototypes S := by
  unfold header
  simp only [List.mem_flatMap, List.mem_append]

theorem headerMatches_of_ok (hnames : M.names.Nodup) (hM : ∀ S ∈ M.structs, S.Linked)
    (hlabel : ∀ S ∈ M.structs, S.Labelled)
    (htype : ∀ S ∈ M.structs, ∀ T, S.type = some T → T.isStructTy = true) (h : HeaderOk M) :
    HeaderMatches M := by
  have ht := h.generable.typed
  refine ⟨fun order horder => ?_, fun S hS => ?_⟩
  · obtain ⟨fs, hfs⟩ := LLVMIRGenPass.visit_of_generable hnames hM h.generable horder
    refine ⟨fs, hfs, fun p hp => ?_⟩
    obtain ⟨S, hS, hp⟩ := mem_header.mp hp
    have hS := horder.mem_iff.mp hS
    have hdeclared : Declared S p := by
      rcases hp with ⟨f, hf, hp⟩ | hp
      · exact declared_field (hM S hS) (ht S hS) (hlabel S hS) (h.structs S hS) hf hp
      · exact declared_struct (hM S hS) (ht S hS) (htype S hS) (h.structs S hS) hp
    obtain ⟨g, type, hg, hmem, hname, hgtype, hparams⟩ := hdeclared
    refine ⟨g, type, hg, hname, hgtype, ?_, hparams⟩
    rw [LLVMIRGenPass.mem_visit hM ht horder hfs]
    exact .inr ⟨g, List.mem_flatMap.mpr ⟨S, hS, hmem⟩, hname.symm, hgtype⟩
  · rw [constructorEntries_fields]
    exact (paramFields_eq_iff (hM S hS) fun f hf => (List.mem_filter.mp hf).1).mpr
      (h.structs S hS).paired

theorem ok_of_headerMatches (hM : ∀ S ∈ M.structs, S.Linked)
    (hlabel : ∀ S ∈ M.structs, S.Labelled) (h : HeaderMatches M) : HeaderOk M := by
  obtain ⟨fs, hfs, hprototypes⟩ := h.prototypes M.structs (.refl _)
  refine ⟨LLVMIRGenPass.generable_of_visit hM hfs, fun S hS => ?_⟩
  have hfield : ∀ f ∈ S.fields, ∀ p ∈ fieldPrototypes S f, ∃ g type, p.declares = some g ∧
      p.name = g.name ∧ g.functionType = some type ∧
      List.Forall₂ (Agrees .default) (p.params.map (·.type)) type.params := by
    intro f hf p hp
    obtain ⟨g, type, hg, hname, htype, -, hparams⟩ :=
      hprototypes p (mem_header.mpr ⟨S, hS, .inl ⟨f, hf, hp⟩⟩)
    exact ⟨g, type, hg, hname, htype, hparams⟩
  have hgetter : ∀ f : Field, f.isCount = false →
      (⟨some (.getter f), .bool, "get_" ++ S.name ++ "_" ++ f.name,
        [structPtr S, ⟨printType (.ptr f.type), f.name⟩]⟩ : Prototype) ∈ fieldPrototypes S f := by
    intro f hc
    unfold fieldPrototypes
    simp [hc]
  have hcancel : ∀ a b n : String, "get_" ++ a ++ "_" ++ n = "get_" ++ b ++ "_" ++ n → a = b := by
    intro a b n hab
    rwa [String.append_left_inj, String.append_left_inj, String.append_right_inj] at hab
  refine ⟨fun f hf => ?_, fun f hf => ?_, ?_⟩
  · cases hc : f.isCount with
    | false =>
      obtain ⟨g, type, hg, hname, -⟩ := hfield f hf _ (hgetter f hc)
      obtain rfl := Option.some.inj hg
      exact (hcancel _ _ _ hname).symm
    | true =>
      -- the getter of a count is printed with its array
      cases (hM S hS).kind f hf with
      | plain hs hr hc' ht => rw [hc] at hc'; cases hc'
      | array t c hs hr hc' ht he hm hcc hto hfrom hmut => rw [hc] at hc'; cases hc'
      | count r hs hr hc' ht hm hrr hto hfrom =>
        have hderef := Struct.deref_of_nodup (hM S hS).ids_nodup hf
        obtain ⟨c, hcm, hcto, -, hcname⟩ := (hlabel S hS).count r hm hrr
        have hcf : c = f := by
          have h1 := Struct.deref_of_nodup (hM S hS).ids_nodup hcm
          rw [← hcto, hfrom, hderef] at h1
          exact (Option.some.inj h1).symm
        subst hcf
        have hmem : (⟨some (.getter c), .bool, "get_" ++ S.name ++ "_" ++ r.name ++ "_count",
            [structPtr S, ⟨.ptr .uint64, "count"⟩]⟩ : Prototype) ∈ fieldPrototypes S r := by
          unfold fieldPrototypes
          simp [(array_count (hM S hS) hm hrr).1, hrr, hfrom, hderef]
        obtain ⟨g, type, hg, hname, -⟩ := hfield r hm _ hmem
        obtain rfl := Option.some.inj hg
        rw [Func.name, hcname, ← String.append_assoc, String.append_left_inj] at hname
        exact (hcancel _ _ _ hname).symm
  · cases hc : f.isCount with
    | false =>
      obtain ⟨g, type, hg, -, htype, hparams⟩ := hfield f hf _ (hgetter f hc)
      obtain rfl := Option.some.inj hg
      cases hP : f.parentType with
      | none => simp [Func.functionType, hP] at htype
      | some P =>
        rw [Func.functionType, hP] at htype
        obtain rfl := Option.some.inj htype
        cases hparams with
        | cons _ hrest =>
          cases hrest with
          | cons hout _ => exact (agrees_output (isFieldTy (hM S hS) hf)).mp hout
    | true =>
      rw [count_type (hM S hS) hf hc]
      exact Nat.le_refl 64
  · have hfields := h.constructors S hS
    rw [constructorEntries_fields] at hfields
    exact (paramFields_eq_iff (hM S hS) fun f hf => (List.mem_filter.mp hf).1).mp hfields

end Module

/-- The header of an accepted module matches the generated code exactly when the module is
    `HeaderOk`. -/
theorem header_matches_iff {std : StdSort .default} {input : List Char} {M : Module}
    (h : Parser.parseFile std input = .ok (true, M)) : HeaderMatches M ↔ HeaderOk M := by
  obtain ⟨P, hrun, rfl⟩ := Parser.run_of_parseFile h
  have hcons := Parser.consistent_of_run hrun
  have hlabel := Parser.labelled_of_run hrun
  constructor
  · exact ok_of_headerMatches hcons.linked hlabel
  · exact headerMatches_of_ok hcons.names_nodup hcons.linked hlabel hcons.isStructTy

theorem header_matches_iff_small :
    HeaderMatches ⟨[Parser.smallStruct.finalizeFields (.stable .default) (.struct 0 "a")],
      ⟨["a"], 0, 1⟩⟩ ↔
    HeaderOk ⟨[Parser.smallStruct.finalizeFields (.stable .default) (.struct 0 "a")],
      ⟨["a"], 0, 1⟩⟩ := header_matches_iff Parser.parseFile_smallFile

/-- `struct a { int128 x }` -/
def wideStruct : Struct := (Struct.new "a").addField "x" (.int 128) false

/-- `struct a { repeated int8 x }` -/
def arrayStruct : Struct := (Struct.new "a").addRepeatedField "x" (.ptr (.int 8)) false

/-- No type is printed for an integer of 128 bits, and a sort may put an array before its
    count. -/
theorem header_mismatches :
    (∃ M,
      Parser.parseFile (.stable .default) "struct a \x7b\n  int128 x\n\x7d\n".toList =
        .ok (true, M) ∧
      (∃ p ∈ header M.structs, p.name = "get_a_x" ∧
        p.params.map (·.type.text) = ["a_t *", "*"]) ∧
      ¬ HeaderMatches M) ∧
    ∃ M, Parser.parseFile (.reversed .default) "struct a \x7b\n  repeated int8 x\n\x7d\n".toList =
        .ok (true, M) ∧
      (M.structs.flatMap fun S => (constructorEntries S).map (·.1.name)) = ["x_count", "x"] ∧
      (M.structs.flatMap fun S => S.fields.map (·.name)) = ["x", "x_count"] ∧
      ¬ HeaderMatches M := by
  constructor
  · refine ⟨⟨[wideStruct.finalizeFields (.stable .default) (.struct 0 "a")], ⟨["a"], 0, 1⟩⟩,
      by rfl, ?_⟩
    rw [Struct.finalizeFields_stable _ (by decide)]
    refine ⟨by decide, fun h => ?_⟩
    obtain ⟨fs, -, hprototypes⟩ := h.prototypes _ (.refl _)
    obtain ⟨g, type, hg, -, htype, -, hparams⟩ := hprototypes _ List.mem_cons_self
    obtain rfl := Option.some.inj hg
    obtain rfl := Option.some.inj htype
    obtain ⟨p, hp, hsize⟩ := (List.forall₂_cons.mp (List.forall₂_cons.mp hparams).2).1
    obtain rfl := CType.ptr.inj hp
    cases hsize
  · refine ⟨⟨[arrayStruct.finalizeFields (.reversed .default) (.struct 0 "a")], ⟨["a"], 0, 1⟩⟩,
      by rfl, ?_⟩
    unfold Struct.finalizeFields StdSort.reversed
    rw [StdSort.stable_of_pairwise (by decide)]
    refine ⟨by decide, by decide, fun h => ?_⟩
    have hfields := h.constructors _ List.mem_cons_self
    revert hfields
    decide

end CCodegenPass

end Tyr
