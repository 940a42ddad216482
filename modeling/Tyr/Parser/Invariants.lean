import Tyr.Parser.Steps

/-
  What every module the parser builds satisfies.

  The lemmas on `getOrCreateStruct`, `modify` and `finalizeFields` say what each does to the
  list of structs. `Parser.Consistent` is the invariant of the accepted lines: struct names are
  distinct, fields and counts are linked, struct types are struct types and the open struct is
  in the module. Every module of an accepted file has it (`consistent_of_parseFile`).
-/

namespace Tyr

namespace Module

variable {M : Module} {name n : String} {S T : Struct} {g : Struct → Struct}

def names (M : Module) : List String := M.structs.map (·.name)

theorem find_eq_some_iff (hM : M.names.Nodup) :
    M.find n = some S ↔ S ∈ M.structs ∧ S.name = n := by
  unfold find names at *
  constructor
  · intro h
    exact ⟨List.mem_of_find?_eq_some h, by simpa using List.find?_some h⟩
  · rintro ⟨hS, rfl⟩
    generalize M.structs = Ss at *
    induction Ss with
    | nil => cases hS
    | cons T Ts ih =>
      rw [List.map_cons, List.nodup_cons] at hM
      rcases List.mem_cons.mp hS with rfl | hS
      · exact List.find?_cons_of_pos (by simp)
      · have hne : T.name ≠ S.name := fun he => hM.1 (he ▸ List.mem_map_of_mem hS)
        rw [List.find?_cons_of_neg (by simpa using hne)]
        exact ih hM.2 hS

theorem find_isSome_iff : (M.find n).isSome ↔ n ∈ M.names := by
  unfold find names
  simp

theorem mem_modify : S ∈ (M.modify n g).structs ↔
    ∃ T ∈ M.structs, S = if T.name = n then g T else T := by
  unfold modify
  simp only [List.mem_map, eq_comm]

/-- What a struct is changed to has the property, too. -/
theorem forall_modify {P : Struct → Prop} (h : ∀ T ∈ M.structs, P T)
    (hg : ∀ T ∈ M.structs, P (g T)) : ∀ S ∈ (M.modify n g).structs, P S := by
  intro S hS
  obtain ⟨T, hT, rfl⟩ := mem_modify.mp hS
  split
  · exact hg T hT
  · exact h T hT

theorem names_modify (hg : ∀ S, (g S).name = S.name) : (M.modify n g).names = M.names := by
  unfold modify names
  rw [List.map_map]
  apply List.map_congr_left
  intro S _
  show (if S.name = n then g S else S).name = S.name
  split
  · exact hg S
  · rfl

theorem getOrCreateStruct_of_mem (h : n ∈ M.names) : M.getOrCreateStruct n = M := by
  unfold getOrCreateStruct
  obtain ⟨S, hS⟩ := Option.isSome_iff_exists.mp (find_isSome_iff.mpr h)
  rw [hS]

theorem getOrCreateStruct_of_not_mem (h : n ∉ M.names) :
    M.getOrCreateStruct n = { M with structs := M.structs ++ [Struct.new n] } := by
  unfold getOrCreateStruct
  have hS : M.find n = none := by
    rw [← Option.not_isSome_iff_eq_none, find_isSome_iff]
    exact h
  rw [hS]

theorem mem_getOrCreateStruct :
    S ∈ (M.getOrCreateStruct n).structs ↔ S ∈ M.structs ∨ n ∉ M.names ∧ S = Struct.new n := by
  by_cases h : n ∈ M.names
  · rw [getOrCreateStruct_of_mem h]
    simp [h]
  · rw [getOrCreateStruct_of_not_mem h]
    simp [h]

theorem names_getOrCreateStruct :
    (M.getOrCreateStruct n).names = if n ∈ M.names then M.names else M.names ++ [n] := by
  by_cases h : n ∈ M.names
  · rw [getOrCreateStruct_of_mem h, if_pos h]
  · rw [getOrCreateStruct_of_not_mem h, if_neg h]
    simp [names, Struct.new]

theorem mem_names_getOrCreateStruct : n ∈ (M.getOrCreateStruct n).names := by
  rw [names_getOrCreateStruct]
  split
  · assumption
  · exact List.mem_append_right _ List.mem_cons_self

theorem nodup_names_getOrCreateStruct (hM : M.names.Nodup) :
    (M.getOrCreateStruct n).names.Nodup := by
  rw [names_getOrCreateStruct]
  split
  · exact hM
  · next hn =>
    refine List.nodup_append.mpr ⟨hM, List.nodup_singleton n, ?_⟩
    intro a ha b hb he
    exact hn (List.mem_singleton.mp hb ▸ he ▸ ha)

/-- A new struct has the property, too. -/
theorem forall_getOrCreateStruct {P : Struct → Prop} (h : ∀ T ∈ M.structs, P T)
    (hnew : P (Struct.new n)) : ∀ S ∈ (M.getOrCreateStruct n).structs, P S := by
  intro S hS
  rcases mem_getOrCreateStruct.mp hS with hS | ⟨-, rfl⟩
  · exact h S hS
  · exact hnew

theorem isStructTy_create (C : Context) (name : String) : (C.create name).1.isStructTy = true := by
  unfold Context.create
  split
  · rfl
  split <;> rfl

/-- What `finalizeFields` did. -/
theorem finalizeFields_eq_ok {std : StdSort .default} {M' : Module}
    (h : M.finalizeFields std n = .ok M') :
    ∃ S, M.find n = some S ∧ S.fields ≠ [] ∧
      M' = { M.modify n (·.finalizeFields std (M.context.create S.name).1) with
        context := (M.context.create S.name).2 } := by
  unfold finalizeFields at h
  cases hS : M.find n with
  | none => simp [hS] at h
  | some S =>
    by_cases he : S.fields = []
    · simp [hS, he] at h
    · simp only [hS, if_neg he, Except.ok.injEq] at h
      exact ⟨S, rfl, he, h.symm⟩

end Module

theorem FieldDecl.name_add (d : FieldDecl) (t : Ty) (S : Struct) : (d.add t S).name = S.name := by
  unfold add
  split <;> rfl

theorem FieldDecl.type_add (d : FieldDecl) (t : Ty) (S : Struct) : (d.add t S).type = S.type := by
  unfold add
  split <;> rfl

theorem parseType_eq_some {M : Module} {FieldType : String} {IsRepeated : Bool} {t : Ty}
    (h : M.parseType FieldType IsRepeated = .ok (some t)) :
    ∃ e, M.parseElementType FieldType = .ok (some e) ∧ t = if IsRepeated then .ptr e else e := by
  unfold Module.parseType at h
  cases he : M.parseElementType FieldType with
  | error m => simp [he, bind, Except.bind] at h
  | ok o =>
    cases o with
    | none => simp [he, bind, Except.bind, pure, Except.pure] at h
    | some e =>
      simp only [he, bind, Except.bind, pure, Except.pure, Option.map_some, Except.ok.injEq,
        Option.some.injEq] at h
      exact ⟨e, rfl, h.symm⟩

/-! ## The invariant -/

namespace Parser

structure Consistent (P : Parser) : Prop where
  names_nodup : P.module.names.Nodup
  linked : ∀ S ∈ P.module.structs, S.Linked
  isStructTy : ∀ S ∈ P.module.structs, ∀ T, S.type = some T → T.isStructTy = true
  current_mem : ∀ n, P.currentStruct = some n → n ∈ P.module.names

variable {std : StdSort .default} {P P' : Parser} {line : Line}

theorem consistent_new : Consistent Parser.new where
  names_nodup := List.nodup_nil
  linked _ hS := nomatch hS
  isStructTy _ hS := nomatch hS
  current_mem _ h := nomatch h

/-- The field of a declaration keeps the struct linked. -/
theorem linked_add {M : Module} {d : FieldDecl} {t : Ty} {S : Struct}
    (hM : ∀ S ∈ M.structs, ∀ T, S.type = some T → T.isStructTy = true)
    (ht : M.parseType d.type d.isRepeated = .ok (some t)) (hS : S.Linked) : (d.add t S).Linked := by
  obtain ⟨e, he, rfl⟩ := parseType_eq_some ht
  have hel := Module.parseElementType_isElement hM he
  unfold FieldDecl.add
  cases d.isRepeated
  · exact hS.addField d.name hel d.isMutable
  · exact hS.addRepeatedField d.name hel d.isMutable

theorem Consistent.act (hP : P.Consistent) (h : Act std P line P') : P'.Consistent := by
  obtain ⟨hnd, hlinked, hty, hcur⟩ := hP
  cases h with
  | header M name isPacked =>
    have hnames : ((M.getOrCreateStruct name).modify name (·.setIsPacked isPacked)).names =
        (M.getOrCreateStruct name).names := Module.names_modify fun _ => rfl
    have hlinked' := Module.forall_getOrCreateStruct hlinked (.new name)
    have hty' := Module.forall_getOrCreateStruct (n := name) hty fun T hT => nomatch hT
    refine ⟨?_, ?_, ?_, ?_⟩
    · show Module.names _ |>.Nodup
      rw [hnames]
      exact Module.nodup_names_getOrCreateStruct hnd
    · exact Module.forall_modify hlinked' fun T hT => (hlinked' T hT).setIsPacked isPacked
    · exact Module.forall_modify hty' hty'
    · intro n hn
      obtain rfl := Option.some.inj hn
      show name ∈ Module.names _
      rw [hnames]
      exact Module.mem_names_getOrCreateStruct
  | @close M M' name h =>
    obtain ⟨S₀, -, -, rfl⟩ := Module.finalizeFields_eq_ok h
    have hnames : (M.modify name (·.finalizeFields std (M.context.create S₀.name).1)).names =
        M.names := Module.names_modify fun _ => rfl
    refine ⟨?_, ?_, ?_, fun n hn => nomatch hn⟩
    · show Module.names (M.modify name _) |>.Nodup
      rw [hnames]
      exact hnd
    · exact Module.forall_modify hlinked fun T hT => (hlinked T hT).finalizeFields std _
    · refine Module.forall_modify hty fun T hT U hU => ?_
      obtain rfl := Option.some.inj hU
      exact Module.isStructTy_create _ _
  | @field M name d t ht =>
    have hmem : name ∈ M.names := hcur name rfl
    have hnames : (M.modify name (d.add t)).names = M.names := Module.names_modify (d.name_add t)
    rw [Module.getOrCreateStruct_of_mem hmem]
    refine ⟨?_, ?_, ?_, ?_⟩
    · show Module.names (M.modify name _) |>.Nodup
      rw [hnames]
      exact hnd
    · exact Module.forall_modify hlinked fun T hT => linked_add hty ht (hlinked T hT)
    · refine Module.forall_modify hty fun T hT => ?_
      rw [d.type_add]
      exact hty T hT
    · intro n hn
      obtain rfl := Option.some.inj hn
      show name ∈ Module.names (M.modify name _)
      rw [hnames]
      exact hmem

/-- The lines of an accepted file. -/
def fileLines (input : List Char) : List Line := (code input).1.filterMap readLine

theorem run_act {tokens : List (List String)} (h : Run (Step std) P tokens P') :
    Run (Act std) P (tokens.filterMap readLine) P' := by
  induction h with
  | nil P => exact .nil P
  | cons he hes ih =>
    obtain ⟨line, hl, hact⟩ := step_iff.mp he
    rw [List.filterMap_cons_some hl]
    exact .cons hact ih

/-- An accepted file is a run of its lines. -/
theorem run_of_parseFile {input : List Char} {M : Module}
    (h : parseFile std input = .ok (true, M)) :
    ∃ P, Run (Act std) Parser.new (fileLines input) P ∧ P.module = M := by
  obtain ⟨-, P, hrun, hM⟩ := parseFile_eq_true_iff.mp h
  exact ⟨P, run_act hrun, hM⟩

theorem consistent_of_run {lines : List Line} (h : Run (Act std) Parser.new lines P) :
    P.Consistent :=
  h.invariant (fun _ _ _ hP hact => hP.act hact) consistent_new

end Parser

end Tyr
