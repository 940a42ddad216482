import Tyr.Parser.Invariants

/-
  When an accepted file leaves a complete module.

  `body n lines` is what the file says about the struct `n`: its field declarations and
  closing braces, in order. A module is complete when each body is a list of declarations and
  one brace, every struct knows its type and every field its place, and the fields are the
  declared ones with the types their names have in the finished module. `complete_iff`: this
  is so exactly when no two headers name one struct and the last struct is closed, but for a
  last line that reopens a struct.
-/

namespace Tyr

/-! ## Declared fields -/

/-- A field without its links. -/
structure Entry where
  name : String
  type : Ty
  isMutable : Bool
  isRepeated : Bool
  isCount : Bool
  deriving DecidableEq

def Field.entry (f : Field) : Entry := ⟨f.name, f.type, f.isMutable, f.isRepeated, f.isCount⟩

/-- The fields of a declaration whose type is `t`: an array comes with its count. -/
def FieldDecl.entriesOf (d : FieldDecl) (t : Ty) : List Entry :=
  if d.isRepeated then
    [⟨d.name ++ "_count", .int 64, d.isMutable, false, true⟩, ⟨d.name, t, d.isMutable, true, false⟩]
  else [⟨d.name, t, d.isMutable, false, false⟩]

/-- The fields of a declaration, by the type its type name has in `M`. -/
def FieldDecl.entries (M : Module) (d : FieldDecl) : List Entry :=
  match M.parseType d.type d.isRepeated with
  | .ok (some t) => d.entriesOf t
  | _ => []

namespace Parser

/-! ## The lines of one struct -/

/-- The open struct after the lines. -/
def opened : Option String → List Line → Option String
  | cur, [] => cur
  | _, .header name _ :: rest => opened (some name) rest
  | _, .close :: rest => opened none rest
  | cur, .field _ :: rest => opened cur rest

/-- The lines inside the blocks of the struct `n`. -/
def bodyFrom (n : String) : Option String → List Line → List Line
  | _, [] => []
  | _, .header name _ :: rest => bodyFrom n (some name) rest
  | cur, .close :: rest => (if cur = some n then [.close] else []) ++ bodyFrom n none rest
  | cur, .field d :: rest => (if cur = some n then [.field d] else []) ++ bodyFrom n cur rest

def body (n : String) (lines : List Line) : List Line := bodyFrom n none lines

def headerName : Line → Option String
  | .header name _ => some name
  | _ => none

def headers (lines : List Line) : List String := lines.filterMap headerName

def declOf : Line → Option FieldDecl
  | .field d => some d
  | _ => none

/-- The declarations among the lines. -/
def decls (lines : List Line) : List FieldDecl := lines.filterMap declOf

/-- One brace, after the last field. -/
def ClosedOnce (n : String) (lines : List Line) : Prop :=
  ∃ ds : List FieldDecl, body n lines = ds.map .field ++ [.close]

/-- A module with everything the file declares in it. -/
structure Complete (lines : List Line) (M : Module) : Prop where
  closedOnce : ∀ S ∈ M.structs, ClosedOnce S.name lines
  isComplete : ∀ S ∈ M.structs, S.IsComplete
  declared : ∀ S ∈ M.structs,
    (∀ d ∈ decls (body S.name lines), ∃ t, M.parseType d.type d.isRepeated = .ok (some t)) ∧
    (S.fields.map Field.entry).Perm ((decls (body S.name lines)).flatMap (·.entries M))

/-- No two headers name one struct and the last struct is closed, or the last line reopens a
    struct and the other headers name different ones. -/
def ClosesOnce (lines : List Line) : Prop :=
  (headers lines).Nodup ∧ opened none lines = none ∨
  ∃ pre n isPacked, lines = pre ++ [.header n isPacked] ∧ n ∈ headers pre ∧ (headers pre).Nodup

/-! ## One more line -/

section Snoc

variable {n : String} {cur : Option String} {lines : List Line} {line : Line}

theorem opened_append (cur : Option String) (ls ls' : List Line) :
    opened cur (ls ++ ls') = opened (opened cur ls) ls' := by
  induction ls generalizing cur with
  | nil => rfl
  | cons l ls ih => cases l <;> exact ih _

theorem bodyFrom_append (cur : Option String) (ls ls' : List Line) :
    bodyFrom n cur (ls ++ ls') = bodyFrom n cur ls ++ bodyFrom n (opened cur ls) ls' := by
  induction ls generalizing cur with
  | nil => rfl
  | cons l ls ih =>
    cases l with
    | header name isPacked => exact ih _
    | close => simp only [List.cons_append, bodyFrom, opened, ih, List.append_assoc]
    | field d => simp only [List.cons_append, bodyFrom, opened, ih, List.append_assoc]

theorem body_snoc (n : String) (lines : List Line) (line : Line) :
    body n (lines ++ [line]) = body n lines ++
      if headerName line = none ∧ opened none lines = some n then [line] else [] := by
  unfold body
  rw [bodyFrom_append]
  congr 1
  cases line <;> simp [bodyFrom, headerName]

theorem headers_snoc (lines : List Line) (line : Line) :
    headers (lines ++ [line]) = headers lines ++ (headerName line).toList := by
  unfold headers
  rw [List.filterMap_append]
  cases line <;> rfl

theorem decls_append (ls ls' : List Line) : decls (ls ++ ls') = decls ls ++ decls ls' :=
  List.filterMap_append

theorem decls_map_field (ds : List FieldDecl) : decls (ds.map .field) = ds := by
  unfold decls
  induction ds with
  | nil => rfl
  | cons d ds ih => exact congrArg (d :: ·) ih

/-- The lines of `n` come after a header of `n`. -/
theorem body_eq_nil (h : n ∉ headers lines) : body n lines = [] := by
  have key : ∀ cur, cur ≠ some n → bodyFrom n cur lines = [] := by
    induction lines with
    | nil => exact fun _ _ => rfl
    | cons l ls ih =>
      intro cur hcur
      cases l with
      | header name isPacked =>
        have hmem : n ∉ name :: headers ls := h
        rw [List.mem_cons, not_or] at hmem
        exact ih hmem.2 (some name) fun he => hmem.1 (Option.some.inj he).symm
      | close =>
        unfold bodyFrom
        rw [if_neg hcur, ih h none nofun]
        rfl
      | field d =>
        unfold bodyFrom
        rw [if_neg hcur, ih h cur hcur]
        rfl
  exact key none nofun

end Snoc

section History

variable {std : StdSort .default} {P P' : Parser} {line : Line} {lines : List Line} {S' : Struct}

/-- A struct after an accepted line: a new one, or one from before. -/
theorem Act.mem_structs (hP : P.Consistent) (h : Act std P line P')
    (hS' : S' ∈ P'.module.structs) :
    (∃ name isPacked, line = .header name isPacked ∧ name ∉ P.module.names ∧
      S' = (Struct.new name).setIsPacked isPacked) ∨
    ∃ S ∈ P.module.structs, S.name = S'.name ∧
      match line with
      | .header name isPacked => S' = if S.name = name then S.setIsPacked isPacked else S
      | .close => if P.currentStruct = some S.name then ∃ T, S' = S.finalizeFields std T
          else S' = S
      | .field d => if P.currentStruct = some S.name then
            ∃ t, P.module.parseType d.type d.isRepeated = .ok (some t) ∧ S' = d.add t S
          else S' = S := by
  cases h with
  | header M name isPacked =>
    obtain ⟨T, hT, rfl⟩ := Module.mem_modify.mp hS'
    rcases Module.mem_getOrCreateStruct.mp hT with hT | ⟨hn, rfl⟩
    · exact .inr ⟨T, hT, by split <;> rfl, rfl⟩
    · exact .inl ⟨name, isPacked, rfl, hn, if_pos rfl⟩
  | @close M M' name h =>
    obtain ⟨S₀, -, -, rfl⟩ := Module.finalizeFields_eq_ok h
    obtain ⟨T, hT, rfl⟩ := Module.mem_modify.mp hS'
    refine .inr ⟨T, hT, by split <;> rfl, ?_⟩
    by_cases hn : T.name = name
    · subst hn
      exact (if_pos rfl).mpr ⟨_, if_pos rfl⟩
    · have hne : some name ≠ some T.name := fun he => hn (Option.some.inj he).symm
      exact (if_neg hne).mpr (if_neg hn)
  | @field M name d t ht =>
    have hS' := hS'
    rw [Module.getOrCreateStruct_of_mem (hP.current_mem name rfl)] at hS'
    obtain ⟨T, hT, rfl⟩ := Module.mem_modify.mp hS'
    by_cases hn : T.name = name
    · subst hn
      exact .inr ⟨T, hT, by rw [if_pos rfl, d.name_add], (if_pos rfl).mpr ⟨t, ht, if_pos rfl⟩⟩
    · have hne : some name ≠ some T.name := fun he => hn (Option.some.inj he).symm
      exact .inr ⟨T, hT, by rw [if_neg hn], (if_neg hne).mpr (if_neg hn)⟩

/-- Which lines can follow which. -/
theorem Act.opened (h : Act std P line P') :
    match line with
    | .header name _ => P.currentStruct = none ∧ P'.currentStruct = some name
    | .close => (∃ name, P.currentStruct = some name) ∧ P'.currentStruct = none
    | .field _ => (∃ name, P.currentStruct = some name) ∧
        P'.currentStruct = P.currentStruct := by
  cases h with
  | header M name isPacked => exact ⟨rfl, rfl⟩
  | close h => exact ⟨⟨_, rfl⟩, rfl⟩
  | field h => exact ⟨⟨_, rfl⟩, rfl⟩

theorem Act.names (hP : P.Consistent) (h : Act std P line P') :
    P'.module.names = match line with
      | .header name _ =>
        if name ∈ P.module.names then P.module.names else P.module.names ++ [name]
      | _ => P.module.names := by
  cases h with
  | header M name isPacked =>
    have hnames : ((M.getOrCreateStruct name).modify name (·.setIsPacked isPacked)).names =
        (M.getOrCreateStruct name).names := Module.names_modify fun _ => rfl
    exact hnames.trans Module.names_getOrCreateStruct
  | @close M M' name h =>
    obtain ⟨S₀, -, -, rfl⟩ := Module.finalizeFields_eq_ok h
    have hnames : (M.modify name (·.finalizeFields std (M.context.create S₀.name).1)).names =
        M.names := Module.names_modify fun _ => rfl
    exact hnames
  | @field M name d t ht =>
    show (Module.modify (M.getOrCreateStruct name) name (d.add t)).names = M.names
    rw [Module.getOrCreateStruct_of_mem (hP.current_mem name rfl),
      Module.names_modify (d.name_add t)]

theorem Module.eq_of_name {M : Module} (hM : M.names.Nodup) {S T : Struct} (hS : S ∈ M.structs)
    (hT : T ∈ M.structs) (h : S.name = T.name) : S = T := by
  have h1 := (Module.find_eq_some_iff hM).mpr ⟨hS, h⟩
  have h2 := (Module.find_eq_some_iff hM).mpr ⟨hT, rfl⟩
  exact Option.some.inj (h1.symm.trans h2)

/-- A type that a struct has stays unless the struct is closed again. -/
theorem Act.type_eq (hP : P.Consistent) (h : Act std P line P') {S : Struct} {T : Ty}
    (hS : S ∈ P.module.structs) (hT : S.type = some T)
    (hclose : line = .close → P.currentStruct ≠ some S.name) :
    ∃ S' ∈ P'.module.structs, S'.name = S.name ∧ S'.type = some T := by
  have hmem : S.name ∈ P.module.names := List.mem_map_of_mem hS
  have hmem' : S.name ∈ P'.module.names := by
    rw [h.names hP]
    cases line with
    | header name isPacked =>
      show _ ∈ (if name ∈ P.module.names then _ else _)
      split
      · exact hmem
      · exact List.mem_append_left _ hmem
    | close => exact hmem
    | field d => exact hmem
  obtain ⟨S', hS', hname⟩ := List.mem_map.mp hmem'
  refine ⟨S', hS', hname, ?_⟩
  rcases h.mem_structs hP hS' with ⟨name, isPacked, rfl, hn, rfl⟩ | ⟨S₀, hS₀, hname₀, hline⟩
  · rw [← hname] at hmem
    exact absurd hmem hn
  · obtain rfl := Module.eq_of_name hP.names_nodup hS₀ hS (hname₀.trans hname)
    cases line with
    | header name isPacked =>
      subst hline
      split <;> exact hT
    | close =>
      rw [(if_neg (hclose rfl)).mp hline]
      exact hT
    | field d =>
      by_cases hcur : P.currentStruct = some S₀.name
      · obtain ⟨t, -, rfl⟩ := (if_pos hcur).mp hline
        rw [d.type_add]
        exact hT
      · rw [(if_neg hcur).mp hline]
        exact hT

/-- A type name keeps its meaning while the types stay. -/
theorem parseType_stable {M M' : Module} (hM : M.names.Nodup) (hM' : M'.names.Nodup)
    (h : ∀ S ∈ M.structs, ∀ T, S.type = some T →
      ∃ S' ∈ M'.structs, S'.name = S.name ∧ S'.type = some T)
    {FieldType : String} {IsRepeated : Bool} {t : Ty}
    (ht : M.parseType FieldType IsRepeated = .ok (some t)) :
    M'.parseType FieldType IsRepeated = .ok (some t) := by
  obtain ⟨e, he, rfl⟩ := parseType_eq_some ht
  have hel : M'.parseElementType FieldType = .ok (some e) := by
    unfold Module.parseElementType at he ⊢
    split at he
    · next hb => rw [if_pos hb]; exact he
    · next hb =>
      rw [if_neg hb]
      split at he
      · next hi => rw [if_pos hi]; exact he
      · next hi =>
        rw [if_neg hi]
        split at he
        · next hf => rw [if_pos hf]; exact he
        · next hf =>
          rw [if_neg hf]
          split at he
          · next hd => rw [if_pos hd]; exact he
          · next hd =>
            rw [if_neg hd]
            cases hS : M.find FieldType with
            | none => simp [hS] at he
            | some S =>
              cases hT : S.type with
              | none => simp [hS, hT] at he
              | some T =>
                obtain ⟨hmem, rfl⟩ := (Module.find_eq_some_iff hM).mp hS
                obtain ⟨S', hS', hname, hT'⟩ := h S hmem T hT
                rw [(Module.find_eq_some_iff hM').mpr ⟨hS', hname⟩]
                simp only [hS, hT] at he
                simp only [hT']
                exact he
  unfold Module.parseType
  rw [hel]
  rfl

variable (hrun : Run (Act std) Parser.new lines P)
include hrun

theorem currentStruct_eq : P.currentStruct = opened none lines := by
  refine hrun.history (P := fun ls P => P.currentStruct = opened none ls) rfl ?_
  intro ls Q line Q' _ ih hact
  rw [opened_append, ← ih]
  have h := hact.opened
  cases line with
  | header name isPacked => exact h.2
  | close => exact h.2
  | field d => exact h.2

theorem mem_names_iff (n : String) : n ∈ P.module.names ↔ n ∈ headers lines := by
  refine hrun.history (P := fun ls P => n ∈ P.module.names ↔ n ∈ headers ls) Iff.rfl ?_
  intro ls Q line Q' hls ih hact
  rw [headers_snoc, List.mem_append, ← ih, hact.names (consistent_of_run hls)]
  cases line with
  | header name isPacked =>
    show n ∈ (if name ∈ Q.module.names then _ else _) ↔ _ ∨ n ∈ [name]
    rw [List.mem_singleton]
    split
    · next hmem =>
      constructor
      · exact Or.inl
      · rintro (h | rfl)
        · exact h
        · exact hmem
    · rw [List.mem_append, List.mem_singleton]
  | close => simp [headerName]
  | field d => simp [headerName]

/-- Each block is closed but for the open one. -/
theorem count_close (n : String) :
    (body n lines).count .close + (if opened none lines = some n then 1 else 0) =
      (headers lines).count n := by
  refine hrun.history (P := fun ls _ => (body n ls).count .close +
    (if opened none ls = some n then 1 else 0) = (headers ls).count n) rfl ?_
  intro ls Q line Q' hls ih hact
  have hopened := hact.opened
  rw [currentStruct_eq hls] at hopened
  rw [body_snoc, headers_snoc, opened_append, List.count_append, List.count_append, ← ih]
  cases line with
  | header name isPacked =>
    obtain ⟨hnone, -⟩ := hopened
    by_cases hn : name = n
    · simp [hnone, Parser.opened, headerName, hn]
    · simp [hnone, Parser.opened, headerName, hn]
  | close =>
    obtain ⟨⟨name, hsome⟩, -⟩ := hopened
    by_cases hn : name = n
    · simp [hsome, Parser.opened, headerName, hn]
    · simp [hsome, Parser.opened, headerName, hn]
  | field d =>
    obtain ⟨⟨name, hsome⟩, -⟩ := hopened
    by_cases hn : name = n
    · simp [hsome, Parser.opened, headerName, hn]
    · simp [hsome, Parser.opened, headerName, hn]

/-- A struct declared once is a list of fields, and a brace unless it is open. -/
theorem body_eq (n : String) (h : (headers lines).count n ≤ 1) :
    body n lines = (decls (body n lines)).map .field ++
      if n ∈ headers lines ∧ opened none lines ≠ some n then [.close] else [] := by
  revert h
  refine hrun.history (P := fun ls _ => (headers ls).count n ≤ 1 →
    body n ls = (decls (body n ls)).map .field ++
      if n ∈ headers ls ∧ opened none ls ≠ some n then [.close] else []) ?_ ?_
  · intro _
    rfl
  intro ls Q line Q' hls ih hact h
  have hopened := hact.opened
  rw [currentStruct_eq hls] at hopened
  rw [headers_snoc, List.count_append] at h
  have ih := ih (by omega)
  rw [body_snoc, headers_snoc, opened_append, decls_append, List.map_append]
  cases line with
  | header name isPacked =>
    obtain ⟨hnone, -⟩ := hopened
    by_cases hn : name = n
    · -- the first header of `n`
      subst hn
      have hmem : name ∉ headers ls := by
        rw [← List.count_eq_zero]
        simp only [headerName, Option.toList_some, List.count_singleton_self] at h
        omega
      rw [body_eq_nil hmem]
      simp [headerName, decls, Parser.opened]
    · rw [hnone] at ih
      have hne : n ≠ name := fun he => hn he.symm
      simp only [headerName, reduceCtorEq, false_and, if_false, List.append_nil, Parser.opened,
        Option.toList_some, List.mem_append, List.mem_singleton, hne, or_false, decls,
        List.filterMap_nil, List.map_nil, Option.some.injEq, hn, ne_eq, not_false_eq_true, and_true]
      simp only [ne_eq, reduceCtorEq, not_false_eq_true, and_true] at ih
      exact ih
  | close =>
    obtain ⟨⟨name, hsome⟩, -⟩ := hopened
    rw [hsome] at ih ⊢
    by_cases hn : name = n
    · subst hn
      have hmem : name ∈ headers ls := by
        rw [← mem_names_iff hls]
        exact (consistent_of_run hls).current_mem name ((currentStruct_eq hls).trans hsome)
      simp only [ne_eq, not_true_eq_false, and_false, if_false, List.append_nil] at ih
      simp only [headerName, if_true, Parser.opened, Option.toList_none, List.append_nil,
        hmem, ne_eq, reduceCtorEq, not_false_eq_true, and_self, decls, List.filterMap_cons, declOf,
        List.filterMap_nil, List.map_nil]
      exact congrArg (· ++ [Line.close]) ih
    · simp only [headerName, true_and, Option.some.injEq, hn, if_false, List.append_nil,
        Parser.opened, Option.toList_none, ne_eq, reduceCtorEq, not_false_eq_true, and_true,
        decls, List.filterMap_nil, List.map_nil] at ih ⊢
      exact ih
  | field d =>
    obtain ⟨⟨name, hsome⟩, -⟩ := hopened
    rw [hsome] at ih ⊢
    by_cases hn : name = n
    · subst hn
      simp only [ne_eq, not_true_eq_false, and_false, if_false, List.append_nil] at ih
      simp only [headerName, true_and, if_true, Parser.opened, Option.toList_none, List.append_nil,
        ne_eq, not_true_eq_false, and_false, if_false, decls, List.filterMap_cons, declOf,
        List.filterMap_nil, List.map_cons, List.map_nil]
      exact congrArg (· ++ [Line.field d]) ih
    · simp only [headerName, true_and, Option.some.injEq, hn, if_false, List.append_nil,
        Parser.opened, Option.toList_none, decls, List.filterMap_nil, List.map_nil] at ih ⊢
      exact ih

/-- After the brace and before the next field a struct is complete. -/
theorem isComplete_of_close (S : Struct) (hS : S ∈ P.module.structs) (b : List Line)
    (hb : body S.name lines = b ++ [.close]) : S.IsComplete := by
  revert S b
  refine hrun.history (P := fun ls P => ∀ S ∈ P.module.structs, ∀ b,
    body S.name ls = b ++ [.close] → S.IsComplete) (fun S hS => nomatch hS) ?_
  intro ls Q line Q' hls ih hact S' hS' b hb
  have hcons := consistent_of_run hls
  rcases hact.mem_structs hcons hS' with ⟨name, isPacked, rfl, hn, rfl⟩ | ⟨S, hS, hname, hline⟩
  · -- a new struct has no lines yet
    have hnil : body name ls = [] := body_eq_nil fun h => hn ((mem_names_iff hls name).mpr h)
    rw [body_snoc] at hb
    simp [Struct.setIsPacked, Struct.new, hnil, headerName] at hb
  rw [body_snoc, ← hname] at hb
  rw [← currentStruct_eq hls] at hb
  cases line with
  | header name isPacked =>
    simp only [headerName, reduceCtorEq, false_and, if_false, List.append_nil] at hb
    obtain ⟨h1, h2, h3⟩ := ih S hS b hb
    subst hline
    split
    · exact ⟨h1, h2, h3⟩
    · exact ⟨h1, h2, h3⟩
  | close =>
    by_cases hcur : Q.currentStruct = some S.name
    · obtain ⟨T, rfl⟩ := (if_pos hcur).mp hline
      exact Struct.isComplete_finalizeFields std T
    · rw [(if_neg hcur).mp hline]
      simp only [headerName, true_and, hcur, if_false, List.append_nil] at hb
      exact ih S hS b hb
  | field d =>
    by_cases hcur : Q.currentStruct = some S.name
    · simp only [headerName, true_and, hcur, if_true] at hb
      have hlast := List.append_inj_right' hb rfl
      cases hlast
    · rw [(if_neg hcur).mp hline]
      simp only [headerName, true_and, hcur, if_false, List.append_nil] at hb
      exact ih S hS b hb

/-- A struct with a type has been closed. -/
theorem close_mem_of_type (S : Struct) (hS : S ∈ P.module.structs) (hT : S.type.isSome) :
    .close ∈ body S.name lines := by
  revert S
  refine hrun.history (P := fun ls P => ∀ S ∈ P.module.structs, S.type.isSome →
    .close ∈ body S.name ls) (fun S hS => nomatch hS) ?_
  intro ls Q line Q' hls ih hact S' hS' hT
  rw [body_snoc, ← currentStruct_eq hls]
  rcases hact.mem_structs (consistent_of_run hls) hS' with
    ⟨name, isPacked, rfl, hn, rfl⟩ | ⟨S, hS, hname, hline⟩
  · cases hT
  rw [← hname]
  cases line with
  | header name isPacked =>
    subst hline
    refine List.mem_append_left _ (ih S hS ?_)
    split at hT <;> exact hT
  | close =>
    by_cases hcur : Q.currentStruct = some S.name
    · rw [if_pos ⟨rfl, hcur⟩]
      exact List.mem_append_right _ List.mem_cons_self
    · rw [(if_neg hcur).mp hline] at hT
      exact List.mem_append_left _ (ih S hS hT)
  | field d =>
    refine List.mem_append_left _ (ih S hS ?_)
    by_cases hcur : Q.currentStruct = some S.name
    · obtain ⟨t, -, rfl⟩ := (if_pos hcur).mp hline
      rwa [d.type_add] at hT
    · rwa [(if_neg hcur).mp hline] at hT

end History

/-! ## Declared fields are there -/

theorem entry_add (d : FieldDecl) (t : Ty) (S : Struct) :
    (d.add t S).fields.map Field.entry = S.fields.map Field.entry ++ d.entriesOf t := by
  unfold FieldDecl.add FieldDecl.entriesOf
  cases d.isRepeated <;> simp [Struct.addField, Struct.addRepeatedField, Field.entry]

theorem entry_finalizeFields (std : StdSort .default) (S : Struct) (T : Ty) :
    ((S.finalizeFields std T).fields.map Field.entry).Perm (S.fields.map Field.entry) := by
  rw [Struct.map_finalizeFields std T Field.entry fun _ _ _ => rfl]
  exact (std.perm S.fields).map _

/-- `S` has the fields the declarations say, by the types of `M`. -/
def Declares (M : Module) (S : Struct) (ds : List FieldDecl) : Prop :=
  (∀ d ∈ ds, ∃ t, M.parseType d.type d.isRepeated = .ok (some t)) ∧
    (S.fields.map Field.entry).Perm (ds.flatMap (·.entries M))

theorem Declares.stable {M M' : Module} {S : Struct} {ds : List FieldDecl}
    (h : ∀ {t r T}, M.parseType t r = .ok (some T) → M'.parseType t r = .ok (some T))
    (hS : Declares M S ds) : Declares M' S ds := by
  obtain ⟨htypes, hperm⟩ := hS
  refine ⟨fun d hd => ?_, ?_⟩
  · obtain ⟨t, ht⟩ := htypes d hd
    exact ⟨t, h ht⟩
  · have heq : ds.flatMap (·.entries M) = ds.flatMap (·.entries M') := by
      apply List.flatMap_congr
      intro d hd
      obtain ⟨t, ht⟩ := htypes d hd
      unfold FieldDecl.entries
      rw [ht, h ht]
    rwa [heq] at hperm

theorem Declares.field {M : Module} {S : Struct} {ds : List FieldDecl} {d : FieldDecl} {t : Ty}
    (hS : Declares M S ds) (ht : M.parseType d.type d.isRepeated = .ok (some t)) :
    Declares M (d.add t S) (ds ++ [d]) := by
  obtain ⟨htypes, hperm⟩ := hS
  refine ⟨fun d' hd' => ?_, ?_⟩
  · rcases List.mem_append.mp hd' with hd' | hd'
    · exact htypes d' hd'
    · exact ⟨t, List.mem_singleton.mp hd' ▸ ht⟩
  · have hentries : d.entries M = d.entriesOf t := by
      unfold FieldDecl.entries
      rw [ht]
    rw [entry_add, List.flatMap_append, List.flatMap_singleton, hentries]
    exact hperm.append_right _

section Declared

variable {std : StdSort .default} {P : Parser} {lines : List Line}
  (hrun : Run (Act std) Parser.new lines P)
include hrun

/-- While no struct is closed twice, every struct has the fields its declarations say. -/
theorem declares_of_run (hcount : ∀ n, (body n lines).count .close ≤ 1) (S : Struct)
    (hS : S ∈ P.module.structs) : Declares P.module S (decls (body S.name lines)) := by
  revert hcount S
  refine hrun.history (P := fun ls P => (∀ n, (body n ls).count .close ≤ 1) →
    ∀ S ∈ P.module.structs, Declares P.module S (decls (body S.name ls)))
    (fun _ S hS => nomatch hS) ?_
  intro ls Q line Q' hls ih hact hcount S' hS'
  have hcons := consistent_of_run hls
  have hcons' := hcons.act hact
  have hcount' : ∀ n, (body n ls).count .close ≤ 1 := by
    intro n
    have h := hcount n
    rw [body_snoc, List.count_append] at h
    omega
  -- a struct that is closed now had no type before
  have hstable : ∀ {t r T}, Q.module.parseType t r = .ok (some T) →
      Q'.module.parseType t r = .ok (some T) := by
    intro t r T
    refine parseType_stable hcons.names_nodup hcons'.names_nodup fun S hS T hT => ?_
    refine hact.type_eq hcons hS hT fun hline hcur => ?_
    subst hline
    have hclose := close_mem_of_type hls S hS (by rw [hT]; rfl)
    have h := hcount S.name
    rw [body_snoc, ← currentStruct_eq hls, if_pos ⟨rfl, hcur⟩, List.count_append] at h
    have hpos := List.count_pos_iff.mpr hclose
    simp only [List.count_singleton_self] at h
    omega
  rw [body_snoc, ← currentStruct_eq hls, decls_append]
  rcases hact.mem_structs hcons hS' with ⟨name, isPacked, rfl, hn, rfl⟩ | ⟨S, hS, hname, hline⟩
  · have hnil : body name ls = [] := body_eq_nil fun h => hn ((mem_names_iff hls name).mpr h)
    simp [Struct.setIsPacked, Struct.new, hnil, headerName, decls, Declares]
  have hold := (ih hcount' S hS).stable hstable
  rw [← hname]
  cases line with
  | header name isPacked =>
    rw [if_neg (by simp [headerName])]
    subst hline
    rw [show decls [] = [] from rfl, List.append_nil]
    split <;> exact hold
  | close =>
    by_cases hcur : Q.currentStruct = some S.name
    · obtain ⟨T, rfl⟩ := (if_pos hcur).mp hline
      rw [if_pos ⟨rfl, hcur⟩, show decls [.close] = [] from rfl, List.append_nil]
      exact ⟨hold.1, (entry_finalizeFields _ S T).trans hold.2⟩
    · rw [(if_neg hcur).mp hline, if_neg (fun h => hcur h.2), show decls [] = [] from rfl,
        List.append_nil]
      exact hold
  | field d =>
    by_cases hcur : Q.currentStruct = some S.name
    · obtain ⟨t, ht, rfl⟩ := (if_pos hcur).mp hline
      rw [if_pos ⟨rfl, hcur⟩, show decls [.field d] = [d] from rfl]
      exact hold.field (hstable ht)
    · rw [(if_neg hcur).mp hline, if_neg (fun h => hcur h.2), show decls [] = [] from rfl,
        List.append_nil]
      exact hold

/-! ## Closing once -/

/-- Lines that close every struct once do so for each struct. -/
theorem closedOnce_of_closesOnce (h : ClosesOnce lines) {n : String} (hn : n ∈ headers lines) :
    ClosedOnce n lines := by
  rcases h with ⟨hnd, hopen⟩ | ⟨pre, m, isPacked, rfl, hm, hnd⟩
  · have hb := body_eq hrun n (List.nodup_iff_count_le_one.mp hnd n)
    rw [if_pos ⟨hn, by rw [hopen]; exact nofun⟩] at hb
    exact ⟨_, hb⟩
  · obtain ⟨Q, hpre, hlast⟩ := hrun.of_append
    cases hlast with
    | cons hact hnil =>
      have hnone := hact.opened.1
      rw [currentStruct_eq hpre] at hnone
      have hn' : n ∈ headers pre := by
        rw [headers_snoc] at hn
        rcases List.mem_append.mp hn with hn | hn
        · exact hn
        · exact List.mem_singleton.mp hn ▸ hm
      have hb := body_eq hpre n (List.nodup_iff_count_le_one.mp hnd n)
      rw [if_pos ⟨hn', by rw [hnone]; exact nofun⟩] at hb
      refine ⟨decls (body n pre), ?_⟩
      rw [body_snoc, if_neg (by simp [headerName]), List.append_nil]
      exact hb

omit hrun in
theorem count_closedOnce {n : String} {ls : List Line} (h : ClosedOnce n ls) :
    (body n ls).count .close = 1 := by
  obtain ⟨ds, hds⟩ := h
  have hfields : (ds.map Line.field).count .close = 0 := by
    rw [List.count_eq_zero]
    simp
  rw [hds, List.count_append, hfields, List.count_singleton_self]

theorem closesOnce_of_closedOnce (h : ∀ n ∈ headers lines, ClosedOnce n lines) :
    ClosesOnce lines := by
  have hcount := count_close hrun
  cases hopen : opened none lines with
  | none =>
    refine Or.inl ⟨List.nodup_iff_count_le_one.mpr fun n => ?_, hopen⟩
    by_cases hn : n ∈ headers lines
    · rw [← hcount n, count_closedOnce (h n hn), hopen]
      simp
    · rw [List.count_eq_zero.mpr hn]
      exact Nat.zero_le 1
  | some m =>
    have hm : m ∈ headers lines := by
      rw [← mem_names_iff hrun]
      exact (consistent_of_run hrun).current_mem m ((currentStruct_eq hrun).trans hopen)
    rcases List.eq_nil_or_concat' lines with rfl | ⟨pre, line, rfl⟩
    · cases hopen
    obtain ⟨Q, hpre, hlast⟩ := hrun.of_append
    cases hlast with
    | cons hact hnil =>
      have hstate := hact.opened
      rw [currentStruct_eq hpre] at hstate
      rw [opened_append] at hopen
      cases line with
      | header name isPacked =>
        -- the last line reopens a struct
        obtain rfl : name = m := Option.some.inj hopen
        obtain ⟨hnone, -⟩ := hstate
        have hbody : ∀ n, body n (pre ++ [.header name isPacked]) = body n pre := fun n => by
          rw [body_snoc, if_neg (by simp [headerName]), List.append_nil]
        have hpreCount : ∀ n, (headers pre).count n = (body n pre).count .close := fun n => by
          rw [← count_close hpre n, hnone, if_neg nofun, Nat.add_zero]
        have hone : ∀ n ∈ headers (pre ++ [.header name isPacked]), (headers pre).count n = 1 := by
          intro n hn
          rw [hpreCount, ← hbody, count_closedOnce (h n hn)]
        refine Or.inr ⟨pre, name, isPacked, rfl, ?_, List.nodup_iff_count_le_one.mpr fun n => ?_⟩
        · rw [← List.count_pos_iff, hone name hm]
          exact Nat.one_pos
        · by_cases hn : n ∈ headers pre
          · rw [hone n (by rw [headers_snoc]; exact List.mem_append_left _ hn)]
          · rw [List.count_eq_zero.mpr hn]
            exact Nat.zero_le 1
      | close => cases hopen
      | field d =>
        obtain ⟨ds, hds⟩ := h m hm
        have hcur : opened none pre = some m := hopen
        rw [body_snoc, if_pos ⟨rfl, hcur⟩] at hds
        cases List.append_inj_right' hds rfl

end Declared

/-! ## Main results -/

/-- An accepted file leaves a complete module exactly when it closes every struct once. -/
theorem complete_iff {std : StdSort .default} {input : List Char} {M : Module}
    (h : parseFile std input = .ok (true, M)) :
    Complete (fileLines input) M ↔ ClosesOnce (fileLines input) := by
  obtain ⟨P, hrun, rfl⟩ := run_of_parseFile h
  have hnames : ∀ S ∈ P.module.structs, S.name ∈ headers (fileLines input) := fun S hS =>
    (mem_names_iff hrun S.name).mp (List.mem_map_of_mem hS)
  constructor
  · intro hcomplete
    refine closesOnce_of_closedOnce hrun fun n hn => ?_
    obtain ⟨S, hS, rfl⟩ := List.mem_map.mp ((mem_names_iff hrun n).mpr hn)
    exact hcomplete.closedOnce S hS
  · intro hcloses
    have honce : ∀ n ∈ headers (fileLines input), ClosedOnce n (fileLines input) := fun n hn =>
      closedOnce_of_closesOnce hrun hcloses hn
    refine ⟨fun S hS => honce S.name (hnames S hS), fun S hS => ?_, fun S hS => ?_⟩
    · obtain ⟨ds, hds⟩ := honce S.name (hnames S hS)
      exact isComplete_of_close hrun S hS _ hds
    · refine declares_of_run hrun (fun n => ?_) S hS
      by_cases hn : n ∈ headers (fileLines input)
      · exact Nat.le_of_eq (count_closedOnce (honce n hn))
      · rw [body_eq_nil hn]
        exact Nat.zero_le 1

/-- `struct a { int8 x }` -/
def smallFile : List Char := "struct a \x7b\n  int8 x\n\x7d\n".toList

def smallStruct : Struct := (Struct.new "a").addField "x" (.int 8) false

theorem parseFile_smallFile :
    parseFile (.stable .default) smallFile =
      .ok (true, ⟨[smallStruct.finalizeFields (.stable .default) (.struct 0 "a")],
        ⟨["a"], 0, 1⟩⟩) := by rfl

theorem complete_iff_small :
    Complete (fileLines smallFile)
      ⟨[smallStruct.finalizeFields (.stable .default) (.struct 0 "a")], ⟨["a"], 0, 1⟩⟩ ↔
    ClosesOnce (fileLines smallFile) := complete_iff parseFile_smallFile

/-- A struct that is not closed is accepted. -/
theorem unclosed_accepted :
    parseFile (.stable .default) "struct a \x7b\n  int8 x\n".toList =
      .ok (true, ⟨[smallStruct], ⟨[], 0, 0⟩⟩) ∧
    ¬ Complete (fileLines "struct a \x7b\n  int8 x\n".toList) ⟨[smallStruct], ⟨[], 0, 0⟩⟩ := by
  refine ⟨by rfl, fun h => ?_⟩
  have htype := (h.isComplete smallStruct List.mem_cons_self).isSome_type
  cases htype

end Parser

end Tyr
