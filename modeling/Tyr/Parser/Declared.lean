import Tyr.Parser.Complete
import Tyr.Parser.Source

/-
  When the parser builds the declared structs.

  `reproduces_iff`: the text of a documented schema is accepted and gives exactly the declared
  structs, with their fields, counts, types and flags, when no struct is packed or empty and
  no field's type is a struct whose name is read as a builtin type; otherwise it does not.
-/

namespace Tyr

namespace Parser

/-! ## What a schema declares -/

/-- The declared type, by the structs of the module. -/
def TypeRef.ty (M : Module) : TypeRef → Option Ty
  | builtin b => some b.ty
  | struct name => (M.find name).bind fun S => S.type.map .ptr

/-- The declared fields: an array comes with its count. -/
def FieldSource.expected (M : Module) (f : FieldSource) : List Entry :=
  match f.type.ty M with
  | some t => f.decl.entriesOf (if f.isRepeated then .ptr t else t)
  | none => []

/-- The module has exactly the declared structs, each with the declared fields. -/
structure Reproduces (schema : List StructSource) (M : Module) : Prop where
  names : M.names = schema.map (·.name)
  structs : ∀ s ∈ schema, ∃ S ∈ M.structs, S.name = s.name ∧ S.packed = s.isPacked ∧
    (S.fields.map Field.entry).Perm (s.fields.flatMap (·.expected M))

/-- No struct is packed or empty and every struct that is a type is read as one. -/
def Plain (schema : List StructSource) : Prop :=
  ∀ s ∈ schema, s.isPacked = false ∧ s.fields ≠ [] ∧
    ∀ f ∈ s.fields, ∀ name, f.type = .struct name → ¬ Shadowed name

/-! ## Running the lines -/

section Accept

variable {std : StdSort .default} {P P' : Parser} {M : Module} {earlier : List String} {n : String}

/-- Lines the parser can act on are lines it accepts. -/
theorem run_step {tokens : List (List String)} {lines : List Line}
    (h : tokens.map readLine = lines.map some) (hrun : Run (Act std) P lines P') :
    Run (Step std) P tokens P' := by
  induction hrun generalizing tokens with
  | nil P =>
    obtain rfl := List.map_eq_nil_iff.mp h
    exact .nil P
  | cons hact hrest ih =>
    cases tokens with
    | nil => cases h
    | cons t ts =>
      obtain ⟨hline, hts⟩ := List.cons.inj h
      exact .cons (step_iff.mpr ⟨_, hline, hact⟩) (ih hts)

/-- Between two declarations: the earlier structs are there and closed. -/
structure Ready (earlier : List String) (M : Module) : Prop where
  consistent : Consistent ⟨M, none⟩
  names : M.names = earlier
  typed : ∀ S ∈ M.structs, S.type.isSome

/-- Inside the declaration of `n`. -/
structure Open (earlier : List String) (n : String) (M : Module) : Prop where
  consistent : Consistent ⟨M, some n⟩
  names : M.names = earlier ++ [n]
  typed : ∀ S ∈ M.structs, S.name ≠ n → S.type.isSome

variable (std) in
theorem Ready.header (h : Ready earlier M) (hn : n ∉ earlier) :
    ∃ M', Act std ⟨M, none⟩ (.header n false) ⟨M', some n⟩ ∧ Open earlier n M' := by
  have hact : Act std ⟨M, none⟩ (.header n false) _ := .header M n false
  refine ⟨_, hact, h.consistent.act hact, ?_, ?_⟩
  · have hnames := hact.names h.consistent
    simp only [h.names, if_neg hn] at hnames
    exact hnames
  · intro S hS hne
    rcases hact.mem_structs h.consistent hS with ⟨m, p, hl, -, rfl⟩ | ⟨T, hT, -, hST⟩
    · obtain ⟨rfl, rfl⟩ := Line.header.inj hl
      exact absurd rfl hne
    · have htype := h.typed T hT
      simp only at hST
      subst hST
      split <;> exact htype

/-- A well-formed type that is read as declared has a type to be read as. -/
theorem Open.type (h : Open earlier n M) (hn : n ∉ earlier) {f : FieldSource}
    (hf : f.type.WellFormed earlier) (hs : ∀ name, f.type = .struct name → ¬ Shadowed name) :
    ∃ t, M.parseType f.decl.type f.decl.isRepeated = .ok (some t) := by
  have hel : ∃ e, M.parseElementType f.type.text = .ok (some e) := by
    cases ht : f.type with
    | builtin b =>
      rw [ht] at hf
      exact ⟨b.ty, parseElementType_builtin hf⟩
    | struct name =>
      rw [ht] at hf
      have hmem : name ∈ M.names := by
        rw [h.names]
        exact List.mem_append_left _ hf
      obtain ⟨S, hS, rfl⟩ := List.mem_map.mp hmem
      have hne : S.name ≠ n := by
        rintro rfl
        exact hn hf
      obtain ⟨T, hT⟩ := Option.isSome_iff_exists.mp (h.typed S hS hne)
      exact ⟨.ptr T, parseElementType_struct (hs S.name ht)
        ((Module.find_eq_some_iff h.consistent.names_nodup).mpr ⟨hS, rfl⟩) hT⟩
  obtain ⟨e, he⟩ := hel
  unfold Module.parseType
  rw [show f.decl.type = f.type.text from rfl, he]
  exact ⟨_, rfl⟩

variable (std) in
theorem Open.field (h : Open earlier n M) {d : FieldDecl} {t : Ty}
    (ht : M.parseType d.type d.isRepeated = .ok (some t)) :
    ∃ M', Act std ⟨M, some n⟩ (.field d) ⟨M', some n⟩ ∧ Open earlier n M' ∧
      ∃ S, M'.find n = some S ∧ S.fields ≠ [] := by
  have hact : Act std ⟨M, some n⟩ (.field d) _ := .field ht
  have hcons := h.consistent.act hact
  have hnames := hact.names h.consistent
  simp only [h.names] at hnames
  refine ⟨_, hact, ⟨hcons, hnames, ?_⟩, ?_⟩
  · intro S hS hne
    rcases hact.mem_structs h.consistent hS with ⟨m, p, hl, -, -⟩ | ⟨T, hT, hname, hST⟩
    · cases hl
    · have hcur : some n ≠ some T.name := fun he => hne (hname ▸ (Option.some.inj he).symm)
      rw [(if_neg hcur).mp hST]
      exact h.typed T hT (hname ▸ hne)
  · obtain ⟨S, hS, rfl⟩ := List.mem_map.mp (h.consistent.current_mem n rfl)
    refine ⟨d.add t S, (Module.find_eq_some_iff hcons.names_nodup).mpr ⟨?_, d.name_add t S⟩, ?_⟩
    · show _ ∈ ((M.getOrCreateStruct S.name).modify S.name (d.add t)).structs
      rw [Module.getOrCreateStruct_of_mem (List.mem_map_of_mem hS)]
      exact Module.mem_modify.mpr ⟨S, hS, (if_pos rfl).symm⟩
    · unfold FieldDecl.add
      split <;> simp [Struct.addField, Struct.addRepeatedField]

variable (std) in
theorem Open.close (h : Open earlier n M) {S : Struct} (hS : M.find n = some S)
    (hne : S.fields ≠ []) :
    ∃ M', Act std ⟨M, some n⟩ .close ⟨M', none⟩ ∧ Ready (earlier ++ [n]) M' := by
  have hfin : ∃ M', M.finalizeFields std n = .ok M' := by
    unfold Module.finalizeFields
    rw [hS]
    exact ⟨_, if_neg hne⟩
  obtain ⟨M', hM'⟩ := hfin
  have hact : Act std ⟨M, some n⟩ .close _ := .close hM'
  have hnames := hact.names h.consistent
  simp only [h.names] at hnames
  refine ⟨_, hact, h.consistent.act hact, hnames, fun T hT => ?_⟩
  rcases hact.mem_structs h.consistent hT with ⟨m, p, hl, -, -⟩ | ⟨U, hU, hname, hline⟩
  · cases hl
  · by_cases hcur : some n = some U.name
    · obtain ⟨V, rfl⟩ := (if_pos hcur).mp hline
      rfl
    · rw [(if_neg hcur).mp hline]
      exact h.typed U hU fun he => hcur (congrArg some he.symm)

variable (std) in
/-- The fields of a declaration. -/
theorem Open.fields (h : Open earlier n M) (hn : n ∉ earlier) {fs : List FieldSource}
    (hne : fs ≠ []) (hf : ∀ f ∈ fs, f.type.WellFormed earlier)
    (hs : ∀ f ∈ fs, ∀ name, f.type = .struct name → ¬ Shadowed name) :
    ∃ M', Run (Act std) ⟨M, some n⟩ (fs.map fun f => .field f.decl) ⟨M', some n⟩ ∧
      Open earlier n M' ∧ ∃ S, M'.find n = some S ∧ S.fields ≠ [] := by
  induction fs generalizing M with
  | nil => exact absurd rfl hne
  | cons f fs ih =>
    obtain ⟨t, ht⟩ := h.type hn (hf f List.mem_cons_self) (hs f List.mem_cons_self)
    obtain ⟨M₁, hact, hopen, hstarted⟩ := h.field std ht
    by_cases hfs : fs = []
    · subst hfs
      exact ⟨M₁, .cons hact (.nil _), hopen, hstarted⟩
    · obtain ⟨M', hrun, hopen', hstarted'⟩ := ih hopen hfs
        (fun g hg => hf g (List.mem_cons_of_mem f hg))
        fun g hg => hs g (List.mem_cons_of_mem f hg)
      exact ⟨M', .cons hact hrun, hopen', hstarted'⟩

variable (std) in
/-- The lines of a plain schema are a run. -/
theorem Ready.schema (h : Ready earlier M) {schema : List StructSource}
    (hwf : SchemaWellFormed earlier schema) (hplain : Plain schema) :
    ∃ M', Run (Act std) ⟨M, none⟩ (schema.flatMap (·.read)) ⟨M', none⟩ ∧
      Ready (earlier ++ schema.map (·.name)) M' := by
  induction schema generalizing earlier M with
  | nil => exact ⟨M, .nil _, by simpa using h⟩
  | cons s rest ih =>
    obtain ⟨hs, hn, hrest⟩ := hwf
    obtain ⟨-, hne, hshadow⟩ := hplain s List.mem_cons_self
    obtain ⟨M₁, hheader, hopen⟩ := h.header std hn
    obtain ⟨M₂, hfields, hopen₂, S, hS, hSne⟩ := hopen.fields std hn hne hs.types hshadow
    obtain ⟨M₃, hclose, hready⟩ := hopen₂.close std hS hSne
    obtain ⟨M', hrun, hready'⟩ := ih hready hrest fun s' hs' =>
      hplain s' (List.mem_cons_of_mem s hs')
    have hblock : Run (Act std) ⟨M, none⟩ s.read ⟨M₃, none⟩ := by
      have hc : Run (Act std) ⟨M₂, some s.name⟩ [.close] ⟨M₃, none⟩ := .cons hclose (.nil _)
      exact .cons hheader (hfields.append hc)
    refine ⟨M', hblock.append hrun, ?_⟩
    rwa [List.append_assoc] at hready'

/-- No struct is packed when no header says so. -/
theorem packed_of_run {lines : List Line} (hrun : Run (Act std) Parser.new lines P)
    (hlines : ∀ name, .header name true ∉ lines) (S : Struct) (hS : S ∈ P.module.structs) :
    S.packed = false := by
  revert hlines S
  refine hrun.history (P := fun ls P => (∀ name, .header name true ∉ ls) →
    ∀ S ∈ P.module.structs, S.packed = false) (fun _ S hS => nomatch hS) ?_
  intro ls Q line Q' hls ih hact hlines S' hS'
  have ih := ih fun name hn => hlines name (List.mem_append_left _ hn)
  have hline : ∀ name isPacked, line = .header name isPacked → isPacked = false := by
    intro name isPacked hl
    cases isPacked with
    | false => rfl
    | true => exact absurd (List.mem_append_right _ (List.mem_singleton.mpr hl.symm)) (hlines name)
  rcases hact.mem_structs (consistent_of_run hls) hS' with
    ⟨name, isPacked, hl, -, rfl⟩ | ⟨S, hS, -, hS'⟩
  · exact hline name isPacked hl
  have hpacked := ih S hS
  cases line with
  | header name isPacked =>
    subst hS'
    split
    · exact hline name isPacked rfl
    · exact hpacked
  | close =>
    by_cases hcur : Q.currentStruct = some S.name
    · obtain ⟨T, rfl⟩ := (if_pos hcur).mp hS'
      exact hpacked
    · rw [(if_neg hcur).mp hS']
      exact hpacked
  | field d =>
    by_cases hcur : Q.currentStruct = some S.name
    · obtain ⟨t, -, rfl⟩ := (if_pos hcur).mp hS'
      unfold FieldDecl.add
      split <;> exact hpacked
    · rw [(if_neg hcur).mp hS']
      exact hpacked

/-- A struct that was closed has fields. -/
theorem fields_ne_nil_of_run {lines : List Line} (hrun : Run (Act std) Parser.new lines P)
    (S : Struct) (hS : S ∈ P.module.structs) (hT : S.type.isSome) : S.fields ≠ [] := by
  revert S
  refine hrun.history (P := fun _ P => ∀ S ∈ P.module.structs, S.type.isSome → S.fields ≠ [])
    (fun S hS => nomatch hS) ?_
  intro ls Q line Q' hls ih hact S' hS' hT
  have hcons := consistent_of_run hls
  rcases hact.mem_structs hcons hS' with ⟨name, isPacked, -, -, rfl⟩ | ⟨S, hS, -, hline⟩
  · cases hT
  cases line with
  | header name isPacked =>
    subst hline
    split at hT
    · next hn => rw [if_pos hn]; exact ih S hS hT
    · next hn => rw [if_neg hn]; exact ih S hS hT
  | close =>
    by_cases hcur : Q.currentStruct = some S.name
    · obtain ⟨T, rfl⟩ := (if_pos hcur).mp hline
      intro hnil
      have hS₀ : S.fields ≠ [] := by
        cases hact with
        | close h =>
          obtain ⟨S₀, hS₀, hne, -⟩ := Module.finalizeFields_eq_ok h
          obtain ⟨hmem, hname⟩ := (Module.find_eq_some_iff hcons.names_nodup).mp hS₀
          rw [← Module.eq_of_name hcons.names_nodup hmem hS
            (hname.trans (Option.some.inj hcur))]
          exact hne
      have hperm := entry_finalizeFields std S T
      rw [hnil] at hperm
      exact hS₀ (List.map_eq_nil_iff.mp hperm.nil_eq.symm)
    · rw [(if_neg hcur).mp hline] at hT ⊢
      exact ih S hS hT
  | field d =>
    by_cases hcur : Q.currentStruct = some S.name
    · obtain ⟨t, -, rfl⟩ := (if_pos hcur).mp hline
      unfold FieldDecl.add
      split <;> simp [Struct.addField, Struct.addRepeatedField]
    · rw [(if_neg hcur).mp hline] at hT ⊢
      exact ih S hS hT

end Accept

/-! ## The lines of a schema -/

section Lines

theorem headers_read (s : StructSource) : headers s.read = [s.name] := by
  unfold headers StructSource.read
  have hfields : (s.fields.map fun f => Line.field f.decl).filterMap headerName = [] := by
    rw [List.filterMap_map]
    exact List.filterMap_eq_nil_iff.mpr fun f _ => rfl
  simp [headerName, hfields]

theorem headers_schema (schema : List StructSource) :
    headers (schema.flatMap (·.read)) = schema.map (·.name) := by
  induction schema with
  | nil => rfl
  | cons s rest ih =>
    unfold headers at *
    rw [List.flatMap_cons, List.filterMap_append, ih, List.map_cons]
    exact congrArg (· ++ rest.map (·.name)) (headers_read s)

theorem opened_fields (cur : Option String) (fs : List FieldSource) :
    opened cur (fs.map fun f => .field f.decl) = cur := by
  induction fs with
  | nil => rfl
  | cons f fs ih => exact ih

theorem opened_read (s : StructSource) (cur : Option String) : opened cur s.read = none := by
  unfold StructSource.read
  rw [opened_append]
  rfl

theorem opened_schema (schema : List StructSource) :
    opened none (schema.flatMap (·.read)) = none := by
  induction schema with
  | nil => rfl
  | cons s rest ih => rw [List.flatMap_cons, opened_append, opened_read, ih]

theorem bodyFrom_fields (n : String) (fs : List FieldSource) (cur : Option String) :
    bodyFrom n cur (fs.map fun f => .field f.decl) =
      if cur = some n then fs.map fun f => .field f.decl else [] := by
  induction fs with
  | nil => simp [bodyFrom]
  | cons f fs ih =>
    unfold List.map bodyFrom
    rw [ih]
    split <;> rfl

theorem body_read (n : String) (s : StructSource) :
    body n s.read =
      if s.name = n then s.fields.map (fun f => .field f.decl) ++ [.close] else [] := by
  unfold body StructSource.read
  rw [bodyFrom_append]
  show bodyFrom n (some s.name) _ ++ bodyFrom n (opened (some s.name) _) [.close] = _
  rw [opened_fields, bodyFrom_fields]
  unfold bodyFrom
  by_cases hn : s.name = n
  · simp [hn, bodyFrom]
  · simp [hn, bodyFrom]

theorem body_schema {schema : List StructSource} (hnd : (schema.map (·.name)).Nodup)
    {s : StructSource} (hs : s ∈ schema) :
    body s.name (schema.flatMap (·.read)) = s.fields.map (fun f => .field f.decl) ++ [.close] := by
  have happend : ∀ s' : StructSource, ∀ rest : List StructSource,
      body s.name ((s' :: rest).flatMap (·.read)) =
        body s.name s'.read ++ body s.name (rest.flatMap (·.read)) := by
    intro s' rest
    unfold body
    rw [List.flatMap_cons, bodyFrom_append, opened_read]
  induction schema with
  | nil => cases hs
  | cons s' rest ih =>
    rw [List.map_cons, List.nodup_cons] at hnd
    rw [happend, body_read]
    rcases List.mem_cons.mp hs with rfl | hs
    · rw [if_pos rfl, body_eq_nil (by rw [headers_schema]; exact hnd.1), List.append_nil]
    · have hne : s'.name ≠ s.name := fun he => hnd.1 (he ▸ List.mem_map_of_mem hs)
      rw [if_neg hne, ih hnd.2 hs]
      rfl

theorem names_nodup {earlier : List String} {schema : List StructSource}
    (hwf : SchemaWellFormed earlier schema) :
    (schema.map (·.name)).Nodup ∧ ∀ s ∈ schema, s.name ∉ earlier := by
  induction schema generalizing earlier with
  | nil => exact ⟨List.nodup_nil, fun s hs => nomatch hs⟩
  | cons s rest ih =>
    obtain ⟨-, hn, hrest⟩ := hwf
    obtain ⟨hnd, hnot⟩ := ih hrest
    have hnot' : ∀ s' ∈ rest, s'.name ≠ s.name ∧ s'.name ∉ earlier := by
      intro s' hs'
      have h := hnot s' hs'
      rw [List.mem_append, List.mem_singleton, not_or] at h
      exact ⟨h.2, h.1⟩
    constructor
    · rw [List.map_cons, List.nodup_cons]
      refine ⟨fun hmem => ?_, hnd⟩
      obtain ⟨s', hs', he⟩ := List.mem_map.mp hmem
      exact (hnot' s' hs').1 he
    · intro s' hs'
      rcases List.mem_cons.mp hs' with rfl | hs'
      · exact hn
      · exact (hnot' s' hs').2

/-- A struct of a well-formed schema, with its types among the schema's names. -/
theorem wellFormed_of_mem {earlier : List String} {schema : List StructSource}
    (hwf : SchemaWellFormed earlier schema) {s : StructSource} (hs : s ∈ schema) :
    s.WellFormed (earlier ++ schema.map (·.name)) := by
  have mono : ∀ {e e' : List String} {s : StructSource}, (∀ n ∈ e, n ∈ e') → s.WellFormed e →
      s.WellFormed e' := by
    intro e e' s he h
    refine ⟨h.name, h.fieldNames, h.distinct, fun f hf => ?_⟩
    have ht := h.types f hf
    cases hty : f.type with
    | builtin b => rw [hty] at ht; exact ht
    | struct name => rw [hty] at ht; exact he name ht
  induction schema generalizing earlier with
  | nil => cases hs
  | cons s' rest ih =>
    obtain ⟨hs', -, hrest⟩ := hwf
    rcases List.mem_cons.mp hs with rfl | hs
    · exact mono (fun n hn => List.mem_append_left _ hn) hs'
    · have h := ih hrest hs
      rwa [List.append_assoc] at h

theorem decls_fields (fs : List FieldSource) :
    decls (fs.map (fun f => .field f.decl) ++ [.close]) = fs.map (·.decl) := by
  have hmap : fs.map (fun f => Line.field f.decl) = (fs.map (·.decl)).map .field :=
    List.map_map.symm
  rw [decls_append, hmap, decls_map_field]
  exact List.append_nil _

end Lines

/-! ## Main results -/

section Schema

variable {std : StdSort .default} {schema : List StructSource} {M : Module}

/-- What acceptance of a schema's text gives. -/
theorem complete_schema (hwf : SchemaWellFormed [] schema)
    (h : parseFile std (schemaText schema) = .ok (true, M)) :
    Complete (schema.flatMap (·.read)) M := by
  have hcloses : ClosesOnce (schema.flatMap (·.read)) :=
    .inl ⟨by rw [headers_schema]; exact (names_nodup hwf).1, opened_schema schema⟩
  rw [← fileLines_schema hwf] at hcloses ⊢
  exact (complete_iff h).mpr hcloses

theorem declared_schema (hwf : SchemaWellFormed [] schema)
    (hM : Complete (schema.flatMap (·.read)) M) {s : StructSource} (hs : s ∈ schema) {S : Struct}
    (hS : S ∈ M.structs) (hname : S.name = s.name) :
    (∀ f ∈ s.fields, ∃ t, M.parseType f.decl.type f.decl.isRepeated = .ok (some t)) ∧
    (S.fields.map Field.entry).Perm (s.fields.flatMap fun f => f.decl.entries M) := by
  obtain ⟨htypes, hperm⟩ := hM.declared S hS
  rw [hname, body_schema (names_nodup hwf).1 hs, decls_fields] at htypes hperm
  rw [List.flatMap_map] at hperm
  exact ⟨fun f hf => htypes f.decl (List.mem_map_of_mem hf), hperm⟩

/-- In a complete module every well-formed type denotes one. -/
theorem TypeRef.ty_eq (hnd : M.names.Nodup) (hM : ∀ S ∈ M.structs, S.IsComplete) {t : TypeRef}
    (ht : t.WellFormed M.names) :
    ∃ e, t.ty M = some e ∧
      ((∀ name, t = .struct name → ¬ Shadowed name) → M.parseElementType t.text = .ok (some e)) ∧
      ∀ name, t = .struct name → e.isPointerTy = true := by
  cases t with
  | builtin b =>
    exact ⟨b.ty, rfl, fun _ => parseElementType_builtin ht, fun name hn => nomatch hn⟩
  | struct name =>
    obtain ⟨S, hS, rfl⟩ := List.mem_map.mp ht
    obtain ⟨T, hT⟩ := Option.isSome_iff_exists.mp (hM S hS).isSome_type
    have hfind := (Module.find_eq_some_iff hnd).mpr ⟨hS, rfl⟩
    refine ⟨.ptr T, ?_, fun hs => parseElementType_struct (hs S.name rfl) hfind hT, fun _ _ => rfl⟩
    unfold ty
    simp only [hfind, Option.bind_some, hT, Option.map_some]

theorem FieldSource.expected_eq {f : FieldSource} {e : Ty} (h : f.type.ty M = some e) :
    f.expected M = f.decl.entriesOf (if f.isRepeated then .ptr e else e) := by
  unfold expected
  simp only [h]

/-- The field of a declaration, not its count. -/
theorem mem_entriesOf {d : FieldDecl} {t : Ty} {e : Entry} (hc : e.isCount = false) :
    e ∈ d.entriesOf t ↔ e = ⟨d.name, t, d.isMutable, d.isRepeated, false⟩ := by
  unfold FieldDecl.entriesOf
  cases d.isRepeated
  · simp
  · simp only [if_true, List.mem_cons, List.not_mem_nil, or_false, or_iff_right_iff_imp]
    rintro rfl
    cases hc

theorem not_shadowed (hM : ∀ S ∈ M.structs, S.IsComplete) (hnd : M.names.Nodup)
    {fs : List FieldSource} (hdistinct : (fs.map (·.name)).Nodup)
    (htypes : ∀ f ∈ fs, f.type.WellFormed M.names)
    (hperm : (fs.flatMap fun f => f.decl.entries M).Perm (fs.flatMap (·.expected M)))
    {f : FieldSource} (hf : f ∈ fs) {name : String} (hname : f.type = .struct name) :
    ¬ Shadowed name := by
  intro hshadow
  obtain ⟨e, he, -, hptr⟩ := TypeRef.ty_eq hnd hM (htypes f hf)
  have hexp : (⟨f.name, if f.isRepeated then .ptr e else e, f.isMutable, f.isRepeated, false⟩ :
      Entry) ∈ fs.flatMap (·.expected M) := by
    refine List.mem_flatMap.mpr ⟨f, hf, ?_⟩
    rw [FieldSource.expected_eq he, mem_entriesOf rfl]
    rfl
  obtain ⟨g, hg, hmem⟩ := List.mem_flatMap.mp (hperm.mem_iff.mpr hexp)
  unfold FieldDecl.entries at hmem
  split at hmem
  · next t ht =>
    rw [mem_entriesOf rfl, Entry.mk.injEq] at hmem
    obtain ⟨hfg, hty, -, -, -⟩ := hmem
    obtain rfl : f = g := List.inj_on_of_nodup_map hdistinct hf hg hfg
    obtain ⟨u, hu, rfl⟩ := parseType_eq_some ht
    have hue : e = u := by
      have hrep : f.decl.isRepeated = f.isRepeated := rfl
      rw [hrep] at hty
      split at hty
      · exact Ty.ptr.inj hty
      · exact hty
    have htext : f.decl.type = name := by
      show f.type.text = name
      rw [hname]
      rfl
    rw [htext] at hu
    have hnot := parseElementType_shadowed hshadow hu
    rw [← hue, hptr name hname] at hnot
    cases hnot
  · cases hmem

/-- The text of a schema builds the declared structs exactly when the schema is plain. -/
theorem reproduces_iff (hwf : SchemaWellFormed [] schema) :
    (∃ M, parseFile std (schemaText schema) = .ok (true, M) ∧ Reproduces schema M) ↔
      Plain schema := by
  constructor
  · rintro ⟨M, h, hnames, hstructs⟩
    have hM := complete_schema hwf h
    obtain ⟨P, hrun, rfl⟩ := run_of_parseFile h
    rw [fileLines_schema hwf] at hrun
    have hnd : P.module.names.Nodup := (consistent_of_run hrun).names_nodup
    intro s hs
    have hswf := wellFormed_of_mem hwf hs
    obtain ⟨S, hS, hname, hpacked, hperm⟩ := hstructs s hs
    obtain ⟨-, hdeclared⟩ := declared_schema hwf hM hs hS hname
    refine ⟨?_, ?_, ?_⟩
    · rw [← hpacked]
      refine packed_of_run hrun (fun name hmem => ?_) S hS
      obtain ⟨s', -, hmem⟩ := List.mem_flatMap.mp hmem
      simp [StructSource.read] at hmem
    · intro hnil
      have hne := fields_ne_nil_of_run hrun S hS (hM.isComplete S hS).isSome_type
      rw [hnil] at hperm
      exact hne (List.map_eq_nil_iff.mp hperm.eq_nil)
    · intro f hf name hn
      refine not_shadowed hM.isComplete hnd hswf.distinct (fun f hf => ?_)
        (hdeclared.symm.trans hperm) hf hn
      rw [hnames]
      exact hswf.types f hf
  · intro hplain
    have hnew : Ready [] Module.new := ⟨consistent_new, rfl, fun S hS => nomatch hS⟩
    obtain ⟨M, hrun, hready⟩ := hnew.schema std hwf hplain
    have hnames : M.names = schema.map (·.name) := hready.names
    have hnd : M.names.Nodup := hready.consistent.names_nodup
    have h : parseFile std (schemaText schema) = .ok (true, M) :=
      parseFile_eq_true_iff.mpr
        ⟨(code_schema hwf).1, ⟨M, none⟩, run_step (code_schema hwf).2 hrun, rfl⟩
    have hM := complete_schema hwf h
    refine ⟨M, h, hnames, fun s hs => ?_⟩
    have hswf := wellFormed_of_mem hwf hs
    obtain ⟨S, hS, hname⟩ := List.mem_map.mp (hnames ▸ List.mem_map_of_mem hs : s.name ∈ M.names)
    obtain ⟨hpacked, -, hshadow⟩ := hplain s hs
    obtain ⟨-, hdeclared⟩ := declared_schema hwf hM hs hS hname
    refine ⟨S, hS, hname, ?_, ?_⟩
    · rw [hpacked]
      refine packed_of_run hrun (fun name hmem => ?_) S hS
      obtain ⟨s', -, hmem⟩ := List.mem_flatMap.mp hmem
      simp [StructSource.read] at hmem
    · have hentries : ∀ f ∈ s.fields, f.decl.entries M = f.expected M := by
        intro f hf
        have ht : f.type.WellFormed M.names := by
          rw [hnames]
          exact hswf.types f hf
        obtain ⟨e, he, hparse, -⟩ := TypeRef.ty_eq hnd hM.isComplete ht
        rw [FieldSource.expected_eq he]
        have htype : M.parseType f.decl.type f.decl.isRepeated =
            .ok (some (if f.isRepeated then .ptr e else e)) := by
          unfold Module.parseType
          rw [show f.decl.type = f.type.text from rfl, hparse (hshadow f hf)]
          rfl
        unfold FieldDecl.entries
        rw [htype]
      rw [List.flatMap_congr hentries] at hdeclared
      exact hdeclared

end Schema

/-- `struct path { int32 idx }` and its packed form. -/
def smallSchema (isPacked : Bool) : List StructSource :=
  [⟨0, "path", isPacked, [⟨2, false, false, false, .builtin (.int 32), "idx"⟩], 0⟩]

theorem smallSchema_wellFormed (isPacked : Bool) : SchemaWellFormed [] (smallSchema isPacked) := by
  have hword : ∀ s ∈ ["path", "idx"], Identifier s := by
    intro s hs
    rcases List.mem_pair.mp hs with rfl | rfl <;>
      exact ⟨.of_chars (by decide) (by simp), by decide⟩
  refine ⟨⟨hword "path" (by decide), ?_, List.nodup_singleton _, ?_⟩, List.not_mem_nil, trivial⟩
  · intro f hf
    rw [List.mem_singleton.mp hf]
    exact hword "idx" (by decide)
  · intro f hf
    rw [List.mem_singleton.mp hf]
    exact (by decide : 1 ≤ 32 ∧ 32 < 2 ^ 24)

theorem reproduces_iff_small :
    (∃ M, parseFile (.stable .default) (schemaText (smallSchema false)) = .ok (true, M) ∧
      Reproduces (smallSchema false) M) ↔ Plain (smallSchema false) :=
  reproduces_iff (smallSchema_wellFormed false)

/-- A packed struct is not packed. -/
theorem packed_not_reproduced :
    SchemaWellFormed [] (smallSchema true) ∧
    schemaText (smallSchema true) = "struct path packed \x7b\n  int32 idx\n\x7d\n".toList ∧
    ∃ M, parseFile (.stable .default) (schemaText (smallSchema true)) = .ok (true, M) ∧
      (∃ S, M.structs = [S] ∧ S.packed = false) ∧ ¬ Reproduces (smallSchema true) M := by
  refine ⟨smallSchema_wellFormed true, by decide, _, rfl, ⟨_, rfl, rfl⟩, fun h => ?_⟩
  obtain ⟨S, hS, -, hpacked, -⟩ := h.structs _ List.mem_cons_self
  rw [List.mem_singleton.mp hS] at hpacked
  cases hpacked

end Parser

end Tyr
