import Tyr.Lib.Transition
import Tyr.Parser.Parse

/-
  What one accepted line does to the parser, and runs of accepted lines.

  `readLine` is the line as a header, a closing brace or a field declaration; `Act` says what
  each does. `step_iff`: a line the parser accepts is one that `Act` allows. A file is accepted
  exactly when its code lines are a run (`parseFile_eq_true_iff`).
-/

namespace Tyr

open Fallible

inductive Line where
  | header (name : String) (isPacked : Bool)
  | close
  | field (d : FieldDecl)
  deriving DecidableEq

/-- The line the tokens stand for. -/
def readLine : List String → Option Line
  | [] => none
  | first :: rest =>
    if first = "struct" then
      rest.head?.map fun name => .header name (rest.length == 2 && rest[1]? == some "packed")
    else if first = "\x7d" then some .close
    else (fieldDecl (first :: rest)).map .field

theorem readLine_struct (rest : List String) :
    readLine ("struct" :: rest) = rest.head?.map fun name =>
      .header name (rest.length == 2 && rest[1]? == some "packed") := rfl

theorem readLine_brace (rest : List String) : readLine ("\x7d" :: rest) = some .close := rfl

theorem readLine_other {first : String} (rest : List String) (hs : first ≠ "struct")
    (hc : first ≠ "\x7d") : readLine (first :: rest) = (fieldDecl (first :: rest)).map .field := by
  simp only [readLine, if_neg hs, if_neg hc]

/-- Add the declared field, `t` being its type. -/
def FieldDecl.add (d : FieldDecl) (t : Ty) (S : Struct) : Struct :=
  if d.isRepeated then S.addRepeatedField d.name t d.isMutable
  else S.addField d.name t d.isMutable

namespace Parser

variable (std : StdSort .default)

/-- The parser accepts the line and goes on. -/
def Step (P : Parser) (tokens : List String) (P' : Parser) : Prop :=
  P.parseLine std tokens = .ok (true, P')

/-- What an accepted line does. -/
inductive Act : Parser → Line → Parser → Prop where
  | header (M : Module) (name : String) (isPacked : Bool) :
      Act ⟨M, none⟩ (.header name isPacked)
        ⟨(M.getOrCreateStruct name).modify name (·.setIsPacked isPacked), some name⟩
  | close {M M' : Module} {name : String} (h : M.finalizeFields std name = .ok M') :
      Act ⟨M, some name⟩ .close ⟨M', none⟩
  | field {M : Module} {name : String} {d : FieldDecl} {t : Ty}
      (h : M.parseType d.type d.isRepeated = .ok (some t)) :
      Act ⟨M, some name⟩ (.field d)
        ⟨(M.getOrCreateStruct name).modify name (d.add t), some name⟩

variable {std} {P P' : Parser} {tokens : List String}

theorem addField_eq_true {M M' : Module} {name : String} {d : FieldDecl} :
    addField M name d.isMutable d.isRepeated d.type d.name = .ok (true, M') ↔
      ∃ t, M.parseType d.type d.isRepeated = .ok (some t) ∧
        M' = (M.getOrCreateStruct name).modify name (d.add t) := by
  unfold addField
  cases ht : M.parseType d.type d.isRepeated with
  | error e => simp [bind, Except.bind]
  | ok o =>
    cases o with
    | none => simp [bind, Except.bind, pure, Except.pure]
    | some t =>
      unfold FieldDecl.add
      cases d.isRepeated <;> simp [bind, Except.bind, pure, Except.pure, eq_comm]

theorem step_header {rest : List String} : Step std P ("struct" :: rest) P' ↔
    ∃ line, readLine ("struct" :: rest) = some line ∧ Act std P line P' := by
  unfold Step
  obtain ⟨M, cur⟩ := P
  rw [readLine_struct]
  cases cur with
  | some name =>
    rw [parseLine_nested std _ rfl]
    constructor
    · intro h
      cases h
    · rintro ⟨line, hl, hact⟩
      cases hact <;> simp at hl
  | none =>
    rw [parseLine_header std _ rfl]
    cases rest with
    | nil => simp
    | cons name rest =>
      constructor
      · intro h
        obtain rfl := congrArg Prod.snd (Except.ok.inj h)
        exact ⟨_, rfl, .header M name _⟩
      · rintro ⟨line, hl, hact⟩
        obtain rfl := Option.some.inj hl
        cases hact
        rfl

theorem step_close {rest : List String} : Step std P ("\x7d" :: rest) P' ↔
    ∃ line, readLine ("\x7d" :: rest) = some line ∧ Act std P line P' := by
  unfold Step
  obtain ⟨M, cur⟩ := P
  rw [readLine_brace, parseLine_close]
  constructor
  · intro h
    refine ⟨.close, rfl, ?_⟩
    cases cur with
    | none => cases h
    | some name =>
      cases hM : M.finalizeFields std name with
      | error e => simp [hM, Except.map] at h
      | ok M' =>
        simp only [hM, Except.map, Except.ok.injEq, Prod.mk.injEq, true_and] at h
        exact h ▸ .close hM
  · rintro ⟨line, hl, hact⟩
    obtain rfl := Option.some.inj hl
    cases hact with
    | close hM => simp [hM, Except.map]

theorem step_field {first : String} {rest : List String} (hs : first ≠ "struct")
    (hc : first ≠ "\x7d") : Step std P (first :: rest) P' ↔
      ∃ line, readLine (first :: rest) = some line ∧ Act std P line P' := by
  unfold Step
  obtain ⟨M, cur⟩ := P
  rw [readLine_other rest hs hc, parseLine_field std _ hs hc]
  cases fieldDecl (first :: rest) with
  | none => simp
  | some d =>
    constructor
    · intro h
      refine ⟨.field d, rfl, ?_⟩
      cases cur with
      | none => cases h
      | some name =>
        cases hadd : addField M name d.isMutable d.isRepeated d.type d.name with
        | error e => simp [hadd, Except.map] at h
        | ok r =>
          obtain ⟨parsed, M'⟩ := r
          simp only [hadd, Except.map, Except.ok.injEq, Prod.mk.injEq] at h
          obtain ⟨rfl, rfl⟩ := h
          obtain ⟨t, ht, rfl⟩ := addField_eq_true.mp hadd
          exact .field ht
    · rintro ⟨line, hl, hact⟩
      obtain rfl := Option.some.inj hl
      cases hact with
      | field ht => simp [addField_eq_true.mpr ⟨_, ht, rfl⟩, Except.map]

/-- An accepted line, by what it is. -/
theorem step_iff :
    Step std P tokens P' ↔ ∃ line, readLine tokens = some line ∧ Act std P line P' := by
  cases tokens with
  | nil =>
    unfold Step
    simp [parseLine_nil, readLine]
  | cons first rest =>
    by_cases hs : first = "struct"
    · rw [hs]
      exact step_header
    by_cases hc : first = "\x7d"
    · rw [hc]
      exact step_close
    · exact step_field hs hc

/-! ## Runs -/

theorem parseCode_eq_true_iff {code : List (List String)} :
    parseCode std code P = .ok (true, P') ↔ Run (Step std) P code P' := by
  induction code generalizing P with
  | nil =>
    constructor
    · intro h
      obtain rfl := congrArg Prod.snd (Except.ok.inj h)
      exact .nil P
    · intro h
      cases h
      rfl
  | cons tokens rest ih =>
    unfold parseCode
    constructor
    · intro h
      cases hline : P.parseLine std tokens with
      | error e => simp [hline, bind, Except.bind] at h
      | ok r =>
        obtain ⟨parsed, Q⟩ := r
        cases parsed with
        | false => simp [hline, bind, Except.bind, pure, Except.pure] at h
        | true =>
          simp only [hline, ok_bind, if_true] at h
          exact .cons hline (ih.mp h)
    · intro h
      cases h with
      | cons hstep hrest =>
        rw [show P.parseLine std tokens = _ from hstep, ok_bind]
        exact ih.mpr hrest

/-- The token lists of a file's code lines and whether an inline comment ends them. -/
def code (input : List Char) : List (List String) × Bool := codeLines (getlines input) false

theorem parseFile_eq (input : List Char) :
    parseFile std input = (do
      let (parsed, P) ← parseCode std (code input).1 Parser.new
      pure (parsed && !(code input).2, P.module)) := by
  unfold parseFile code
  rw [parseLines_eq]
  cases parseCode std (codeLines (getlines input) false).1 Parser.new <;> rfl

/-- A file is accepted when all its code lines are and no line has an inline comment. -/
theorem parseFile_eq_true_iff {input : List Char} {M : Module} :
    parseFile std input = .ok (true, M) ↔
      (code input).2 = false ∧
      ∃ P, Run (Step std) Parser.new (code input).1 P ∧ P.module = M := by
  rw [parseFile_eq]
  constructor
  · intro h
    cases hcode : parseCode std (code input).1 Parser.new with
    | error e => simp [hcode, bind, Except.bind] at h
    | ok r =>
      obtain ⟨parsed, P⟩ := r
      simp only [hcode, ok_bind, pure, Except.pure, Except.ok.injEq, Prod.mk.injEq,
        Bool.and_eq_true, Bool.not_eq_true'] at h
      obtain ⟨⟨rfl, hstop⟩, hM⟩ := h
      exact ⟨hstop, P, parseCode_eq_true_iff.mp hcode, hM⟩
  · rintro ⟨hstop, P, hrun, rfl⟩
    rw [parseCode_eq_true_iff.mpr hrun, ok_bind, hstop]
    rfl

end Parser

end Tyr
