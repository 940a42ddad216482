import Tyr.Parser.Steps

/-
  Which files the parser gets through.

  `LineOk P tokens` is what the line must be, in the state before it, for `parseLine` to
  return. `parseFile_returns_iff`: `parseFile` returns a verdict exactly when every line that
  reaches `parseLine`, in the state the accepted lines before it have led to, is such a line.
-/

namespace Tyr

open Fallible

namespace Parser

variable {std : StdSort .default} {P : Parser} {tokens : List String}

/-- A header has a name unless a struct is open; a brace closes an open struct with a field;
    a field stands in an open struct, has all its words and a usable type. -/
def LineOk (P : Parser) (tokens : List String) : Prop :=
  if tokens[0]? = some "struct" then P.currentStruct.isSome ∨ 2 ≤ tokens.length
  else if tokens[0]? = some "\x7d" then ∃ S, P.current = some S ∧ S.fields ≠ []
  else ∃ d, fieldDecl tokens = some d ∧ P.currentStruct.isSome ∧ P.module.Usable d.type

theorem finalizeFields_returns_iff {M : Module} {name : String} :
    (∃ M', M.finalizeFields std name = .ok M') ↔ ∃ S, M.find name = some S ∧ S.fields ≠ [] := by
  unfold Module.finalizeFields
  cases M.find name with
  | none => simp
  | some S => by_cases h : S.fields = [] <;> simp [h]

theorem addField_returns_iff {M : Module} {name : String} {d : FieldDecl} :
    (∃ r, addField M name d.isMutable d.isRepeated d.type d.name = .ok r) ↔ M.Usable d.type := by
  have htype : (∃ t, M.parseType d.type d.isRepeated = .ok t) ↔ M.Usable d.type :=
    Module.parseType_returns_iff
  rw [← htype]
  unfold addField
  cases M.parseType d.type d.isRepeated with
  | error e => simp [bind, Except.bind]
  | ok o =>
    cases o with
    | none => simp [bind, Except.bind, pure, Except.pure]
    | some t => cases d.isRepeated <;> simp [bind, Except.bind, pure, Except.pure]

theorem map_returns_iff {α β : Type} {x : Except Misuse α} {g : α → β} :
    (∃ b, x.map g = .ok b) ↔ ∃ a, x = .ok a := by
  cases x <;> simp [Except.map]

theorem parseLine_returns_iff : (∃ r, P.parseLine std tokens = .ok r) ↔ LineOk P tokens := by
  unfold LineOk
  cases tokens with
  | nil => simp [parseLine_nil, fieldDecl]
  | cons first rest =>
    rw [List.getElem?_cons_zero]
    simp only [Option.some.injEq]
    by_cases hs : first = "struct"
    · subst hs
      rw [if_pos rfl]
      cases hcur : P.currentStruct with
      | some name => simp [parseLine_nested std P hcur]
      | none =>
        rw [parseLine_header std P hcur]
        cases rest <;> simp
    rw [if_neg hs]
    by_cases hc : first = "\x7d"
    · subst hc
      rw [if_pos rfl, parseLine_close]
      unfold current
      cases P.currentStruct with
      | none => simp
      | some name => exact map_returns_iff.trans finalizeFields_returns_iff
    · rw [if_neg hc, parseLine_field std P hs hc]
      cases fieldDecl (first :: rest) with
      | none => simp
      | some d =>
        cases P.currentStruct with
        | none => simp
        | some name =>
          refine map_returns_iff.trans (addField_returns_iff.trans ?_)
          simp

theorem parseCode_returns_iff {code : List (List String)} :
    (∃ r, parseCode std code P = .ok r) ↔
      ∀ pre tokens post Q, code = pre ++ tokens :: post → Run (Step std) P pre Q →
        LineOk Q tokens := by
  induction code generalizing P with
  | nil =>
    constructor
    · intro _ pre tokens post Q hcode
      simp at hcode
    · exact fun _ => ⟨_, rfl⟩
  | cons tokens rest ih =>
    unfold parseCode
    constructor
    · intro hret pre tokens' post Q hcode hrun
      have hline : ∃ r, P.parseLine std tokens = .ok r := by
        cases hline : P.parseLine std tokens with
        | error e => simp [hline, bind, Except.bind] at hret
        | ok r => exact ⟨r, rfl⟩
      cases hrun with
      | nil =>
        obtain ⟨rfl, rfl⟩ := List.cons.inj hcode
        exact parseLine_returns_iff.mp hline
      | cons hstep hrest =>
        obtain ⟨rfl, rfl⟩ := List.cons.inj hcode
        rw [show P.parseLine std tokens = _ from hstep, ok_bind] at hret
        exact ih.mp hret _ _ _ _ rfl hrest
    · intro hok
      obtain ⟨⟨parsed, P'⟩, hline⟩ := parseLine_returns_iff.mpr
        (hok [] tokens rest P rfl (.nil P))
      rw [hline, ok_bind]
      cases parsed with
      | false => exact ⟨_, rfl⟩
      | true =>
        refine ih.mpr fun pre tokens' post Q hcode hrun => ?_
        exact hok (tokens :: pre) tokens' post Q (congrArg _ hcode) (.cons hline hrun)

/-! ## Main results -/

/-- `parseFile` returns true or false exactly when every line that reaches `parseLine` is one
    it can take in the state reached there. -/
theorem parseFile_returns_iff (std : StdSort .default) (input : List Char) :
    (∃ verdict M, parseFile std input = .ok (verdict, M)) ↔
      ∀ pre tokens post P, (code input).1 = pre ++ tokens :: post →
        Run (Step std) Parser.new pre P → LineOk P tokens := by
  rw [← parseCode_returns_iff, parseFile_eq]
  cases parseCode std (code input).1 Parser.new with
  | error e => simp [bind, Except.bind]
  | ok r => simp [bind, Except.bind, pure, Except.pure]

/-- A one-word line, a stray brace, a field outside any struct, a struct that contains itself
    and an empty struct. -/
theorem parseFile_misuses :
    parseFile (.stable .default) "x".toList = .error .token ∧
    parseFile (.stable .default) "\x7d".toList = .error .nullStruct ∧
    parseFile (.stable .default) "int8 x".toList = .error .nullStruct ∧
    parseFile (.stable .default) "struct a \x7b\n  a x\n\x7d".toList = .error .nullType ∧
    parseFile (.stable .default) "struct a \x7b\n\x7d".toList = .error .noElements := by
  refine ⟨by rfl, by rfl, by rfl, by rfl, by rfl⟩

end Parser

end Tyr
