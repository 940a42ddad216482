import Tyr.Lib.Fallible
import Tyr.Lib.Text
import Tyr.Parser.Module

/-
  `tyr::Parser`: `parseLine` on the tokens of one line, `parseFile` on a stream.

  `parseFile` decides by its first and last characters what a line is (`lineKind`), whether
  it is inside a block comment or not. `codeLines` is that decision alone: the token lists
  that reach `parseLine` and whether a line with an inline comment ends the file early.
  `parseLines_eq`: the loop is `parseLine` over them.
-/

namespace Tyr

open Fallible

/-! ## Lines and tokens -/

/-- The lines `std::getline` yields. -/
def getlines (input : List Char) : List (List Char) :=
  let ls := input.splitOn '\n'
  if ls.getLast? = some [] then ls.dropLast else ls

/-- The text of the lines, each with its newline. -/
def textOf (ls : List (List Char)) : List Char := ls.flatMap (· ++ ['\n'])

theorem getlines_textOf {ls : List (List Char)} (h : ∀ l ∈ ls, '\n' ∉ l) :
    getlines (textOf ls) = ls := by
  unfold getlines textOf
  rw [splitOn_terminated h]
  simp

/-- `ltrim(" ")` -/
def ltrim (l : List Char) : List Char := l.dropWhile (· = ' ')

/-- `split(tokens, " ")`: adjacent spaces give empty tokens. -/
def tokenize (l : List Char) : List String := (l.splitOn ' ').map String.ofList

/-- What `parseFile` takes a line for. -/
inductive LineKind where
  | blank
  | comment
  | commentBegin
  | commentEnd
  | inlineComment
  | code (tokens : List String)
  deriving DecidableEq

/-- The tests of `parseFile` in their order. -/
def trimmedKind (lineRef : List Char) : LineKind :=
  if lineRef = [] then .blank
  else if ['/', '/'] <+: lineRef then .comment
  else if ['/', '*'] <+: lineRef then .commentBegin
  else if ['*', '/'] <+: lineRef ∨ ['*', '/'] <:+ lineRef then .commentEnd
  else if ['/', '/'] <:+: lineRef ∨ ['/', '*'] <:+: lineRef ∨ ['*', '/'] <:+: lineRef then
    .inlineComment
  else .code (tokenize lineRef)

def lineKind (l : List Char) : LineKind := trimmedKind (ltrim l)

/-! ## The parser -/

/-- `m_current_struct_` is the struct's name. -/
structure Parser where
  module : Module
  currentStruct : Option String

def Parser.new : Parser where
  module := Module.new
  currentStruct := none

/-- `tokens[i]` -/
def tokenAt (tokens : List String) (i : Nat) : Except Misuse String :=
  match tokens[i]? with
  | some t => .ok t
  | none => .error .token

/-- `tokens[0] == word || tokens[1] == word` -/
def hasModifier (tokens : List String) (word : String) : Except Misuse Bool := do
  if (← tokenAt tokens 0) = word then pure true
  else pure ((← tokenAt tokens 1) = word)

/-- `addField` of the parser. -/
def addField (M : Module) (StructName : String) (IsMutable IsRepeated : Bool)
    (FieldType FieldName : String) : Except Misuse (Bool × Module) := do
  match ← M.parseType FieldType IsRepeated with
  | none => pure (false, M)
  | some FT =>
    let M := M.getOrCreateStruct StructName
    if IsRepeated then
      pure (true, M.modify StructName (·.addRepeatedField FieldName FT IsMutable))
    else
      pure (true, M.modify StructName (·.addField FieldName FT IsMutable))

namespace Parser

variable (std : StdSort .default)

/-- `Parser::parseLine` -/
def parseLine (P : Parser) (tokens : List String) : Except Misuse (Bool × Parser) := do
  let first ← tokenAt tokens 0
  if first = "struct" then
    if P.currentStruct.isSome then pure (false, P)
    else
      let StructName ← tokenAt tokens 1
      let isPacked := tokens.length == 3 && tokens[2]? == some "packed"
      pure (true,
        { module := (P.module.getOrCreateStruct StructName).modify StructName
            (·.setIsPacked isPacked)
          currentStruct := some StructName })
  else if first = "\x7d" then -- a closing brace
    match P.currentStruct with
    | none => .error .nullStruct
    | some name =>
      let module ← P.module.finalizeFields std name
      pure (true, { module := module, currentStruct := none })
  else
    let IsMut ← hasModifier tokens "mutable"
    let IsRepeated ← hasModifier tokens "repeated"
    let FieldTy ← tokenAt tokens
      (if IsMut && IsRepeated then 2 else if IsMut || IsRepeated then 1 else 0)
    let FieldName := tokens.getLast?.getD ""
    match P.currentStruct with
    | none => .error .nullStruct
    | some name =>
      let (parsed, module) ← addField P.module name IsMut IsRepeated FieldTy FieldName
      pure (parsed, { P with module := module })

/-- The loop of `Parser::parseFile`. -/
def parseLines : List (List Char) → Bool → Parser → Except Misuse (Bool × Parser)
  | [], _, P => pure (true, P)
  | l :: rest, insideComment, P =>
    match lineKind l with
    | .blank => parseLines rest insideComment P
    | .comment => parseLines rest insideComment P
    | .commentBegin => parseLines rest true P
    | .commentEnd => parseLines rest false P
    | .inlineComment => pure (false, P)
    | .code tokens =>
      if insideComment then parseLines rest insideComment P
      else do
        let (parsed, P') ← P.parseLine std tokens
        if parsed then parseLines rest insideComment P' else pure (false, P')

/-- `Parser::parseFile` on a fresh module: the verdict and the module. -/
def parseFile (input : List Char) : Except Misuse (Bool × Module) := do
  let (parsed, P) ← parseLines std (getlines input) false Parser.new
  pure (parsed, P.module)

/-! ## Comments and code -/

/-- The tokens of the code lines up to the first line with an inline comment, and whether
    there is one. -/
def codeLines : List (List Char) → Bool → List (List String) × Bool
  | [], _ => ([], false)
  | l :: rest, insideComment =>
    match lineKind l with
    | .blank => codeLines rest insideComment
    | .comment => codeLines rest insideComment
    | .commentBegin => codeLines rest true
    | .commentEnd => codeLines rest false
    | .inlineComment => ([], true)
    | .code tokens =>
      if insideComment then codeLines rest insideComment
      else
        let (code, stopped) := codeLines rest insideComment
        (tokens :: code, stopped)

/-- `parseLine` on each line until one fails. -/
def parseCode : List (List String) → Parser → Except Misuse (Bool × Parser)
  | [], P => pure (true, P)
  | tokens :: rest, P => do
    let (parsed, P') ← P.parseLine std tokens
    if parsed then parseCode rest P' else pure (false, P')

theorem parseLines_eq (ls : List (List Char)) (insideComment : Bool) (P : Parser) :
    parseLines std ls insideComment P = (do
      let (parsed, P') ← parseCode std (codeLines ls insideComment).1 P
      pure (parsed && !(codeLines ls insideComment).2, P')) := by
  induction ls generalizing insideComment P with
  | nil => rfl
  | cons l rest ih =>
    unfold parseLines codeLines
    cases hk : lineKind l with
    | blank => exact ih insideComment P
    | comment => exact ih insideComment P
    | commentBegin => exact ih true P
    | commentEnd => exact ih false P
    | inlineComment => rfl
    | code tokens =>
      cases insideComment with
      | true => exact ih true P
      | false =>
        show _ = (do
          let (parsed, P') ← parseCode std (tokens :: (codeLines rest false).1) P
          pure (parsed && !(codeLines rest false).2, P'))
        unfold parseCode
        cases hline : P.parseLine std tokens with
        | error e => simp [hline, bind, Except.bind]
        | ok r =>
          obtain ⟨parsed, P'⟩ := r
          cases parsed with
          | false => simp [hline, bind, Except.bind, pure, Except.pure]
          | true =>
            have h := ih false P'
            simpa [hline, bind, Except.bind, pure, Except.pure] using h

end Parser

/-! ## One line -/

/-- A field declaration as the parser reads it. -/
structure FieldDecl where
  isMutable : Bool
  isRepeated : Bool
  type : String
  name : String
  deriving DecidableEq

/-- `word` is one of the first two tokens. -/
def isModified (tokens : List String) (word : String) : Bool :=
  tokens[0]? == some word || tokens[1]? == some word

/-- What the parser reads from a field's line, if the line is long enough. -/
def fieldDecl (tokens : List String) : Option FieldDecl :=
  let isMutable := isModified tokens "mutable"
  let isRepeated := isModified tokens "repeated"
  if tokens.length < 2 then none
  else
    (tokens[if isMutable && isRepeated then 2 else if isMutable || isRepeated then 1 else 0]?).map
      fun type => ⟨isMutable, isRepeated, type, tokens.getLast?.getD ""⟩

namespace Parser

variable (std : StdSort .default) (P : Parser) {tokens : List String}

/-- The open struct. -/
def current : Option Struct := P.currentStruct.bind P.module.find

theorem hasModifier_pair (first second : String) (rest : List String) (word : String) :
    hasModifier (first :: second :: rest) word =
      .ok (isModified (first :: second :: rest) word) := by
  by_cases hw : first = word
  · simp [hasModifier, isModified, tokenAt, hw, bind, Except.bind, pure, Except.pure]
  · simp [hasModifier, isModified, tokenAt, hw, bind, Except.bind, pure, Except.pure,
      Bool.beq_eq_decide_eq]

theorem hasModifier_single (first word : String) :
    hasModifier [first] word = if first = word then .ok true else .error .token := by
  by_cases hw : first = word
  · simp [hasModifier, tokenAt, hw, bind, Except.bind, pure, Except.pure]
  · simp [hasModifier, tokenAt, hw, bind, Except.bind]

theorem parseLine_nil : P.parseLine std [] = .error .token := rfl

theorem parseLine_header {rest : List String} (h : P.currentStruct = none) :
    P.parseLine std ("struct" :: rest) = match rest with
      | [] => .error .token
      | name :: _ => .ok (true,
          { module := (P.module.getOrCreateStruct name).modify name
              (·.setIsPacked (rest.length == 2 && rest[1]? == some "packed"))
            currentStruct := some name }) := by
  cases rest with
  | nil => simp [parseLine, tokenAt, h, bind, Except.bind]
  | cons name rest => simp [parseLine, tokenAt, h, bind, Except.bind, pure, Except.pure]

theorem parseLine_nested {rest : List String} {name : String} (h : P.currentStruct = some name) :
    P.parseLine std ("struct" :: rest) = .ok (false, P) := by
  simp [parseLine, tokenAt, h, bind, Except.bind, pure, Except.pure]

theorem parseLine_close {rest : List String} :
    P.parseLine std ("\x7d" :: rest) = match P.currentStruct with
      | none => .error .nullStruct
      | some name => (P.module.finalizeFields std name).map fun M => (true, ⟨M, none⟩) := by
  cases h : P.currentStruct with
  | none => simp [parseLine, tokenAt, h, bind, Except.bind]
  | some name =>
    cases hM : P.module.finalizeFields std name <;>
      simp [parseLine, tokenAt, h, hM, bind, Except.bind, pure, Except.pure, Except.map]

/-- Any other line is read as a field. -/
theorem parseLine_field {first : String} {rest : List String} (hs : first ≠ "struct")
    (hc : first ≠ "\x7d") :
    P.parseLine std (first :: rest) = match fieldDecl (first :: rest) with
      | none => .error .token
      | some d => match P.currentStruct with
        | none => .error .nullStruct
        | some name =>
          (addField P.module name d.isMutable d.isRepeated d.type d.name).map fun r =>
            (r.1, { P with module := r.2 }) := by
  have hne : (tokenAt (first :: rest) 0) = .ok first := rfl
  unfold parseLine
  rw [hne, ok_bind, if_neg hs, if_neg hc]
  cases rest with
  | nil =>
    -- one of the two tests reads `tokens[1]`
    by_cases hm : first = "mutable"
    · have hr : first ≠ "repeated" := by rw [hm]; decide
      rw [hasModifier_single, hasModifier_single, if_pos hm, if_neg hr]
      rfl
    · rw [hasModifier_single, if_neg hm]
      rfl
  | cons second rest =>
    have hlen : ¬ (first :: second :: rest).length < 2 := by simp
    rw [hasModifier_pair, ok_bind, hasModifier_pair, ok_bind]
    simp only [fieldDecl, if_neg hlen, tokenAt]
    cases (first :: second :: rest)[if isModified (first :: second :: rest) "mutable" &&
        isModified (first :: second :: rest) "repeated" then 2
      else if isModified (first :: second :: rest) "mutable" ||
        isModified (first :: second :: rest) "repeated" then 1 else 0]? with
    | none => rfl
    | some type =>
      cases P.currentStruct with
      | none => rfl
      | some name => rfl

end Parser

end Tyr
