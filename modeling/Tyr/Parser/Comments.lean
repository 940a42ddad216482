import Tyr.Parser.Steps

/-
  Comments and blank lines between source lines.

  An `Insertion` is a blank line, a line comment or a block comment on lines of its own. The
  parser's flag after it is `Insertion.after`; a line inside a block comment that is taken for
  code with an inline comment ends the file (`Insertion.stops`). `transparent_iff`: a way of
  inserting leaves every source alone exactly when no insertion stops the parser and the flag
  is down again before each source line.
-/

namespace Tyr

namespace Parser

/-! ## Insertions -/

def spaces (n : Nat) : List Char := List.replicate n ' '

/-- A blank line, a line comment, a block comment on one line, and one on several lines:
    `first` follows the `/*` and `last` precedes the `*/`. -/
inductive Insertion where
  | blank (indent : Nat)
  | line (indent : Nat) (text : List Char)
  | oneLine (indent : Nat) (body : List Char)
  | block (indent : Nat) (first : List Char) (middle : List (List Char)) (last : List Char)

namespace Insertion

def lines : Insertion → List (List Char)
  | blank indent => [spaces indent]
  | line indent text => [spaces indent ++ ['/', '/'] ++ text]
  | oneLine indent body => [spaces indent ++ ['/', '*'] ++ body ++ ['*', '/']]
  | block indent first middle last =>
    (spaces indent ++ ['/', '*'] ++ first) :: middle ++ [last ++ ['*', '/']]

/-- The text of a block comment. -/
def body : Insertion → List (List Char)
  | blank _ => []
  | line _ _ => []
  | oneLine _ body => [body]
  | block _ first middle last => first :: middle ++ [last]

/-- The lines are lines, and no `*/` comes before the last one. -/
structure WellFormed (i : Insertion) : Prop where
  line : ∀ l ∈ i.lines, '\n' ∉ l
  body : ∀ b ∈ i.body, ¬ ['*', '/'] <:+: b

/-- A line of the comment is taken for code with an inline comment. -/
def stops : Insertion → Bool
  | block _ _ middle _ => middle.any fun m => lineKind m = .inlineComment
  | _ => false

/-- The `insideComment` flag after the insertion. -/
def after (insideComment : Bool) : Insertion → Bool
  | blank _ => insideComment
  | line _ _ => insideComment
  | oneLine _ _ => true
  | block _ _ _ last => lineKind (last ++ ['*', '/']) ≠ .commentEnd

end Insertion

/-! ## What the parser takes their lines for -/

theorem ltrim_spaces (n : Nat) (l : List Char) : ltrim (spaces n ++ l) = ltrim l := by
  unfold ltrim spaces
  apply List.dropWhile_append_of_pos
  intro c hc
  simp [List.eq_of_mem_replicate hc]

theorem lineKind_spaces (n : Nat) (l : List Char) : lineKind (spaces n ++ l) = lineKind l := by
  unfold lineKind
  rw [ltrim_spaces]

theorem lineKind_nil : lineKind [] = .blank := rfl

theorem lineKind_line (text : List Char) : lineKind (['/', '/'] ++ text) = .comment := by
  have hp : ['/', '/'] <+: ['/', '/'] ++ text := List.prefix_append _ _
  show trimmedKind (['/', '/'] ++ text) = _
  unfold trimmedKind
  rw [if_neg (by simp), if_pos hp]

theorem lineKind_begin (text : List Char) : lineKind (['/', '*'] ++ text) = .commentBegin := by
  have hp : ['/', '*'] <+: ['/', '*'] ++ text := List.prefix_append _ _
  have hn : ¬ ['/', '/'] <+: ['/', '*'] ++ text := by simp
  show trimmedKind (['/', '*'] ++ text) = _
  unfold trimmedKind
  rw [if_neg (by simp), if_neg hn, if_pos hp]

/-- Without a `*/` a line ends no comment. -/
theorem lineKind_middle {m : List Char} (h : ¬ ['*', '/'] <:+: m) : lineKind m ≠ .commentEnd := by
  have hs : ltrim m <:+: m := (List.dropWhile_suffix _).isInfix
  unfold lineKind trimmedKind
  intro hk
  split at hk
  · cases hk
  split at hk
  · cases hk
  split at hk
  · cases hk
  split at hk
  · next hend =>
    apply h
    rcases hend with hp | hp
    · exact hp.isInfix.trans hs
    · exact hp.isInfix.trans hs
  split at hk <;> cases hk

/-- The `*/` is still there after trimming. -/
theorem ltrim_append_end (l : List Char) : ['*', '/'] <:+ ltrim (l ++ ['*', '/']) := by
  unfold ltrim
  rw [List.dropWhile_append]
  split
  · exact List.suffix_refl _
  · exact List.suffix_append _ _

/-- A line that ends in `*/` is no code. -/
theorem lineKind_end (l : List Char) :
    lineKind (l ++ ['*', '/']) = .comment ∨ lineKind (l ++ ['*', '/']) = .commentBegin ∨
      lineKind (l ++ ['*', '/']) = .commentEnd := by
  have hend := ltrim_append_end l
  have hne : ltrim (l ++ ['*', '/']) ≠ [] := by
    intro h
    rw [h] at hend
    simp at hend
  unfold lineKind trimmedKind
  rw [if_neg hne]
  split
  · exact Or.inl rfl
  split
  · exact Or.inr (Or.inl rfl)
  rw [if_pos (Or.inr hend)]
  exact Or.inr (Or.inr rfl)

/-! ## What they do to the code lines -/

theorem codeLines_cons_comment {l : List Char} (h : lineKind l = .comment) (rest : List (List Char))
    (c : Bool) : codeLines (l :: rest) c = codeLines rest c := by
  simp [codeLines, h]

theorem codeLines_cons_blank {l : List Char} (h : lineKind l = .blank) (rest : List (List Char))
    (c : Bool) : codeLines (l :: rest) c = codeLines rest c := by
  simp [codeLines, h]

theorem codeLines_cons_begin {l : List Char} (h : lineKind l = .commentBegin)
    (rest : List (List Char)) (c : Bool) : codeLines (l :: rest) c = codeLines rest true := by
  simp [codeLines, h]

theorem codeLines_cons_end {l : List Char} (h : lineKind l = .commentEnd)
    (rest : List (List Char)) (c : Bool) : codeLines (l :: rest) c = codeLines rest false := by
  simp [codeLines, h]

theorem codeLines_cons_inline {l : List Char} (h : lineKind l = .inlineComment)
    (rest : List (List Char)) (c : Bool) : codeLines (l :: rest) c = ([], true) := by
  simp [codeLines, h]

theorem codeLines_cons_code {l : List Char} {tokens : List String} (h : lineKind l = .code tokens)
    (rest : List (List Char)) (c : Bool) :
    codeLines (l :: rest) c = if c then codeLines rest c
      else (tokens :: (codeLines rest c).1, (codeLines rest c).2) := by
  simp [codeLines, h]

/-- The lines in the middle of a block comment. -/
theorem codeLines_middle {middle : List (List Char)} (h : ∀ m ∈ middle, ¬ ['*', '/'] <:+: m)
    (rest : List (List Char)) :
    codeLines (middle ++ rest) true =
      if middle.any (fun m => lineKind m = .inlineComment) then ([], true)
      else codeLines rest true := by
  induction middle with
  | nil => rfl
  | cons m middle ih =>
    have ih := ih fun m' hm' => h m' (List.mem_cons_of_mem m hm')
    rw [List.cons_append, List.any_cons]
    cases hk : lineKind m with
    | blank => rw [codeLines_cons_blank hk, ih]; rfl
    | comment => rw [codeLines_cons_comment hk, ih]; rfl
    | commentBegin => rw [codeLines_cons_begin hk, ih]; rfl
    | commentEnd => exact absurd hk (lineKind_middle (h m List.mem_cons_self))
    | inlineComment => rw [codeLines_cons_inline hk]; rfl
    | code tokens => rw [codeLines_cons_code hk, if_pos rfl, ih]; rfl

theorem codeLines_insertion {i : Insertion} (wf : i.WellFormed) (rest : List (List Char))
    (c : Bool) :
    codeLines (i.lines ++ rest) c =
      if i.stops then ([], true) else codeLines rest (i.after c) := by
  cases i with
  | blank n =>
    have hk : lineKind (spaces n) = .blank := by
      rw [← List.append_nil (spaces n), lineKind_spaces, lineKind_nil]
    exact codeLines_cons_blank hk rest c
  | line n text =>
    have hk : lineKind (spaces n ++ ['/', '/'] ++ text) = .comment := by
      rw [List.append_assoc, lineKind_spaces, lineKind_line]
    exact codeLines_cons_comment hk rest c
  | oneLine n body =>
    have hk : lineKind (spaces n ++ ['/', '*'] ++ body ++ ['*', '/']) = .commentBegin := by
      rw [List.append_assoc, List.append_assoc, lineKind_spaces, lineKind_begin]
    exact codeLines_cons_begin hk rest c
  | block n first middle last =>
    have hk : lineKind (spaces n ++ ['/', '*'] ++ first) = .commentBegin := by
      rw [List.append_assoc, lineKind_spaces, lineKind_begin]
    have hm : ∀ m ∈ middle, ¬ ['*', '/'] <:+: m := fun m hm =>
      wf.body m (List.mem_append_left _ (List.mem_cons_of_mem _ hm))
    show codeLines (_ :: (middle ++ [last ++ ['*', '/']]) ++ rest) c = _
    rw [List.cons_append, codeLines_cons_begin hk, List.append_assoc, codeLines_middle hm]
    have hafter : (Insertion.block n first middle last).after c =
      decide (lineKind (last ++ ['*', '/']) ≠ .commentEnd) := rfl
    rw [hafter]
    congr 1
    rcases lineKind_end last with hl | hl | hl
    · rw [List.singleton_append, codeLines_cons_comment hl, hl]
      rfl
    · rw [List.singleton_append, codeLines_cons_begin hl, hl]
      rfl
    · rw [List.singleton_append, codeLines_cons_end hl, hl]
      rfl

/-- The lines of several insertions. -/
def insertedLines (g : List Insertion) : List (List Char) := g.flatMap (·.lines)

theorem codeLines_insertedLines {g : List Insertion} (wf : ∀ i ∈ g, i.WellFormed)
    (rest : List (List Char)) (c : Bool) :
    codeLines (insertedLines g ++ rest) c =
      if g.any (·.stops) then ([], true)
      else codeLines rest (g.foldl (fun c i => i.after c) c) := by
  induction g generalizing c with
  | nil => rfl
  | cons i g ih =>
    have ih := ih (fun j hj => wf j (List.mem_cons_of_mem i hj)) (i.after c)
    unfold insertedLines at ih ⊢
    rw [List.flatMap_cons, List.append_assoc, codeLines_insertion (wf i List.mem_cons_self), ih,
      List.any_cons, List.foldl_cons]
    cases i.stops <;> simp

/-! ## Inserting -/

/-- The source with `gaps` before its lines and `last` at the end. -/
def weave : List (List Insertion) → List (List Char) → List Insertion → List (List Char)
  | g :: gaps, l :: src, last => insertedLines g ++ l :: weave gaps src last
  | _, _, last => insertedLines last

/-- A line that is no comment. -/
def IsSource (l : List Char) : Prop :=
  '\n' ∉ l ∧ lineKind l ≠ .comment ∧ lineKind l ≠ .commentBegin ∧ lineKind l ≠ .commentEnd

/-- No insertion stops the parser, and before each source line every comment is closed. -/
structure Transparent (gaps : List (List Insertion)) (last : List Insertion) : Prop where
  passes : ∀ g ∈ gaps ++ [last], g.any (·.stops) = false
  closed : ∀ g ∈ gaps, g.foldl (fun c i => i.after c) false = false

/-- Only the lines count. -/
theorem parseFile_textOf_congr {std : StdSort .default} {ls ls' : List (List Char)}
    (h : ∀ l ∈ ls, '\n' ∉ l) (h' : ∀ l ∈ ls', '\n' ∉ l)
    (heq : codeLines ls false = codeLines ls' false) :
    parseFile std (textOf ls) = parseFile std (textOf ls') := by
  rw [parseFile_eq, parseFile_eq]
  unfold code
  rw [getlines_textOf h, getlines_textOf h', heq]

theorem weave_lines {gaps : List (List Insertion)} {src : List (List Char)}
    {last : List Insertion} (hwf : ∀ g ∈ gaps ++ [last], ∀ i ∈ g, i.WellFormed)
    (hsrc : ∀ l ∈ src, '\n' ∉ l) : ∀ l ∈ weave gaps src last, '\n' ∉ l := by
  have hins : ∀ g ∈ gaps ++ [last], ∀ l ∈ insertedLines g, '\n' ∉ l := by
    intro g hg l hl
    obtain ⟨i, hi, hli⟩ := List.mem_flatMap.mp hl
    exact (hwf g hg i hi).line l hli
  induction gaps generalizing src with
  | nil => exact hins last List.mem_cons_self
  | cons g gaps ih =>
    cases src with
    | nil => exact hins last (by simp)
    | cons l src =>
      intro l' hl'
      unfold weave at hl'
      rcases List.mem_append.mp hl' with hl' | hl'
      · exact hins g List.mem_cons_self l' hl'
      rcases List.mem_cons.mp hl' with rfl | hl'
      · exact hsrc l' List.mem_cons_self
      · exact ih (fun g' hg' => hwf g' (List.mem_cons_of_mem g hg'))
          (fun k hk => hsrc k (List.mem_cons_of_mem l hk))
          (fun g' hg' => hins g' (List.mem_cons_of_mem g hg')) l' hl'

section Weave

variable {gaps : List (List Insertion)} {last : List Insertion}

/-- Transparent insertions leave the code lines alone. -/
theorem codeLines_weave (hwf : ∀ g ∈ gaps ++ [last], ∀ i ∈ g, i.WellFormed)
    (ht : Transparent gaps last) {src : List (List Char)} (hlen : src.length = gaps.length)
    (hsrc : ∀ l ∈ src, IsSource l) :
    codeLines (weave gaps src last) false = codeLines src false := by
  induction gaps generalizing src with
  | nil =>
    obtain rfl := List.length_eq_zero_iff.mp hlen
    have h := codeLines_insertedLines (hwf last List.mem_cons_self) [] false
    rw [List.append_nil, ht.passes last List.mem_cons_self] at h
    exact h
  | cons g gaps ih =>
    cases src with
    | nil => cases hlen
    | cons l src =>
      have ih := ih (fun g' hg' => hwf g' (List.mem_cons_of_mem g hg'))
        ⟨fun g' hg' => ht.passes g' (List.mem_cons_of_mem g hg'),
          fun g' hg' => ht.closed g' (List.mem_cons_of_mem g hg')⟩
        (Nat.succ.inj hlen) (fun k hk => hsrc k (List.mem_cons_of_mem l hk))
      obtain ⟨-, hcomment, hbegin, hend⟩ := hsrc l List.mem_cons_self
      unfold weave
      rw [codeLines_insertedLines (hwf g List.mem_cons_self), ht.passes g List.mem_cons_self,
        if_neg Bool.false_ne_true, ht.closed g List.mem_cons_self]
      cases hk : lineKind l with
      | blank => rw [codeLines_cons_blank hk, codeLines_cons_blank hk, ih]
      | comment => exact absurd hk hcomment
      | commentBegin => exact absurd hk hbegin
      | commentEnd => exact absurd hk hend
      | inlineComment => rw [codeLines_cons_inline hk, codeLines_cons_inline hk]
      | code tokens => rw [codeLines_cons_code hk, codeLines_cons_code hk, ih]

theorem codeLines_blanks (n : Nat) : codeLines (List.replicate n []) false = ([], false) := by
  induction n with
  | zero => rfl
  | succ n ih => rw [List.replicate_succ, codeLines_cons_blank lineKind_nil, ih]

/-- Between blank lines insertions add no code; the file ends early exactly when one stops. -/
theorem codeLines_weave_blank (hwf : ∀ g ∈ gaps ++ [last], ∀ i ∈ g, i.WellFormed) (c : Bool) :
    codeLines (weave gaps (List.replicate gaps.length []) last) c =
      ([], (gaps ++ [last]).any fun g => g.any (·.stops)) := by
  induction gaps generalizing c with
  | nil =>
    have h := codeLines_insertedLines (hwf last List.mem_cons_self) [] c
    rw [List.append_nil] at h
    show codeLines (insertedLines last) c = _
    rw [h]
    cases hs : last.any (·.stops) <;> simp [hs, codeLines]
  | cons g gaps ih =>
    have ih := ih (fun g' hg' => hwf g' (List.mem_cons_of_mem g hg'))
    show codeLines (insertedLines g ++ [] :: weave gaps (List.replicate gaps.length []) last) c = _
    rw [codeLines_insertedLines (hwf g List.mem_cons_self), codeLines_cons_blank lineKind_nil, ih]
    cases hs : g.any (·.stops) <;> simp [hs]

/-- A source on which an insertion that leaves a comment open shows: `struct a` right after
    it, blank lines elsewhere. -/
theorem exists_swallowed (hwf : ∀ g ∈ gaps ++ [last], ∀ i ∈ g, i.WellFormed)
    (hpass : ∀ g ∈ gaps ++ [last], g.any (·.stops) = false) {g : List Insertion} (hg : g ∈ gaps)
    (hopen : g.foldl (fun c i => i.after c) false = true) :
    ∃ src, src.length = gaps.length ∧ (∀ l ∈ src, IsSource l) ∧
      codeLines src false = ([["struct", "a"]], false) ∧
      codeLines (weave gaps src last) false = ([], false) := by
  have hblank : IsSource [] := ⟨by simp, by decide, by decide, by decide⟩
  have hkind : lineKind "struct a".toList = .code ["struct", "a"] := by decide
  have hstruct : IsSource "struct a".toList :=
    ⟨by decide, by rw [hkind]; simp, by rw [hkind]; simp, by rw [hkind]; simp⟩
  induction gaps with
  | nil => cases hg
  | cons g' gaps ih =>
    have hwf' : ∀ g ∈ gaps ++ [last], ∀ i ∈ g, i.WellFormed := fun g hg =>
      hwf g (List.mem_cons_of_mem g' hg)
    have hpass' : ∀ g ∈ gaps ++ [last], g.any (·.stops) = false := fun g hg =>
      hpass g (List.mem_cons_of_mem g' hg)
    have hw : ∀ l src, codeLines (weave (g' :: gaps) (l :: src) last) false =
        codeLines (l :: weave gaps src last) (g'.foldl (fun c i => i.after c) false) := by
      intro l src
      show codeLines (insertedLines g' ++ l :: weave gaps src last) false = _
      rw [codeLines_insertedLines (hwf g' List.mem_cons_self), hpass g' List.mem_cons_self,
        if_neg Bool.false_ne_true]
    cases hflag : g'.foldl (fun c i => i.after c) false with
    | true =>
      refine ⟨"struct a".toList :: List.replicate gaps.length [], by simp, ?_, ?_, ?_⟩
      · intro l hl
        rcases List.mem_cons.mp hl with rfl | hl
        · exact hstruct
        · exact List.eq_of_mem_replicate hl ▸ hblank
      · rw [codeLines_cons_code hkind, if_neg Bool.false_ne_true, codeLines_blanks]
      · have hany : ((gaps ++ [last]).any fun g => g.any (·.stops)) = false :=
          List.any_eq_false.mpr fun g hg => by simp [hpass' g hg]
        rw [hw, hflag, codeLines_cons_code hkind, if_pos rfl, codeLines_weave_blank hwf', hany]
    | false =>
      have hmem : g ∈ gaps := by
        rcases List.mem_cons.mp hg with rfl | hg
        · rw [hflag] at hopen
          cases hopen
        · exact hg
      obtain ⟨src, hlen, hsrc, hcode, hweave⟩ := ih hwf' hpass' hmem
      refine ⟨[] :: src, congrArg Nat.succ hlen, ?_, ?_, ?_⟩
      · intro l hl
        rcases List.mem_cons.mp hl with rfl | hl
        · exact hblank
        · exact hsrc l hl
      · rw [codeLines_cons_blank lineKind_nil, hcode]
      · rw [hw, hflag, codeLines_cons_blank lineKind_nil, hweave]

/-! ## Main results -/

/-- For every way of inserting comments and blank lines: every source, of as many lines as the
    insertions are made for, gives the same verdict and module with them as without exactly
    when they are transparent. -/
theorem transparent_iff (std : StdSort .default)
    (hwf : ∀ g ∈ gaps ++ [last], ∀ i ∈ g, i.WellFormed) :
    (∀ src : List (List Char), src.length = gaps.length → (∀ l ∈ src, IsSource l) →
      parseFile std (textOf (weave gaps src last)) = parseFile std (textOf src)) ↔
    Transparent gaps last := by
  constructor
  · intro h
    have hpass : ∀ g ∈ gaps ++ [last], g.any (·.stops) = false := by
      -- blank lines are accepted, with an insertion that stops the parser they are not
      by_contra hstop
      have hblank : ∀ l ∈ List.replicate gaps.length ([] : List Char), IsSource l := by
        intro l hl
        rw [List.eq_of_mem_replicate hl]
        exact ⟨by simp, by decide, by decide, by decide⟩
      have heq := h _ List.length_replicate hblank
      have hany : ((gaps ++ [last]).any fun g => g.any (·.stops)) = true := by
        simpa using hstop
      rw [parseFile_eq, parseFile_eq] at heq
      unfold code at heq
      rw [getlines_textOf (weave_lines hwf fun l hl => (hblank l hl).1),
        getlines_textOf fun l hl => (hblank l hl).1, codeLines_weave_blank hwf, hany,
        codeLines_blanks] at heq
      have hverdict : (Except.ok false : Except Misuse Bool) = Except.ok true :=
        congrArg (fun r => r.map Prod.fst) heq
      cases hverdict
    refine ⟨hpass, fun g hg => ?_⟩
    by_contra hopen
    obtain ⟨src, hlen, hsrc, hcode, hweave⟩ :=
      exists_swallowed hwf hpass hg (by simpa using hopen)
    have heq := h src hlen hsrc
    rw [parseFile_eq, parseFile_eq] at heq
    unfold code at heq
    rw [getlines_textOf (weave_lines hwf fun l hl => (hsrc l hl).1),
      getlines_textOf fun l hl => (hsrc l hl).1, hcode, hweave] at heq
    have hcount : (Except.ok 0 : Except Misuse Nat) = Except.ok 1 :=
      congrArg (fun r => r.map fun v => v.2.structs.length) heq
    cases hcount
  · intro ht src hlen hsrc
    exact parseFile_textOf_congr (weave_lines hwf fun l hl => (hsrc l hl).1)
      (fun l hl => (hsrc l hl).1) (codeLines_weave hwf ht hlen hsrc)

end Weave

/-- A block comment over three lines. -/
def closedComment : Insertion := .block 1 " a".toList ["  * b".toList] "  ".toList

theorem closedComment_wellFormed : closedComment.WellFormed := ⟨by decide, by decide⟩

theorem transparent_iff_closed :
    (∀ src : List (List Char), src.length = 1 → (∀ l ∈ src, IsSource l) →
      parseFile (.stable .default) (textOf (weave [[closedComment]] src [])) =
        parseFile (.stable .default) (textOf src)) ↔
    Transparent [[closedComment]] [] :=
  @transparent_iff [[closedComment]] [] (.stable .default) (by
    intro g hg i hi
    rcases List.mem_pair.mp hg with rfl | rfl
    · exact List.mem_singleton.mp hi ▸ closedComment_wellFormed
    · cases hi)

/-- `/* c */` swallows the struct after it; a comment line `see a//b` is an error. -/
theorem comments_not_transparent :
    parseFile (.stable .default) (textOf ["/* c */".toList, "struct a \x7b".toList]) =
      .ok (true, Module.new) ∧
    (parseFile (.stable .default) (textOf ["struct a \x7b".toList])).map
      (fun r => r.2.structs.map (·.name)) = .ok ["a"] ∧
    parseFile (.stable .default) (textOf ["/*".toList, "see a//b".toList, "*/".toList]) =
      .ok (false, Module.new) := by
  refine ⟨by rfl, by rfl, by rfl⟩

end Parser

end Tyr
