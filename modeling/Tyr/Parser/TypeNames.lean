import Tyr.Parser.Source

/-
  The type names `parseType` understands, against those it is meant to.

  `documentedType` is what a name means: a builtin type, where an integer type is `int` or
  `uint` with its width in decimal, or a struct whose type is there. `parseType` takes every
  name that begins like an integer type for one, looks for the width after the last `t`,
  narrows it to 32 bits, and does not ask whether a struct has a type. `Unambiguous` are the
  names on which none of this shows: `parsesAsDocumented_iff`.
-/

namespace Tyr

/-! ## What a name means -/

/-- What follows `int` or `uint`, in small letters or capitals. -/
def afterInt (s : List Char) : List Char :=
  if startswithLower s ['i', 'n', 't'] then s.drop 3
  else if startswithLower s ['u', 'i', 'n', 't'] then s.drop 4
  else []

/-- The width of an integer type: nothing but digits, and a width LLVM has. -/
def documentedWidth (s : List Char) : Option Nat :=
  if afterInt s ≠ [] ∧ (afterInt s).all Char.isDigit ∧
      1 ≤ Nat.ofDigitChars 10 (afterInt s) 0 ∧ Nat.ofDigitChars 10 (afterInt s) 0 < 2 ^ 24 then
    some (Nat.ofDigitChars 10 (afterInt s) 0)
  else none

namespace Module

variable (M : Module)

/-- The type of a finalized struct. -/
def structType (name : String) : Option Ty := (M.find name).bind Struct.type

def documentedType (FieldType : String) : Option Ty :=
  if FieldType = "bool" then some (.int 1)
  else if FieldType = "float" then some .float
  else if FieldType = "double" then some .double
  else match documentedWidth FieldType.toList with
    | some n => some (.int n)
    | none => (M.structType FieldType).map .ptr

/-- `parseType` returns the type that is meant, or null if there is none. -/
def ParsesAsDocumented (FieldType : String) (IsRepeated : Bool) : Prop :=
  M.parseType FieldType IsRepeated =
    .ok ((M.documentedType FieldType).map fun t => if IsRepeated then .ptr t else t)

/-- An integer type, or a name that begins like one but has no number after its last `t` and
    is not that of a finalized struct; any other name but that of a struct without a type. -/
def Unambiguous (FieldType : String) : Prop :=
  if isIntegerName FieldType then
    (documentedWidth FieldType.toList).isSome ∨
      getAsUnsignedInteger (afterLastT FieldType.toList) = none ∧ M.structType FieldType = none
  else FieldType = "bool" ∨ FieldType = "float" ∨ FieldType = "double" ∨
    ∀ S, M.find FieldType = some S → S.type.isSome

end Module

/-! ## Integer types -/

section Integer

variable {s ds : List Char} {n : Nat}

/-- A name that starts with the word is the word, up to case, and the rest. -/
theorem startswithLower_split {w : List Char} (h : startswithLower s w = true) :
    (s.take w.length).map Char.toLower = w := by
  unfold startswithLower at h
  obtain ⟨rest, hrest⟩ := List.isPrefixOf_iff_prefix.mp h
  rw [List.map_take, ← hrest, List.take_left]

/-- The last letter of `int` or `uint` stands before the digits. -/
theorem exists_t_before_afterInt (hne : afterInt s ≠ []) :
    ∃ pre c, c.toLower = 't' ∧ s = pre ++ c :: afterInt s := by
  have hsplit : ∀ (w : List Char) (u : List Char), w = u ++ ['t'] →
      startswithLower s w = true →
      ∃ pre c, c.toLower = 't' ∧ s = pre ++ c :: s.drop w.length := by
    intro w u hw hstart
    have htake := startswithLower_split hstart
    have hmap : (s.take w.length).map Char.toLower = u ++ ['t'] := by rw [htake, hw]
    obtain ⟨pre, last, htl, -, hlast⟩ := List.map_eq_append_iff.mp hmap
    obtain ⟨c, rest, rfl, hc, hnil⟩ := List.map_eq_cons_iff.mp hlast
    obtain rfl := List.map_eq_nil_iff.mp hnil
    refine ⟨pre, c, hc, ?_⟩
    calc s = s.take w.length ++ s.drop w.length := (List.take_append_drop _ s).symm
      _ = pre ++ c :: s.drop w.length := by rw [htl, List.append_assoc, List.singleton_append]
  unfold afterInt at hne ⊢
  split
  · next h => exact hsplit _ ['i', 'n'] rfl h
  · next h =>
    rw [if_neg h] at hne
    split
    · next h' => exact hsplit _ ['u', 'i', 'n'] rfl h'
    · next h' =>
      rw [if_neg h'] at hne
      exact absurd rfl hne

/-- On an integer type `parseType` finds the width that is written there. -/
theorem getAsUnsignedInteger_of_width (h : documentedWidth s = some n) :
    getAsUnsignedInteger (afterLastT s) = some n ∧ 1 ≤ n ∧ n < 2 ^ 24 := by
  unfold documentedWidth at h
  split at h
  · next hd =>
    obtain ⟨hne, hall, hpos, hlt⟩ := hd
    have hdigits : ∀ d ∈ afterInt s, d.isDigit = true := List.all_eq_true.mp hall
    obtain ⟨pre, c, hc, hs⟩ := exists_t_before_afterInt hne
    obtain rfl := Option.some.inj h
    have hafter : afterLastT s = afterInt s := by
      conv_lhs => rw [hs]
      exact Parser.afterLastT_of_digits hc hdigits
    refine ⟨?_, hpos, hlt⟩
    unfold getAsUnsignedInteger
    rw [hafter, if_neg hne, Parser.consumeDigits_eq hdigits 0 (by omega)]
  · cases h

theorem documentedWidth_none {name : String} (h : isIntegerName name = false) :
    documentedWidth name.toList = none := by
  unfold isIntegerName at h
  obtain ⟨hint, huint⟩ := Bool.or_eq_false_iff.mp h
  have hnil : afterInt name.toList = [] := by
    unfold afterInt
    rw [if_neg (by rw [hint]; decide), if_neg (by rw [huint]; decide)]
  unfold documentedWidth
  rw [if_neg (fun hd => hd.1 hnil)]

end Integer

/-! ## Main result -/

namespace Module

variable {M : Module} {FieldType : String}

theorem documentedType_of_integer (h : isIntegerName FieldType = true) :
    M.documentedType FieldType = match documentedWidth FieldType.toList with
      | some n => some (.int n)
      | none => (M.structType FieldType).map .ptr := by
  unfold documentedType
  rw [if_neg, if_neg, if_neg]
  all_goals
    rintro rfl
    exact absurd h (by decide)

/-- `parseType` on a name that begins like an integer type. -/
theorem parseElementType_of_integer (h : isIntegerName FieldType = true) :
    M.parseElementType FieldType =
      match getAsUnsignedInteger (afterLastT FieldType.toList) with
      | none => .ok none
      | some intBits => (getIntNTy intBits).map some := by
  have hbool : FieldType ≠ "bool" := by
    rintro rfl
    exact absurd h (by decide)
  unfold parseElementType
  refine (if_neg hbool).trans ((if_pos h).trans ?_)
  cases getAsUnsignedInteger (afterLastT FieldType.toList) <;> rfl

theorem parseElementType_integer_iff (h : isIntegerName FieldType = true) :
    M.parseElementType FieldType = .ok (M.documentedType FieldType) ↔
      ((documentedWidth FieldType.toList).isSome ∨
        getAsUnsignedInteger (afterLastT FieldType.toList) = none ∧
          M.structType FieldType = none) := by
  rw [parseElementType_of_integer h, documentedType_of_integer h]
  cases hw : documentedWidth FieldType.toList with
  | some n =>
    obtain ⟨hget, hpos, hlt⟩ := getAsUnsignedInteger_of_width hw
    have hmod : n % 2 ^ 32 = n := Nat.mod_eq_of_lt (by omega)
    have hty : getIntNTy n = .ok (.int n) := by
      rw [getIntNTy_eq_ok (by omega), hmod]
    simp only [hget, hty, Except.map, Option.isSome_some, true_or]
  | none =>
    cases hget : getAsUnsignedInteger (afterLastT FieldType.toList) with
    | none =>
      cases hst : M.structType FieldType with
      | none => simp
      | some T => simp
    | some w =>
      -- the code answers with an integer type or not at all
      have hne : (getIntNTy w).map some ≠
          (.ok ((M.structType FieldType).map .ptr) : Except Misuse (Option Ty)) := by
        by_cases hr : 1 ≤ w % 2 ^ 32 ∧ w % 2 ^ 32 < 2 ^ 24
        · rw [getIntNTy_eq_ok hr]
          cases M.structType FieldType <;> simp [Except.map]
        · simp [getIntNTy_eq_error hr, Except.map]
      simp [hne]

theorem parseElementType_other_iff (h : isIntegerName FieldType = false) :
    M.parseElementType FieldType = .ok (M.documentedType FieldType) ↔
      (FieldType = "bool" ∨ FieldType = "float" ∨ FieldType = "double" ∨
        ∀ S, M.find FieldType = some S → S.type.isSome) := by
  unfold parseElementType documentedType structType
  rw [documentedWidth_none h]
  by_cases hb : FieldType = "bool"
  · simp [hb]
  by_cases hf : FieldType = "float"
  · subst hf
    simp [h]
  by_cases hd : FieldType = "double"
  · subst hd
    simp [h]
  simp only [hb, hf, hd, h, if_false, false_or, Bool.false_eq_true]
  cases hS : M.find FieldType with
  | none => simp
  | some S => cases hT : S.type <;> simp [hT]

theorem parseType_eq_iff (IsRepeated : Bool) (T : Option Ty) :
    M.parseType FieldType IsRepeated = .ok (T.map fun t => if IsRepeated then .ptr t else t) ↔
      M.parseElementType FieldType = .ok T := by
  have hinj : Function.Injective fun t : Ty => if IsRepeated then Ty.ptr t else t := by
    intro t t' ht
    cases IsRepeated with
    | true => exact Ty.ptr.inj ht
    | false => exact ht
  unfold parseType
  cases M.parseElementType FieldType with
  | error e => simp [bind, Except.bind]
  | ok T' =>
    simp only [bind, Except.bind, pure, Except.pure, Except.ok.injEq]
    exact (Option.map_injective hinj).eq_iff

end Module

/-- `parseType` gives every name its meaning, and every name without one null, exactly for the
    unambiguous names. -/
theorem parsesAsDocumented_iff (M : Module) (FieldType : String) (IsRepeated : Bool) :
    M.ParsesAsDocumented FieldType IsRepeated ↔ M.Unambiguous FieldType := by
  unfold Module.ParsesAsDocumented Module.Unambiguous
  rw [Module.parseType_eq_iff]
  split
  · next h => exact Module.parseElementType_integer_iff h
  · next h => exact Module.parseElementType_other_iff (by simpa using h)

/-- `struct internal` with one field, closed. -/
def internalModule : Module where
  structs := [{ Struct.new "internal" with type := some (.struct 0 "internal") }]
  context := ⟨["internal"], 0, 1⟩

/-- Letters in front of the width, a width above `2 ^ 32`, a width of 0, a struct that is called
    like an integer type, and one that is still open. -/
theorem misread_types :
    Module.new.parseType "int_t8" false = .ok (some (.int 8)) ∧
    ¬ Module.new.ParsesAsDocumented "int_t8" false ∧
    Module.new.parseType "int4294967304" false = .ok (some (.int 8)) ∧
    ¬ Module.new.ParsesAsDocumented "int4294967304" false ∧
    ¬ Module.new.ParsesAsDocumented "int0" false ∧
    ¬ internalModule.ParsesAsDocumented "internal" false ∧
    ¬ (Module.new.getOrCreateStruct "a").ParsesAsDocumented "a" false := by
  refine ⟨by decide, ?_, by decide, ?_, ?_, ?_, ?_⟩
  all_goals
    unfold Module.ParsesAsDocumented
    decide

end Tyr
