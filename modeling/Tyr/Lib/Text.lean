import Mathlib.Data.List.Infix
import Mathlib.Tactic

/-
  Words joined by a separator and lines ended by one.

  * `not_infix_intercalate`: a pattern without the separator that is in no word is not in the
    joined words.
  * `splitOn_terminated`: lines that do not contain their terminator are found again.
  * `append_sep_eq_iff`: the ways of reading one text as two parts with the separator between
    them.
-/

namespace Tyr

variable {α : Type*}

/-- A pattern that lies across a separator contains it. -/
theorem infix_append_sep {w xs ys : List α} {c : α} (hc : c ∉ w) (h : w <:+: xs ++ c :: ys) :
    w <:+: xs ∨ w <:+: ys := by
  rw [List.append_cons, List.append_assoc, List.infix_append_iff] at h
  rcases h with h | h | ⟨l₁, l₂, rfl, h₁, h₂⟩
  · exact Or.inl h
  · rw [List.singleton_append, List.infix_cons_iff] at h
    rcases h with h | h
    · cases w with
      | nil => exact Or.inr (List.nil_infix)
      | cons a w =>
        obtain rfl := (List.cons_prefix_cons.mp h).1
        exact absurd List.mem_cons_self hc
    · exact Or.inr h
  · left
    cases l₂ with
    | nil => exact (List.append_nil l₁).symm ▸ h₁.isInfix
    | cons a l₂ =>
      obtain rfl := (List.cons_prefix_cons.mp h₂).1
      exact absurd (List.mem_append_right l₁ List.mem_cons_self) hc

theorem not_infix_intercalate {w : List α} {c : α} (hw : w ≠ []) (hc : c ∉ w)
    {ws : List (List α)} (h : ∀ x ∈ ws, ¬ w <:+: x) : ¬ w <:+: [c].intercalate ws := by
  induction ws with
  | nil => simpa using hw
  | cons x ws ih =>
    have ih := ih fun y hy => h y (List.mem_cons_of_mem x hy)
    cases ws with
    | nil => simpa using h x List.mem_cons_self
    | cons y ws =>
      intro hin
      rw [List.intercalate_cons_cons, List.append_assoc] at hin
      rcases infix_append_sep hc hin with hin | hin
      · exact h x List.mem_cons_self hin
      · exact ih hin

theorem splitOn_terminated [BEq α] [LawfulBEq α] {c : α} {ls : List (List α)}
    (h : ∀ l ∈ ls, c ∉ l) : (ls.flatMap (· ++ [c])).splitOn c = ls ++ [[]] := by
  induction ls with
  | nil => rfl
  | cons l ls ih =>
    rw [List.flatMap_cons, List.append_assoc, List.singleton_append,
      List.splitOn_append_cons_self_of_not_mem (h l List.mem_cons_self),
      ih fun l' hl' => h l' (List.mem_cons_of_mem l hl')]
    rfl

/-- Two readings of one text agree, or one splits inside a part of the other. -/
theorem append_sep_eq_iff {a b x y : List α} {c : α} :
    a ++ c :: b = x ++ c :: y ↔
      a = x ∧ b = y ∨ (∃ m, x = a ++ c :: m ∧ b = m ++ c :: y) ∨
        ∃ m, a = x ++ c :: m ∧ y = m ++ c :: b := by
  rw [List.append_eq_append_iff]
  constructor
  · rintro (⟨m, rfl, hm⟩ | ⟨m, rfl, hm⟩)
    · cases m with
      | nil => exact Or.inl ⟨(List.append_nil a).symm, (List.cons.inj hm).2⟩
      | cons d m =>
        obtain ⟨rfl, rfl⟩ := List.cons.inj hm
        exact Or.inr (Or.inl ⟨m, rfl, rfl⟩)
    · cases m with
      | nil => exact Or.inl ⟨List.append_nil x, (List.cons.inj hm).2.symm⟩
      | cons d m =>
        obtain ⟨rfl, rfl⟩ := List.cons.inj hm
        exact Or.inr (Or.inr ⟨m, rfl, rfl⟩)
  · rintro (⟨rfl, rfl⟩ | ⟨m, rfl, rfl⟩ | ⟨m, rfl, rfl⟩)
    · exact Or.inl ⟨[], (List.append_nil a).symm, rfl⟩
    · exact Or.inl ⟨c :: m, rfl, rfl⟩
    · exact Or.inr ⟨c :: m, rfl, rfl⟩

end Tyr
