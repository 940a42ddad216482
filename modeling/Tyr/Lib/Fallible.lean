import Mathlib.Tactic

/-
  Runs in `Except`.

  `bind_eq_ok_iff` takes a run that got through apart. A loop over a list is a `foldlM`, and
  `foldlM_total` shows with an invariant of the number of steps that it gets through.
-/

namespace Tyr

namespace Fallible

universe u v

variable {ε : Type u} {α β : Type v}

@[simp] theorem ok_bind (a : α) (k : α → Except ε β) : (Except.ok a >>= k) = k a := rfl

@[simp] theorem error_bind (e : ε) (k : α → Except ε β) :
    (Except.error e >>= k) = .error e := rfl

theorem bind_eq_ok_iff {x : Except ε α} {k : α → Except ε β} {b : β} :
    x >>= k = .ok b ↔ ∃ a, x = .ok a ∧ k a = .ok b := by
  cases x <;> simp

/-- Two continuations that agree on the result. -/
theorem bind_congr_ok {x : Except ε α} {k k' : α → Except ε β}
    (h : ∀ a, x = .ok a → k a = k' a) : x >>= k = x >>= k' := by
  cases x with
  | error e => rfl
  | ok a => exact h a rfl

section Loop

variable {f : β → α → Except ε β} {P : Nat → β → Prop} {n N : Nat} {a b : β}

theorem foldlM_total (xs : List α)
    (step : ∀ n a x, n < N → P n a → ∃ b, f a x = .ok b ∧ P (n + 1) b)
    (hN : n + xs.length = N) (hstart : P n a) : ∃ b, xs.foldlM f a = .ok b ∧ P N b := by
  induction xs generalizing n a with
  | nil =>
    obtain rfl : n = N := hN
    exact ⟨a, rfl, hstart⟩
  | cons x xs ih =>
    rw [List.length_cons] at hN
    obtain ⟨next, hx, hnext⟩ := step n a x (by omega) hstart
    obtain ⟨b, hrun, hend⟩ := ih (by omega) hnext
    refine ⟨b, ?_, hend⟩
    rw [List.foldlM_cons, hx, ok_bind]
    exact hrun

end Loop

end Fallible

end Tyr
