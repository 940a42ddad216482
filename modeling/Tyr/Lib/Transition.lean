import Mathlib.Tactic

/-
  Runs of a labelled transition system.

  `Run step s es t`: the events `es` lead from `s` to `t`.
  * `Run.invariant`: what every step preserves holds after every run; `Run.history` lets
    the invariant speak of the events so far.
  * `Run.exists_step`: every event of a run is a step between two states the run reaches.
  * `Run.simulates`: a step-by-step simulation gives the other system a run with the same
    events.
-/

namespace Tyr

variable {σ τ ε : Type*}

inductive Run (step : σ → ε → σ → Prop) : σ → List ε → σ → Prop where
  | nil (s : σ) : Run step s [] s
  | cons {s t u : σ} {e : ε} {es : List ε} (he : step s e t) (hes : Run step t es u) :
      Run step s (e :: es) u

namespace Run

variable {step : σ → ε → σ → Prop} {s t u : σ} {es fs : List ε} {e : ε}

theorem append (h : Run step s es t) (h' : Run step t fs u) : Run step s (es ++ fs) u := by
  induction h with
  | nil s => exact h'
  | cons he hes ih => exact .cons he (ih h')

theorem of_append (h : Run step s (es ++ fs) u) : ∃ t, Run step s es t ∧ Run step t fs u := by
  induction es generalizing s with
  | nil => exact ⟨s, .nil s, h⟩
  | cons e es ih =>
    cases h with
    | cons he hes =>
      obtain ⟨t, h1, h2⟩ := ih hes
      exact ⟨t, .cons he h1, h2⟩

/-- Every event is a step between two states of the run. -/
theorem exists_step (h : Run step s (es ++ e :: fs) u) :
    ∃ t t', Run step s es t ∧ step t e t' ∧ Run step t' fs u := by
  obtain ⟨t, h1, h2⟩ := of_append h
  cases h2 with
  | cons he hes => exact ⟨t, _, h1, he, hes⟩

theorem invariant {P : σ → Prop} (hstep : ∀ s e t, P s → step s e t → P t)
    (h : Run step s es t) (hs : P s) : P t := by
  induction h with
  | nil s => exact hs
  | cons he hes ih => exact ih (hstep _ _ _ hs he)

/-- An invariant that speaks of the events so far. -/
theorem history {P : List ε → σ → Prop} (h : Run step s es t) (nil : P [] s)
    (snoc : ∀ es t e u, Run step s es t → P es t → step t e u → P (es ++ [e]) u) : P es t := by
  have key : ∀ fs t', Run step s fs t' → ∀ es u, Run step t' es u → P fs t' → P (fs ++ es) u := by
    intro fs t' hfs es u hes
    induction hes generalizing fs with
    | nil t' =>
      intro hp
      rwa [List.append_nil]
    | @cons t' v u e es he hes ih =>
      intro hp
      have h1 : Run step t' [e] v := .cons he (.nil v)
      have hp' := ih (fs ++ [e]) (hfs.append h1) (snoc fs t' e v hfs hp he)
      rwa [List.append_assoc] at hp'
  exact key [] s (.nil s) es t h nil

/-- A run of steps that another system has too. -/
theorem mono {step' : σ → ε → σ → Prop} (hstep : ∀ s e t, step s e t → step' s e t)
    (h : Run step s es t) : Run step' s es t := by
  induction h with
  | nil s => exact .nil s
  | cons he hes ih => exact .cons (hstep _ _ _ he) ih

theorem simulates {step' : τ → ε → τ → Prop} {R : σ → τ → Prop}
    (hsim : ∀ s a e s', R s a → step s e s' → ∃ a', step' a e a' ∧ R s' a')
    (h : Run step s es t) : ∀ {a : τ}, R s a → ∃ b, Run step' a es b ∧ R t b := by
  induction h with
  | nil s => exact fun {a} ha => ⟨a, .nil a, ha⟩
  | cons he hes ih =>
    intro a ha
    obtain ⟨a', h1, h2⟩ := hsim _ _ _ _ ha he
    obtain ⟨b, h3, h4⟩ := ih h2
    exact ⟨b, .cons h1 h3, h4⟩

end Run

end Tyr
