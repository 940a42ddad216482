import Mathlib.Tactic

/-
  A table that keeps the first value under a key.

  `insert` adds an entry for a new key, leaves an equal entry alone and refuses a different
  value. `insertAll_eq_ok_iff`: a list of entries goes in exactly when no key has two values
  among them and the table, and `mem_insertAll`: then the table has them all and nothing else.
-/

namespace Tyr

namespace Table

variable {κ α ε : Type*} {t t' : List (κ × α)} {k : κ} {a : α}

/-- No key has two values. -/
def Functional (t : List (κ × α)) : Prop := ∀ x ∈ t, ∀ y ∈ t, x.1 = y.1 → x.2 = y.2

theorem Functional.of_subset (h : ∀ x ∈ t, x ∈ t') (ht : Functional t') : Functional t :=
  fun x hx y hy => ht x (h x hx) y (h y hy)

theorem Functional.congr (h : ∀ x, x ∈ t ↔ x ∈ t') : Functional t ↔ Functional t' := by
  constructor
  · exact Functional.of_subset fun x hx => (h x).mpr hx
  · exact Functional.of_subset fun x hx => (h x).mp hx

section Insert

variable [DecidableEq κ] [DecidableEq α]

def insert (e : ε) (t : List (κ × α)) (k : κ) (a : α) : Except ε (List (κ × α)) :=
  match t.lookup k with
  | none => .ok (t ++ [(k, a)])
  | some b => if b = a then .ok t else .error e

def insertAll (e : ε) (t : List (κ × α)) : List (κ × α) → Except ε (List (κ × α))
  | [] => .ok t
  | x :: xs => (insert e t x.1 x.2).bind fun t' => insertAll e t' xs

omit [DecidableEq α] in
theorem lookup_isSome_iff : (t.lookup k).isSome ↔ k ∈ t.map (·.1) := by
  rw [List.lookup_eq_findSome?, List.findSome?_isSome_iff, List.mem_map]
  constructor
  · rintro ⟨x, hx, hk⟩
    split at hk
    · next hkx => exact ⟨x, hx, (beq_iff_eq.mp hkx).symm⟩
    · cases hk
  · rintro ⟨x, hx, rfl⟩
    exact ⟨x, hx, by simp⟩

omit [DecidableEq α] in
theorem mem_of_lookup (h : t.lookup k = some a) : (k, a) ∈ t := by
  rw [List.lookup_eq_findSome?, List.findSome?_eq_some_iff] at h
  obtain ⟨l₁, x, l₂, rfl, hx, -⟩ := h
  split at hx
  · next hk =>
    obtain rfl := beq_iff_eq.mp hk
    obtain rfl := Option.some.inj hx
    simp
  · cases hx

omit [DecidableEq α] in
theorem not_mem_of_lookup (h : t.lookup k = none) (b : α) : (k, b) ∉ t := by
  intro hmem
  have hk : (t.lookup k).isSome := lookup_isSome_iff.mpr (List.mem_map_of_mem hmem)
  rw [h] at hk
  cases hk

/-- An insertion that succeeds adds the entry and nothing else. -/
theorem mem_insert {e : ε} (h : insert e t k a = .ok t') (x : κ × α) :
    x ∈ t' ↔ x ∈ t ++ [(k, a)] := by
  unfold insert at h
  split at h
  · obtain rfl := Except.ok.inj h
    rfl
  · next b hb =>
    split at h
    · next heq =>
      subst heq
      obtain rfl := Except.ok.inj h
      rw [List.mem_append, List.mem_singleton]
      constructor
      · exact Or.inl
      · rintro (hx | rfl)
        · exact hx
        · exact mem_of_lookup hb
    · cases h

theorem insert_eq_ok_iff {e : ε} (ht : Functional t) :
    (∃ t', insert e t k a = .ok t') ↔ Functional (t ++ [(k, a)]) := by
  constructor
  · rintro ⟨t', h⟩
    have hk : ∀ b, (k, b) ∈ t → b = a := by
      intro b hb
      unfold insert at h
      split at h
      · next hn => exact absurd hb (not_mem_of_lookup hn b)
      · next c hc =>
        split at h
        · next hca => exact (ht _ hb _ (mem_of_lookup hc) rfl).trans hca
        · cases h
    rintro ⟨kx, bx⟩ hx ⟨ky, b'⟩ hy hxy
    obtain rfl : kx = ky := hxy
    rw [List.mem_append, List.mem_singleton, Prod.mk.injEq] at hx hy
    rcases hx with hx | ⟨rfl, rfl⟩
    · rcases hy with hy | ⟨rfl, rfl⟩
      · exact ht _ hx _ hy rfl
      · exact hk bx hx
    · rcases hy with hy | ⟨-, rfl⟩
      · exact (hk b' hy).symm
      · rfl
  · intro h
    unfold insert
    split
    · exact ⟨_, rfl⟩
    · next b hb =>
      have hba : b = a := h (k, b) (List.mem_append_left _ (mem_of_lookup hb)) (k, a)
        (List.mem_append_right _ List.mem_cons_self) rfl
      rw [if_pos hba]
      exact ⟨_, rfl⟩

theorem insertAll_cons_eq_ok_iff {e : ε} {x : κ × α} {xs : List (κ × α)} :
    insertAll e t (x :: xs) = .ok t' ↔
      ∃ t₁, insert e t x.1 x.2 = .ok t₁ ∧ insertAll e t₁ xs = .ok t' := by
  show (insert e t x.1 x.2).bind _ = _ ↔ _
  cases insert e t x.1 x.2 with
  | error e' => simp [Except.bind]
  | ok t₁ => simp [Except.bind]

theorem mem_insertAll {e : ε} {xs : List (κ × α)} (h : insertAll e t xs = .ok t') (x : κ × α) :
    x ∈ t' ↔ x ∈ t ++ xs := by
  induction xs generalizing t with
  | nil =>
    obtain rfl := Except.ok.inj h
    rw [List.append_nil]
  | cons y ys ih =>
    obtain ⟨t₁, h₁, h₂⟩ := insertAll_cons_eq_ok_iff.mp h
    rw [ih h₂, List.mem_append, mem_insert h₁, ← List.mem_append, ← List.append_cons]

theorem insertAll_eq_ok_iff {e : ε} {xs : List (κ × α)} (ht : Functional t) :
    (∃ t', insertAll e t xs = .ok t') ↔ Functional (t ++ xs) := by
  induction xs generalizing t with
  | nil =>
    rw [List.append_nil]
    exact ⟨fun _ => ht, fun _ => ⟨t, rfl⟩⟩
  | cons y ys ih =>
    have hstep := insert_eq_ok_iff (e := e) (k := y.1) (a := y.2) ht
    have hsame : ∀ {t₁}, insert e t y.1 y.2 = .ok t₁ →
        (Functional (t₁ ++ ys) ↔ Functional (t ++ y :: ys)) := by
      intro t₁ h₁
      apply Functional.congr
      intro x
      rw [List.mem_append, mem_insert h₁, ← List.mem_append, ← List.append_cons]
    constructor
    · rintro ⟨t', h⟩
      obtain ⟨t₁, h₁, h₂⟩ := insertAll_cons_eq_ok_iff.mp h
      have hf₁ : Functional t₁ := (Functional.congr (mem_insert h₁)).mpr (hstep.mp ⟨t₁, h₁⟩)
      exact (hsame h₁).mp ((ih hf₁).mp ⟨t', h₂⟩)
    · intro h
      have hy : Functional (t ++ [(y.1, y.2)]) := by
        refine Functional.of_subset (fun x hx => ?_) h
        rw [List.append_cons]
        exact List.mem_append_left _ hx
      obtain ⟨t₁, h₁⟩ := hstep.mpr hy
      have hf₁ : Functional t₁ := (Functional.congr (mem_insert h₁)).mpr hy
      obtain ⟨t', h₂⟩ := (ih hf₁).mpr ((hsame h₁).mpr h)
      exact ⟨t', insertAll_cons_eq_ok_iff.mpr ⟨t₁, h₁, h₂⟩⟩

end Insert

end Table

end Tyr
