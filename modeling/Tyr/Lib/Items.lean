import Tyr.Lib.Bytes

/-
  Items of one width at equal distances in a list, and the list with some of them reversed.

  Item `k` is the window of length `width` at `base + stride * k`; the items do not overlap
  (`width ≤ stride`). `Reverses` says that items `lo` to `hi` are reversed and that nothing
  outside of them has changed, the gaps between items included. It composes (`trans`), and doing
  it twice gives the list one has begun with (`twice`).
-/

namespace Tyr

section Items

variable {α : Type*} {stride width base : Nat}

/-- Position `q` is in item `k`. -/
def InItem (stride width base k q : Nat) : Prop :=
  base + stride * k ≤ q ∧ q < base + stride * k + width

theorem InItem.unique (hw : width ≤ stride) {j k q : Nat} (hj : InItem stride width base j q)
    (hk : InItem stride width base k q) : j = k := by
  have hlt : ∀ {a b : Nat}, InItem stride width base a q → InItem stride width base b q →
      ¬ a < b := by
    intro a b ha hb hab
    have hmul : stride * (a + 1) ≤ stride * b := Nat.mul_le_mul_left _ hab
    rw [Nat.mul_add, Nat.mul_one] at hmul
    have h1 := ha.2
    have h2 := hb.1
    omega
  have h1 := hlt hj hk
  have h2 := hlt hk hj
  omega

/-- A window depends on its positions only. -/
theorem slice_congr {l l' : List α} {o n : Nat} (h : ∀ q, o ≤ q → q < o + n → l'[q]? = l[q]?) :
    slice l' o n = slice l o n := by
  apply List.ext_getElem?
  intro i
  rw [getElem?_slice, getElem?_slice]
  split
  · exact h (o + i) (by omega) (by omega)
  · rfl

/-- `l'` is `l` with items `lo` to `hi` reversed. -/
structure Reverses (stride width base lo hi : Nat) (l l' : List α) : Prop where
  length : l'.length = l.length
  item : ∀ k, lo ≤ k → k < hi → slice l' (base + stride * k) width =
    (slice l (base + stride * k) width).reverse
  frame : ∀ q, (∀ k, lo ≤ k → k < hi → ¬ InItem stride width base k q) → l'[q]? = l[q]?

namespace Reverses

variable {lo mid hi : Nat} {l l₁ l₂ : List α}

/-- An item that is not among those reversed. -/
theorem slice_eq (h : Reverses stride width base lo hi l l₁) (hw : width ≤ stride) {k : Nat}
    (hk : k < lo ∨ hi ≤ k) :
    slice l₁ (base + stride * k) width = slice l (base + stride * k) width := by
  apply slice_congr
  intro q hq hq'
  apply h.frame q
  intro j hlo hhi hj
  have hjk := hj.unique hw (k := k) ⟨hq, hq'⟩
  omega

/-- One item. -/
theorem one {k : Nat} (hfit : base + stride * k + width ≤ l.length) :
    Reverses stride width base k (k + 1) l
      (splice l (base + stride * k) (slice l (base + stride * k) width).reverse) := by
  have hlen : (slice l (base + stride * k) width).reverse.length = width := by
    rw [List.length_reverse, length_slice hfit]
  have hfit' : base + stride * k + (slice l (base + stride * k) width).reverse.length ≤
      l.length := by rw [hlen]; exact hfit
  refine ⟨length_splice hfit', ?_, ?_⟩
  · intro j hj hj'
    obtain rfl : j = k := by omega
    have hself := slice_splice_self hfit'
    rwa [hlen] at hself
  · intro q hq
    have hout : ¬(base + stride * k ≤ q ∧ q < base + stride * k + width) :=
      hq k (Nat.le_refl k) (Nat.lt_succ_self k)
    rw [getElem?_splice hfit', hlen, if_neg hout]

theorem trans (h₁ : Reverses stride width base lo mid l l₁)
    (h₂ : Reverses stride width base mid hi l₁ l₂) (hw : width ≤ stride) (hlo : lo ≤ mid)
    (hhi : mid ≤ hi) : Reverses stride width base lo hi l l₂ := by
  refine ⟨h₂.length.trans h₁.length, ?_, ?_⟩
  · intro k hk hk'
    by_cases hkm : k < mid
    · rw [h₂.slice_eq hw (.inl hkm), h₁.item k hk hkm]
    · rw [h₂.item k (by omega) hk', h₁.slice_eq hw (.inr (by omega))]
  · intro q hq
    rw [h₂.frame q fun k hk hk' => hq k (by omega) hk',
      h₁.frame q fun k hk hk' => hq k hk (by omega)]

/-- Reversing the same items again. -/
theorem twice (h₁ : Reverses stride width base lo hi l l₁)
    (h₂ : Reverses stride width base lo hi l₁ l₂) : l₂ = l := by
  apply List.ext_getElem?
  intro q
  by_cases hq : ∃ k, lo ≤ k ∧ k < hi ∧ InItem stride width base k q
  · obtain ⟨k, hk, hk', hitem⟩ := hq
    have hslice : slice l₂ (base + stride * k) width = slice l (base + stride * k) width := by
      rw [h₂.item k hk hk', h₁.item k hk hk', List.reverse_reverse]
    have hget := congrArg (·[q - (base + stride * k)]?) hslice
    have hle := hitem.1
    have hlt : q - (base + stride * k) < width := by
      have := hitem.2
      omega
    simp only [getElem?_slice, if_pos hlt, Nat.add_sub_cancel' hle] at hget
    exact hget
  · have hout : ∀ k, lo ≤ k → k < hi → ¬ InItem stride width base k q := fun k hk hk' hitem =>
      hq ⟨k, hk, hk', hitem⟩
    rw [h₂.frame q hout, h₁.frame q hout]

end Reverses

end Items

end Tyr
