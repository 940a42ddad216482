import Mathlib.Tactic

/-
  Sequential placement of members with alignment.

  A member is a pair (size, alignment). Each member goes to the next multiple of its
  alignment; the record ends after the last member, rounded up to the largest alignment.
  Members never overlap (`offsetAt_disjoint`) and lie inside the record
  (`offsetAt_add_le_recordSize`). What is not member is padding (`recordSize_eq`). With
  power-of-two alignments, smaller members with smaller alignments give a smaller record
  (`recordSize_mono`); and where no member's size is off the alignment of one before it, all
  padding is one rounding, whatever the order (`recordSize_of_dvd`).
-/

namespace Tyr

/-! ## Rounding up -/

/-- The least multiple of `a` that is at least `n`. -/
def alignTo (n a : Nat) : Nat := (n + a - 1) / a * a

theorem dvd_alignTo (n a : Nat) : a ∣ alignTo n a := Dvd.intro_left _ rfl

theorem le_alignTo (n : Nat) {a : Nat} (ha : 0 < a) : n ≤ alignTo n a := by
  have h := Nat.div_add_mod (n + a - 1) a
  have hm := Nat.mod_lt (n + a - 1) ha
  rw [Nat.mul_comm] at h
  unfold alignTo
  omega

theorem alignTo_le {n a m : Nat} (ha : 0 < a) (hm : a ∣ m) (hn : n ≤ m) : alignTo n a ≤ m := by
  obtain ⟨k, rfl⟩ := hm
  have hlt : (n + a - 1) / a < k + 1 := by
    rw [Nat.div_lt_iff_lt_mul ha, Nat.add_mul, Nat.mul_comm k a]
    omega
  rw [alignTo, Nat.mul_comm]
  exact Nat.mul_le_mul_left a (by omega)

theorem alignTo_of_dvd {n a : Nat} (ha : 0 < a) (h : a ∣ n) : alignTo n a = n :=
  Nat.le_antisymm (alignTo_le ha h (Nat.le_refl n)) (le_alignTo n ha)

@[simp] theorem alignTo_one (n : Nat) : alignTo n 1 = n :=
  alignTo_of_dvd (by decide) (Nat.one_dvd n)

/-- Rounding a smaller number to a divisor of the alignment gives no more. -/
theorem alignTo_mono {n m a a' : Nat} (ha : 0 < a) (ha' : 0 < a') (hd : a ∣ a') (h : n ≤ m) :
    alignTo n a ≤ alignTo m a' :=
  alignTo_le ha (Nat.dvd_trans hd (dvd_alignTo m a')) (Nat.le_trans h (le_alignTo m ha'))

/-- A multiple of the alignment is not rounded. -/
theorem alignTo_add {n k a : Nat} (ha : 0 < a) (h : a ∣ k) :
    alignTo (n + k) a = alignTo n a + k := by
  obtain ⟨q, rfl⟩ := h
  have hdiv : (n + a * q + a - 1) / a = (n + a - 1) / a + q := by
    rw [show n + a * q + a - 1 = n + a - 1 + a * q by omega, Nat.add_mul_div_left _ _ ha]
  rw [alignTo, alignTo, hdiv, Nat.add_mul, Nat.mul_comm q a]

/-- Of two roundings the coarser one stays. -/
theorem alignTo_alignTo {a b : Nat} (n : Nat) (ha : 0 < a) (hb : 0 < b) (hd : a ∣ b) :
    alignTo (alignTo n a) b = alignTo n b := by
  have hn := le_alignTo n hb
  apply Nat.le_antisymm
  · exact alignTo_le hb (dvd_alignTo n b) (alignTo_le ha (Nat.dvd_trans hd (dvd_alignTo n b)) hn)
  · exact alignTo_mono hb hb (Nat.dvd_refl b) (le_alignTo n ha)

/-! ## Records -/

/-- The offset of member `i` when placement starts at `o`. -/
def offsetAt : List (Nat × Nat) → Nat → Nat → Nat
  | [], o, _ => o
  | m :: _, o, 0 => alignTo o m.2
  | m :: rest, o, i + 1 => offsetAt rest (alignTo o m.2 + m.1) i

/-- Where placement ends. -/
def endOffset : List (Nat × Nat) → Nat → Nat
  | [], o => o
  | m :: rest, o => endOffset rest (alignTo o m.2 + m.1)

def maxAlign (ms : List (Nat × Nat)) : Nat := ms.foldr (fun m a => max m.2 a) 1

def recordSize (ms : List (Nat × Nat)) : Nat := alignTo (endOffset ms 0) (maxAlign ms)

/-- The gaps in front of the members when placement starts at `o`. -/
def gaps : List (Nat × Nat) → Nat → List Nat
  | [], _ => []
  | m :: rest, o => (alignTo o m.2 - o) :: gaps rest (alignTo o m.2 + m.1)

/-- The gaps of a record, the one behind the last member included. -/
def padding (ms : List (Nat × Nat)) : Nat :=
  (gaps ms 0).sum + (recordSize ms - endOffset ms 0)

section Placement

variable {ms : List (Nat × Nat)} {o i j : Nat}

theorem maxAlign_pos (ms : List (Nat × Nat)) : 0 < maxAlign ms := by
  induction ms with
  | nil => decide
  | cons m ms ih =>
    simp only [maxAlign, List.foldr_cons] at ih ⊢
    omega

theorem le_endOffset (h : ∀ m ∈ ms, 0 < m.2) : o ≤ endOffset ms o := by
  induction ms generalizing o with
  | nil => exact Nat.le_refl o
  | cons m ms ih =>
    have h1 := le_alignTo o (h m List.mem_cons_self)
    have h2 := ih (o := alignTo o m.2 + m.1) (fun x hx => h x (List.mem_cons_of_mem m hx))
    simp only [endOffset]
    omega

theorem le_offsetAt (h : ∀ m ∈ ms, 0 < m.2) : o ≤ offsetAt ms o i := by
  induction ms generalizing o i with
  | nil => exact Nat.le_refl o
  | cons m ms ih =>
    have h1 := le_alignTo o (h m List.mem_cons_self)
    cases i with
    | zero => exact h1
    | succ i =>
      have h2 := ih (o := alignTo o m.2 + m.1) (i := i)
        (fun x hx => h x (List.mem_cons_of_mem m hx))
      simp only [offsetAt]
      omega

theorem offsetAt_add_le_endOffset (h : ∀ m ∈ ms, 0 < m.2) (hi : i < ms.length) :
    offsetAt ms o i + ms[i].1 ≤ endOffset ms o := by
  induction ms generalizing o i with
  | nil => simp at hi
  | cons m ms ih =>
    have ht : ∀ x ∈ ms, 0 < x.2 := fun x hx => h x (List.mem_cons_of_mem m hx)
    cases i with
    | zero => exact le_endOffset ht
    | succ i => exact ih ht (by simpa using hi)

/-- Members in order do not overlap. -/
theorem offsetAt_disjoint (h : ∀ m ∈ ms, 0 < m.2) (hij : i < j) (hj : j < ms.length) :
    offsetAt ms o i + ms[i].1 ≤ offsetAt ms o j := by
  induction ms generalizing o i j with
  | nil => simp at hj
  | cons m ms ih =>
    have ht : ∀ x ∈ ms, 0 < x.2 := fun x hx => h x (List.mem_cons_of_mem m hx)
    obtain ⟨j, rfl⟩ : ∃ k, j = k + 1 := ⟨j - 1, by omega⟩
    cases i with
    | zero => exact le_offsetAt ht
    | succ i => exact ih ht (by omega) (by simpa using hj)

theorem offsetAt_add_le_recordSize (h : ∀ m ∈ ms, 0 < m.2) (hi : i < ms.length) :
    offsetAt ms 0 i + ms[i].1 ≤ recordSize ms :=
  Nat.le_trans (offsetAt_add_le_endOffset h hi) (le_alignTo _ (maxAlign_pos ms))

theorem endOffset_eq (h : ∀ m ∈ ms, 0 < m.2) :
    endOffset ms o = o + (ms.map Prod.fst).sum + (gaps ms o).sum := by
  induction ms generalizing o with
  | nil => rfl
  | cons m ms ih =>
    have hle := le_alignTo o (h m List.mem_cons_self)
    have htail := ih (o := alignTo o m.2 + m.1) fun x hx => h x (List.mem_cons_of_mem m hx)
    simp only [endOffset, gaps, List.map_cons, List.sum_cons, htail]
    omega

/-- A record is its members and its padding. -/
theorem recordSize_eq (h : ∀ m ∈ ms, 0 < m.2) :
    recordSize ms = (ms.map Prod.fst).sum + padding ms := by
  have hle : endOffset ms 0 ≤ recordSize ms := le_alignTo _ (maxAlign_pos ms)
  have hend := endOffset_eq (o := 0) h
  unfold padding
  omega

end Placement

/-! ## Two placements of one list -/

theorem dvd_of_isPowerOfTwo {a b : Nat} (ha : a.isPowerOfTwo) (hb : b.isPowerOfTwo)
    (h : a ≤ b) : a ∣ b := by
  obtain ⟨i, rfl⟩ := ha
  obtain ⟨j, rfl⟩ := hb
  exact Nat.pow_dvd_pow 2 ((Nat.pow_le_pow_iff_right (by decide)).mp h)

/-- Rounding to `b` gives no more than rounding to `a` where that is a multiple of `b` as well. -/
theorem alignTo_le_alignTo_iff {a b : Nat} (n : Nat) (ha : a.isPowerOfTwo)
    (hb : b.isPowerOfTwo) : alignTo n b ≤ alignTo n a ↔ b ∣ alignTo n a := by
  have hapos := Nat.pos_of_isPowerOfTwo ha
  have hbpos := Nat.pos_of_isPowerOfTwo hb
  constructor
  · intro h
    rcases Nat.le_total b a with hba | hab
    · exact Nat.dvd_trans (dvd_of_isPowerOfTwo hb ha hba) (dvd_alignTo n a)
    · have hle := alignTo_mono hapos hbpos (dvd_of_isPowerOfTwo ha hb hab) (Nat.le_refl n)
      rw [← Nat.le_antisymm h hle]
      exact dvd_alignTo n b
  · intro h
    exact alignTo_le hbpos h (le_alignTo n hapos)

theorem maxAlign_pow2 {ms : List (Nat × Nat)} (h : ∀ m ∈ ms, m.2.isPowerOfTwo) :
    (maxAlign ms).isPowerOfTwo := by
  induction ms with
  | nil => exact ⟨0, rfl⟩
  | cons m ms ih =>
    have hms := ih fun x hx => h x (List.mem_cons_of_mem m hx)
    show (max m.2 (maxAlign ms)).isPowerOfTwo
    rcases max_choice m.2 (maxAlign ms) with he | he <;> rw [he]
    · exact h m List.mem_cons_self
    · exact hms

theorem le_maxAlign {ms : List (Nat × Nat)} {m : Nat × Nat} (hm : m ∈ ms) :
    m.2 ≤ maxAlign ms := by
  induction ms with
  | nil => cases hm
  | cons x ms ih =>
    show m.2 ≤ max x.2 (maxAlign ms)
    rcases List.mem_cons.mp hm with rfl | hm
    · exact le_max_left _ _
    · exact Nat.le_trans (ih hm) (le_max_right _ _)

theorem maxAlign_perm {ms ms' : List (Nat × Nat)} (h : ms.Perm ms') :
    maxAlign ms = maxAlign ms' :=
  h.foldr_eq' (fun x _ y _ a => Nat.max_left_comm y.2 x.2 a) 1

/-- All roundings but the coarsest are lost in it. -/
theorem alignTo_endOffset {ms : List (Nat × Nat)} {A : Nat} (hA : A.isPowerOfTwo)
    (hp : ∀ m ∈ ms, m.2.isPowerOfTwo) (hle : ∀ m ∈ ms, m.2 ≤ A) (hs : ∀ m ∈ ms, m.2 ∣ m.1)
    (h : ms.Pairwise fun m m' => m.2 ∣ m'.1) (o : Nat) :
    alignTo (endOffset ms o) A = alignTo (o + (ms.map Prod.fst).sum) A := by
  induction ms generalizing o with
  | nil => rfl
  | cons m ms ih =>
    obtain ⟨hm, hms⟩ := List.pairwise_cons.mp h
    have hpow := hp m List.mem_cons_self
    have hpos := Nat.pos_of_isPowerOfTwo hpow
    have hd : m.2 ∣ m.1 + (ms.map Prod.fst).sum := by
      refine Nat.dvd_add (hs m List.mem_cons_self) (List.dvd_sum fun k hk => ?_)
      obtain ⟨m', hm', rfl⟩ := List.mem_map.mp hk
      exact hm m' hm'
    have htail := ih (fun x hx => hp x (List.mem_cons_of_mem m hx))
      (fun x hx => hle x (List.mem_cons_of_mem m hx))
      (fun x hx => hs x (List.mem_cons_of_mem m hx)) hms (alignTo o m.2 + m.1)
    have hdvd : m.2 ∣ A := dvd_of_isPowerOfTwo hpow hA (hle m List.mem_cons_self)
    rw [endOffset, htail, List.map_cons, List.sum_cons, Nat.add_assoc, ← alignTo_add hpos hd,
      alignTo_alignTo _ hpos (Nat.pos_of_isPowerOfTwo hA) hdvd]

/-- Members whose sizes keep the alignments before them: the record is the sum, rounded once. -/
theorem recordSize_of_dvd {ms : List (Nat × Nat)} (hp : ∀ m ∈ ms, m.2.isPowerOfTwo)
    (hs : ∀ m ∈ ms, m.2 ∣ m.1) (h : ms.Pairwise fun m m' => m.2 ∣ m'.1) :
    recordSize ms = alignTo (ms.map Prod.fst).sum (maxAlign ms) := by
  rw [recordSize, alignTo_endOffset (maxAlign_pow2 hp) hp (fun m hm => le_maxAlign hm) hs h,
    Nat.zero_add]

section Comparison

variable {ms ms' : List (Nat × Nat)}

theorem maxAlign_mono (h : List.Forall₂ (fun m m' => m.1 ≤ m'.1 ∧ m.2 ≤ m'.2) ms ms') :
    maxAlign ms ≤ maxAlign ms' := by
  induction h with
  | nil => exact Nat.le_refl _
  | cons hm _ ih => exact max_le_max hm.2 ih

theorem endOffset_mono (hp : ∀ m ∈ ms, m.2.isPowerOfTwo) (hp' : ∀ m ∈ ms', m.2.isPowerOfTwo)
    (h : List.Forall₂ (fun m m' => m.1 ≤ m'.1 ∧ m.2 ≤ m'.2) ms ms') {o o' : Nat}
    (ho : o ≤ o') : endOffset ms o ≤ endOffset ms' o' := by
  induction h generalizing o o' with
  | nil => exact ho
  | @cons m m' ms ms' hm _ ih =>
    have hm2 := hp m List.mem_cons_self
    have hm2' := hp' m' List.mem_cons_self
    have hle := alignTo_mono (Nat.pos_of_isPowerOfTwo hm2) (Nat.pos_of_isPowerOfTwo hm2')
      (dvd_of_isPowerOfTwo hm2 hm2' hm.2) ho
    exact ih (fun x hx => hp x (List.mem_cons_of_mem m hx))
      (fun x hx => hp' x (List.mem_cons_of_mem m' hx)) (Nat.add_le_add hle hm.1)

theorem recordSize_mono (hp : ∀ m ∈ ms, m.2.isPowerOfTwo)
    (hp' : ∀ m ∈ ms', m.2.isPowerOfTwo)
    (h : List.Forall₂ (fun m m' => m.1 ≤ m'.1 ∧ m.2 ≤ m'.2) ms ms') :
    recordSize ms ≤ recordSize ms' := by
  have hd := dvd_of_isPowerOfTwo (maxAlign_pow2 hp) (maxAlign_pow2 hp') (maxAlign_mono h)
  exact alignTo_mono (maxAlign_pos ms) (maxAlign_pos ms') hd
    (endOffset_mono hp hp' h (Nat.le_refl 0))

end Comparison

end Tyr
