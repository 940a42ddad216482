import Mathlib.Data.List.Basic
import Mathlib.Tactic

/-
  Windows of a list and the little-endian byte codec.

  * `slice l o n` is the window of `l` of length `n` at offset `o`; `splice l o w` is `l`
    with the window at `o` overwritten by `w`. `slice_splice_self`, `slice_splice_disjoint`
    and `length_splice` are the read-over-write laws.
  * `toLE k n` is the `k`-byte little-endian form of `n`, `ofLE` its inverse:
    `ofLE_toLE` (`n` modulo `256 ^ k`) and `toLE_ofLE`.
-/

namespace Tyr

abbrev Byte := BitVec 8

/-! ## Windows -/

section Windows

variable {α : Type*}

/-- The window of length `n` at offset `o`. -/
def slice (l : List α) (o n : Nat) : List α := (l.drop o).take n

/-- `l` with the window at offset `o` overwritten by `w`. -/
def splice (l : List α) (o : Nat) (w : List α) : List α :=
  l.take o ++ w ++ l.drop (o + w.length)

@[simp] theorem slice_zero_length (l : List α) (o : Nat) : slice l o 0 = [] := by
  simp [slice]

theorem length_slice {l : List α} {o n : Nat} (h : o + n ≤ l.length) :
    (slice l o n).length = n := by
  simp only [slice, List.length_take, List.length_drop]; omega

theorem length_splice {l w : List α} {o : Nat} (h : o + w.length ≤ l.length) :
    (splice l o w).length = l.length := by
  simp only [splice, List.length_append, List.length_take, List.length_drop]; omega

theorem getElem?_slice (l : List α) (o n i : Nat) :
    (slice l o n)[i]? = if i < n then l[o + i]? else none := by
  simp only [slice, List.getElem?_take, List.getElem?_drop]

theorem getElem?_splice {l w : List α} {o : Nat} (h : o + w.length ≤ l.length) (i : Nat) :
    (splice l o w)[i]? = if o ≤ i ∧ i < o + w.length then w[i - o]? else l[i]? := by
  simp only [splice, List.getElem?_append, List.getElem?_take, List.getElem?_drop,
    List.length_take, List.length_append]
  grind

theorem slice_splice_self {l w : List α} {o : Nat} (h : o + w.length ≤ l.length) :
    slice (splice l o w) o w.length = w := by
  apply List.ext_getElem?
  intro i
  rw [getElem?_slice, getElem?_splice h]
  grind

/-- A window inside the one just written. -/
theorem slice_splice_sub {l w : List α} {o k n : Nat} (h : o + w.length ≤ l.length)
    (hk : k + n ≤ w.length) : slice (splice l o w) (o + k) n = slice w k n := by
  apply List.ext_getElem?
  intro i
  rw [getElem?_slice, getElem?_slice, getElem?_splice h]
  grind

theorem slice_splice_disjoint {l w : List α} {o o' n : Nat} (h : o + w.length ≤ l.length)
    (hd : o' + n ≤ o ∨ o + w.length ≤ o') : slice (splice l o w) o' n = slice l o' n := by
  apply List.ext_getElem?
  intro i
  rw [getElem?_slice, getElem?_slice, getElem?_splice h]
  grind

/-- Two adjacent writes are one write. -/
theorem splice_splice_append {l v w : List α} {o k : Nat} (hk : v.length = k)
    (h : o + (k + w.length) ≤ l.length) :
    splice (splice l o v) (o + k) w = splice l o (v ++ w) := by
  subst hk
  apply List.ext_getElem?
  intro i
  have h1 : (splice l o v).length = l.length := length_splice (by omega)
  rw [getElem?_splice (by omega), getElem?_splice (by omega),
    getElem?_splice (by rw [List.length_append]; omega), List.getElem?_append]
  grind

/-- Of two writes to one window the second counts. -/
theorem splice_splice_same {l v w : List α} {o : Nat} (hv : v.length = w.length)
    (h : o + v.length ≤ l.length) : splice (splice l o v) o w = splice l o w := by
  apply List.ext_getElem?
  intro i
  have h1 : (splice l o v).length = l.length := length_splice h
  rw [getElem?_splice (by omega), getElem?_splice h, getElem?_splice (by omega)]
  grind

theorem slice_slice {l : List α} {o n k m : Nat} (h : k + m ≤ n) :
    slice (slice l o n) k m = slice l (o + k) m := by
  apply List.ext_getElem?
  intro i
  simp only [getElem?_slice]
  grind

theorem slice_self (l : List α) : slice l 0 l.length = l := by
  simp [slice]

/-- Two adjacent windows are one window. -/
theorem slice_append (l : List α) (o n m : Nat) :
    slice l o n ++ slice l (o + n) m = slice l o (n + m) := by
  simp only [slice, List.take_add, List.drop_drop]

theorem slice_append_left {v w : List α} {n : Nat} (h : v.length = n) :
    slice (v ++ w) 0 n = v := by
  rw [slice, List.drop_zero, List.take_left' h]

theorem slice_append_right {v w : List α} {n : Nat} (h : v.length = n) :
    slice (v ++ w) n w.length = w := by
  rw [slice, List.drop_left' h, List.take_length]

/-- A window behind a header. -/
theorem slice_append_add {u v : List α} {n : Nat} (hu : u.length = n) (p k : Nat) :
    slice (u ++ v) (n + p) k = slice v p k := by
  rw [slice, ← List.drop_drop, List.drop_left' hu, slice]

/-- The front of what follows a header. -/
theorem slice_append_middle {u v w : List α} {n k : Nat} (hu : u.length = n) (hk : k ≤ v.length) :
    slice (u ++ (v ++ w)) n k = v.take k := by
  rw [slice, List.drop_left' hu, List.take_append_of_le_length hk]

theorem slice_map {β : Type*} (f : α → β) (l : List α) (o n : Nat) :
    slice (l.map f) o n = (slice l o n).map f := by
  simp only [slice, List.map_take, List.map_drop]

end Windows

/-! ## The little-endian codec -/

/-- The `k`-byte little-endian form of `n` (its low `8 * k` bits). -/
def toLE : Nat → Nat → List Byte
  | 0, _ => []
  | k + 1, n => BitVec.ofNat 8 n :: toLE k (n / 256)

/-- The value of a little-endian byte list. -/
def ofLE : List Byte → Nat
  | [] => 0
  | b :: bs => b.toNat + 256 * ofLE bs

@[simp] theorem length_toLE (k n : Nat) : (toLE k n).length = k := by
  induction k generalizing n with
  | zero => rfl
  | succ k ih => simp [toLE, ih]

theorem ofLE_toLE (k n : Nat) : ofLE (toLE k n) = n % 256 ^ k := by
  induction k generalizing n with
  | zero => simp [toLE, ofLE, Nat.mod_one]
  | succ k ih =>
    simp only [toLE, ofLE, ih, BitVec.toNat_ofNat]
    have hp : 256 ^ (k + 1) = 256 * 256 ^ k := by rw [Nat.pow_succ, Nat.mul_comm]
    rw [hp, Nat.mod_mul]

theorem ofLE_lt (bs : List Byte) : ofLE bs < 256 ^ bs.length := by
  induction bs with
  | nil => simp [ofLE]
  | cons b bs ih =>
    simp only [ofLE, List.length_cons, Nat.pow_succ]
    have := b.isLt
    omega

theorem toLE_ofLE (bs : List Byte) : toLE bs.length (ofLE bs) = bs := by
  induction bs with
  | nil => rfl
  | cons b bs ih =>
    have hb := b.isLt
    have hq : (b.toNat + 256 * ofLE bs) / 256 = ofLE bs := by omega
    have hr : BitVec.ofNat 8 (b.toNat + 256 * ofLE bs) = b := by
      apply BitVec.eq_of_toNat_eq
      rw [BitVec.toNat_ofNat]; omega
    simp only [ofLE, List.length_cons, toLE, hq, hr, ih]

/-- Byte lists of one length are told apart by their values. -/
theorem ofLE_inj {xs ys : List Byte} (hlen : xs.length = ys.length) (h : ofLE xs = ofLE ys) :
    xs = ys := by
  rw [← toLE_ofLE xs, ← toLE_ofLE ys, hlen, h]

theorem ofLE_append (xs ys : List Byte) :
    ofLE (xs ++ ys) = ofLE xs + 256 ^ xs.length * ofLE ys := by
  induction xs with
  | nil => simp [ofLE]
  | cons x xs ih =>
    simp only [List.cons_append, ofLE, ih, List.length_cons, Nat.pow_succ]
    ring

theorem toLE_zero (k : Nat) : toLE k 0 = List.replicate k 0 := by
  induction k with
  | zero => rfl
  | succ k ih => simp [toLE, ih, List.replicate_succ]

/-- The lowest number of `k + 1` bytes. -/
theorem toLE_pow (k : Nat) : toLE (k + 1) (256 ^ k) = List.replicate k 0 ++ [1] := by
  induction k with
  | zero => rfl
  | succ k ih =>
    have hq : 256 ^ (k + 1) / 256 = 256 ^ k := by
      rw [Nat.pow_succ]
      exact Nat.mul_div_cancel _ (by decide)
    have hr : BitVec.ofNat 8 (256 ^ (k + 1)) = 0 := by
      apply BitVec.eq_of_toNat_eq
      rw [BitVec.toNat_ofNat, Nat.pow_succ]
      exact Nat.mul_mod_left _ _
    rw [toLE, hq, hr, ih]
    rfl

end Tyr
