import Tyr.Lib.Base64

/-
  Base64 by bits, as RFC 4648 words it (sections 4 and 5).

  `text` strings the bits of the bytes together, cuts them into groups of six, fills up the last
  one with zero bits and ends the text with `=` where the digits do not make a multiple of four.
  `encode_eq_text`: the arithmetic on three bytes at a time gives the same.
-/

namespace Tyr

namespace Base64

/-! ## Bits -/

/-- The bits of a byte, the most significant first. -/
def bits (b : Byte) : List Bool := (List.range 8).map b.getMsbD

/-- The number with these bits. -/
def number (bs : List Bool) : Nat := bs.foldl (fun n b => 2 * n + b.toNat) 0

/-- Groups of six bits; zeros are added on the right to make the last one whole. -/
def sextets : List Bool → List Nat
  | [] => []
  | a :: b :: c :: d :: e :: f :: rest => number [a, b, c, d, e, f] :: sextets rest
  | rest => [number (rest ++ List.replicate (6 - rest.length) false)]

/-- The padded base64url text of `m`. -/
def text (m : List Byte) : List Byte :=
  let digits := (sextets (m.flatMap bits)).map digit
  digits ++ List.replicate ((4 - digits.length % 4) % 4) pad

/-! ## Numbers -/

theorem foldl_number (bs : List Bool) : ∀ n : Nat,
    bs.foldl (fun n b => 2 * n + b.toNat) n = n * 2 ^ bs.length + number bs := by
  unfold number
  induction bs with
  | nil =>
    intro n
    simp
  | cons b bs ih =>
    intro n
    rw [List.foldl_cons, List.foldl_cons, ih, ih (2 * 0 + b.toNat), List.length_cons, pow_succ]
    ring

theorem number_append (xs ys : List Bool) :
    number (xs ++ ys) = number xs * 2 ^ ys.length + number ys := by
  rw [number, List.foldl_append]
  exact foldl_number ys _

theorem number_cons (b : Bool) (bs : List Bool) :
    number (b :: bs) = b.toNat * 2 ^ bs.length + number bs := by
  rw [← List.singleton_append, number_append]
  simp [number]

theorem number_lt (bs : List Bool) : number bs < 2 ^ bs.length := by
  induction bs with
  | nil => exact Nat.one_pos
  | cons b bs ih =>
    have hb : b.toNat * 2 ^ bs.length ≤ 1 * 2 ^ bs.length :=
      Nat.mul_le_mul_right _ b.toNat_le
    rw [number_cons, List.length_cons, pow_succ]
    omega

theorem number_take (bs : List Bool) (k : Nat) :
    number (bs.take k) = number bs / 2 ^ (bs.drop k).length := by
  have happend := number_append (bs.take k) (bs.drop k)
  rw [List.take_append_drop] at happend
  rw [happend, Nat.add_comm, Nat.add_mul_div_right _ _ (Nat.two_pow_pos _),
    Nat.div_eq_of_lt (number_lt _), Nat.zero_add]

theorem number_drop (bs : List Bool) (k : Nat) :
    number (bs.drop k) = number bs % 2 ^ (bs.drop k).length := by
  have happend := number_append (bs.take k) (bs.drop k)
  rw [List.take_append_drop] at happend
  rw [happend, Nat.add_comm, Nat.add_mul_mod_self_right, Nat.mod_eq_of_lt (number_lt _)]

/-! ## The bits of a byte -/

@[simp] theorem length_bits (b : Byte) : (bits b).length = 8 := rfl

set_option maxRecDepth 8000 in
theorem number_bits (b : Byte) : number (bits b) = b.toNat := by
  have h : ∀ v : Fin 256, number (bits (BitVec.ofFin v)) = v.val := by decide
  exact h b.toFin

theorem number_take_bits (b : Byte) (k : Nat) :
    number ((bits b).take k) = b.toNat / 2 ^ (8 - k) := by
  rw [number_take, number_bits, List.length_drop, length_bits]

theorem number_drop_bits (b : Byte) (k : Nat) :
    number ((bits b).drop k) = b.toNat % 2 ^ (8 - k) := by
  rw [number_drop, number_bits, List.length_drop, length_bits]

/-! ## Groups of six -/

/-- The four digits of three bytes cut the second byte in half. -/
theorem digits_joinBytes (a b c : Byte) :
    digitOf (joinBytes a b c) 3 = number ((bits a).take 6) ∧
      digitOf (joinBytes a b c) 2 = number ((bits a).drop 6 ++ (bits b).take 4) ∧
      digitOf (joinBytes a b c) 1 = number ((bits b).drop 4 ++ (bits c).take 2) ∧
      digitOf (joinBytes a b c) 0 = number ((bits c).drop 2) := by
  have ha := a.isLt
  have hb := b.isLt
  have hc := c.isLt
  have hfour : ((bits b).take 4).length = 4 := rfl
  have htwo : ((bits c).take 2).length = 2 := rfl
  rw [number_append, number_append, hfour, htwo]
  simp only [number_take_bits, number_drop_bits]
  unfold digitOf joinBytes
  refine ⟨?_, ?_, ?_, ?_⟩ <;> omega

theorem sextets_bits (a b c : Byte) (rest : List Bool) :
    sextets (bits a ++ (bits b ++ (bits c ++ rest))) =
      digitOf (joinBytes a b c) 3 :: digitOf (joinBytes a b c) 2 ::
        digitOf (joinBytes a b c) 1 :: digitOf (joinBytes a b c) 0 :: sextets rest := by
  obtain ⟨h3, h2, h1, h0⟩ := digits_joinBytes a b c
  rw [h3, h2, h1, h0]
  rfl

/-- Two bytes leave two zero bits. -/
theorem sextets_pair (a b : Byte) :
    sextets (bits a ++ bits b) = [digitOf (joinBytes a b 0) 3, digitOf (joinBytes a b 0) 2,
      digitOf (joinBytes a b 0) 1] := by
  obtain ⟨h3, h2, h1, -⟩ := digits_joinBytes a b 0
  rw [h3, h2, h1]
  rfl

/-- One byte leaves four. -/
theorem sextets_single (a : Byte) :
    sextets (bits a) = [digitOf (joinBytes a 0 0) 3, digitOf (joinBytes a 0 0) 2] := by
  obtain ⟨h3, h2, -, -⟩ := digits_joinBytes a 0 0
  rw [h3, h2]
  rfl

/-! ## The text -/

/-- A whole group adds four digits and no padding. -/
theorem text_cons (a b c : Byte) (rest : List Byte) :
    text (a :: b :: c :: rest) =
      [digit (digitOf (joinBytes a b c) 3), digit (digitOf (joinBytes a b c) 2),
        digit (digitOf (joinBytes a b c) 1), digit (digitOf (joinBytes a b c) 0)] ++
          text rest := by
  unfold text
  rw [List.flatMap_cons, List.flatMap_cons, List.flatMap_cons, sextets_bits]
  simp only [List.map_cons, List.length_cons, Nat.add_assoc, Nat.reduceAdd,
    Nat.add_mod_right]
  rfl

/-- By the groups of `encode`: a whole one, or what is left of the last one. -/
theorem encode_eq_text (m : List Byte) : encode m = text m := by
  induction m using encode.induct with
  | case1 => rfl
  | case2 a =>
    unfold text
    rw [List.flatMap_cons, List.flatMap_nil, List.append_nil, sextets_single]
    rfl
  | case3 a b =>
    unfold text
    rw [List.flatMap_cons, List.flatMap_cons, List.flatMap_nil, List.append_nil, sextets_pair]
    rfl
  | case4 a b c rest ih =>
    rw [text_cons, ← ih]
    rfl

end Base64

end Tyr
