import Tyr.Lib.Bytes

/-
  Base64 with the URL-safe alphabet and padding (RFC 4648, section 5).

  Three bytes are four digits of six bits; `encode` pads the last group with `=` and `decode`
  drops the bits that the padding leaves over. `decode_encode` is the round trip and
  `decode_isSome_iff` says which texts have a decoding: whole groups of digits, with `=` only
  as the last one or two characters.
-/

namespace Tyr

namespace Base64

/-! ## Digits -/

def alphabet : List Byte :=
  "ABCDEFGHIJKLMNOPQRSTUVWXYZabcdefghijklmnopqrstuvwxyz0123456789-_".toList.map fun c =>
    BitVec.ofNat 8 c.toNat

/-- `=` -/
def pad : Byte := 61

/-- The character of a digit. -/
def digit (v : Nat) : Byte := alphabet.getD v pad

/-- The digit of a character. -/
def value (c : Byte) : Option Nat := alphabet.findIdx? (· = c)

set_option maxRecDepth 4000 in
theorem value_digit {v : Nat} (hv : v < 64) : value (digit v) = some v := by
  have h : ∀ v : Fin 64, value (digit v) = some v.val := by decide
  exact h ⟨v, hv⟩

theorem value_lt {c : Byte} {v : Nat} (h : value c = some v) : v < 64 := by
  obtain ⟨hv, -⟩ := List.findIdx?_eq_some_iff_getElem.mp h
  exact hv

theorem digit_value {c : Byte} {v : Nat} (h : value c = some v) : digit v = c := by
  obtain ⟨hv, hc, -⟩ := List.findIdx?_eq_some_iff_getElem.mp h
  unfold digit
  rw [List.getD_eq_getElem?_getD, List.getElem?_eq_getElem hv]
  exact of_decide_eq_true hc

theorem value_isSome_iff {c : Byte} : (value c).isSome ↔ c ∈ alphabet := by
  unfold value
  rw [List.findIdx?_isSome]
  simp

theorem value_pad : value pad = none := by decide

theorem digit_ne_pad {v : Nat} (hv : v < 64) : digit v ≠ pad := by
  intro h
  have hvalue := value_digit hv
  rw [h, value_pad] at hvalue
  cases hvalue

/-! ## Groups -/

/-- Three bytes as one number. -/
def joinBytes (a b c : Byte) : Nat := (a.toNat * 256 + b.toNat) * 256 + c.toNat

/-- Four digits as one number. -/
def joinDigits (w x y z : Nat) : Nat := ((w * 64 + x) * 64 + y) * 64 + z

/-- The `k`-th of the four digits, the lowest being the 0th. -/
def digitOf (n k : Nat) : Nat := n / 64 ^ k % 64

/-- The `k`-th of the three bytes. -/
def byteOf (n k : Nat) : Byte := BitVec.ofNat 8 (n / 256 ^ k)

def encode : List Byte → List Byte
  | [] => []
  | [a] =>
    let n := joinBytes a 0 0
    [digit (digitOf n 3), digit (digitOf n 2), pad, pad]
  | [a, b] =>
    let n := joinBytes a b 0
    [digit (digitOf n 3), digit (digitOf n 2), digit (digitOf n 1), pad]
  | a :: b :: c :: rest =>
    let n := joinBytes a b c
    [digit (digitOf n 3), digit (digitOf n 2), digit (digitOf n 1), digit (digitOf n 0)] ++
      encode rest

def decode : List Byte → Option (List Byte)
  | [] => some []
  | w :: x :: y :: z :: rest =>
    if rest = [] ∧ z = pad then
      if y = pad then do
        let n := joinDigits (← value w) (← value x) 0 0
        some [byteOf n 2]
      else do
        let n := joinDigits (← value w) (← value x) (← value y) 0
        some [byteOf n 2, byteOf n 1]
    else do
      let n := joinDigits (← value w) (← value x) (← value y) (← value z)
      let bytes ← decode rest
      some ([byteOf n 2, byteOf n 1, byteOf n 0] ++ bytes)
  | _ => none

/-- Groups of four characters, digits but for one or two `=` at the end. -/
def IsPadded (s : List Byte) : Prop :=
  s.length % 4 = 0 ∧
    ∃ body k, s = body ++ List.replicate k pad ∧ k ≤ 2 ∧ ∀ c ∈ body, c ∈ alphabet

/-! ## Round trip -/

theorem digitOf_lt (n k : Nat) : digitOf n k < 64 := Nat.mod_lt _ (by decide)

theorem joinBytes_lt (a b c : Byte) : joinBytes a b c < 2 ^ 24 := by
  have := a.isLt
  have := b.isLt
  have := c.isLt
  unfold joinBytes
  omega

theorem joinDigits_digitOf {n : Nat} (hn : n < 2 ^ 24) :
    joinDigits (digitOf n 3) (digitOf n 2) (digitOf n 1) (digitOf n 0) = n := by
  unfold joinDigits digitOf
  omega

theorem byteOf_joinBytes (a b c : Byte) :
    byteOf (joinBytes a b c) 2 = a ∧ byteOf (joinBytes a b c) 1 = b ∧
      byteOf (joinBytes a b c) 0 = c := by
  have ha := a.isLt
  have hb := b.isLt
  have hc := c.isLt
  unfold byteOf joinBytes
  refine ⟨?_, ?_, ?_⟩ <;>
  · apply BitVec.eq_of_toNat_eq
    rw [BitVec.toNat_ofNat]
    omega

/-- The digits that padding replaces are zero. -/
theorem digitOf_padded (a b : Byte) :
    digitOf (joinBytes a b 0) 0 = 0 ∧ digitOf (joinBytes a 0 0) 1 = 0 := by
  unfold digitOf joinBytes
  have h0 : (0 : Byte).toNat = 0 := rfl
  rw [h0]
  omega

theorem decode_encode (bs : List Byte) : decode (encode bs) = some bs := by
  induction bs using encode.induct with
  | case1 => rfl
  | case2 a =>
    obtain ⟨h2, -, -⟩ := byteOf_joinBytes a 0 0
    have hjoin := joinDigits_digitOf (joinBytes_lt a 0 0)
    rw [(digitOf_padded a 0).1, (digitOf_padded a 0).2] at hjoin
    simp only [encode, decode, and_self, if_true, value_digit (digitOf_lt _ _)]
    show some [byteOf (joinDigits _ _ 0 0) 2] = _
    rw [hjoin, h2]
  | case3 a b =>
    obtain ⟨h2, h1, -⟩ := byteOf_joinBytes a b 0
    have hjoin := joinDigits_digitOf (joinBytes_lt a b 0)
    rw [(digitOf_padded a b).1] at hjoin
    simp only [encode, decode, and_self, if_true, value_digit (digitOf_lt _ _),
      digit_ne_pad (digitOf_lt _ _), if_false]
    show some [byteOf (joinDigits _ _ _ 0) 2, byteOf (joinDigits _ _ _ 0) 1] = _
    rw [hjoin, h2, h1]
  | case4 a b c rest ih =>
    obtain ⟨h2, h1, h0⟩ := byteOf_joinBytes a b c
    have hjoin := joinDigits_digitOf (joinBytes_lt a b c)
    simp only [encode, List.cons_append, List.nil_append, decode, value_digit (digitOf_lt _ _),
      digit_ne_pad (digitOf_lt _ _), and_false, if_false, ih]
    show some ([byteOf (joinDigits _ _ _ _) 2, byteOf (joinDigits _ _ _ _) 1,
      byteOf (joinDigits _ _ _ _) 0] ++ rest) = _
    rw [hjoin, h2, h1, h0]
    rfl

theorem length_encode (bs : List Byte) : (encode bs).length = 4 * ((bs.length + 2) / 3) := by
  induction bs using encode.induct with
  | case1 => rfl
  | case2 a => simp [encode]
  | case3 a b => simp [encode]
  | case4 a b c rest ih =>
    simp only [encode, List.length_append, List.length_cons, List.length_nil, ih]
    omega

/-! ## What a text decodes to -/

section Decode

variable {w x y z : Byte} {rest bs : List Byte}

theorem decode_two : decode [w, x, pad, pad] = some bs ↔
    ∃ u v, value w = some u ∧ value x = some v ∧ bs = [byteOf (joinDigits u v 0 0) 2] := by
  cases hw : value w <;> cases hx : value x <;> simp [decode, hw, hx, eq_comm]

theorem decode_one (hy : y ≠ pad) : decode [w, x, y, pad] = some bs ↔
    ∃ u v t, value w = some u ∧ value x = some v ∧ value y = some t ∧
      bs = [byteOf (joinDigits u v t 0) 2, byteOf (joinDigits u v t 0) 1] := by
  cases hw : value w <;> cases hx : value x <;> cases ht : value y <;>
    simp [decode, hw, hx, ht, hy, eq_comm]

theorem decode_group (h : ¬(rest = [] ∧ z = pad)) :
    decode (w :: x :: y :: z :: rest) = some bs ↔
      ∃ u v t q bytes, value w = some u ∧ value x = some v ∧ value y = some t ∧
        value z = some q ∧ decode rest = some bytes ∧
        bs = [byteOf (joinDigits u v t q) 2, byteOf (joinDigits u v t q) 1,
          byteOf (joinDigits u v t q) 0] ++ bytes := by
  cases hw : value w <;> cases hx : value x <;> cases hy : value y <;> cases hz : value z <;>
    cases hd : decode rest <;> simp [decode, h, hw, hx, hy, hz, hd, eq_comm]

end Decode

/-! ## Texts that decode -/

theorem isPadded_cons {w x y z : Byte} {rest : List Byte} (hrest : rest ≠ [] ∨ z ≠ pad) :
    IsPadded (w :: x :: y :: z :: rest) ↔
      (w ∈ alphabet ∧ x ∈ alphabet ∧ y ∈ alphabet ∧ z ∈ alphabet) ∧ IsPadded rest := by
  have hlength : (w :: x :: y :: z :: rest).length = rest.length + 4 := rfl
  constructor
  · rintro ⟨hlen, body, k, hs, hk, hbody⟩
    have hlen' : rest.length % 4 = 0 := by omega
    -- the padding lies in the rest
    have hle : 4 ≤ body.length := by
      have htotal := congrArg List.length hs
      rw [hlength, List.length_append, List.length_replicate] at htotal
      by_contra hlt
      obtain rfl : rest = [] := by
        rw [← List.length_eq_zero_iff]
        omega
      rcases hrest with h | hz
      · exact h rfl
      · apply hz
        have hlast : (body ++ List.replicate k pad)[3]? = some z := by rw [← hs]; rfl
        rw [List.getElem?_append_right (by omega), List.getElem?_replicate] at hlast
        split at hlast
        · exact (Option.some.inj hlast).symm
        · cases hlast
    match body, hle with
    | b₁ :: b₂ :: b₃ :: b₄ :: body, _ =>
      simp only [List.cons_append, List.cons.injEq] at hs
      obtain ⟨rfl, rfl, rfl, rfl, rfl⟩ := hs
      refine ⟨⟨hbody w ?_, hbody x ?_, hbody y ?_, hbody z ?_⟩, hlen', body, k, rfl, hk, ?_⟩
      · simp
      · simp
      · simp
      · simp
      · intro c hc
        exact hbody c (by simp [hc])
  · rintro ⟨⟨hw, hx, hy, hz⟩, hlen, body, k, rfl, hk, hbody⟩
    refine ⟨by omega, w :: x :: y :: z :: body, k, rfl, hk, ?_⟩
    intro c hc
    simp only [List.mem_cons] at hc
    rcases hc with rfl | rfl | rfl | rfl | hc
    · exact hw
    · exact hx
    · exact hy
    · exact hz
    · exact hbody c hc

theorem pad_not_mem : pad ∉ alphabet := by decide

/-- The last group, when it is padded. -/
theorem isPadded_last {w x y : Byte} : IsPadded [w, x, y, pad] ↔
    w ∈ alphabet ∧ x ∈ alphabet ∧ (y = pad ∨ y ∈ alphabet) := by
  constructor
  · rintro ⟨-, body, k, hs, hk, hbody⟩
    have htotal := congrArg List.length hs
    rw [List.length_append, List.length_replicate] at htotal
    have hlength : [w, x, y, pad].length = 4 := rfl
    have hk' : k = 0 ∨ k = 1 ∨ k = 2 := by omega
    rcases hk' with rfl | rfl | rfl
    · rw [List.replicate_zero, List.append_nil] at hs
      exact absurd (hbody pad (by rw [← hs]; simp)) pad_not_mem
    · match body, htotal with
      | [b₁, b₂, b₃], _ =>
        simp only [List.replicate_one, List.cons_append, List.nil_append, List.cons.injEq] at hs
        obtain ⟨rfl, rfl, rfl, -⟩ := hs
        exact ⟨hbody w (by simp), hbody x (by simp), .inr (hbody y (by simp))⟩
    · match body, htotal with
      | [b₁, b₂], _ =>
        simp only [List.replicate, List.cons_append, List.nil_append, List.cons.injEq] at hs
        obtain ⟨rfl, rfl, rfl, -⟩ := hs
        exact ⟨hbody w (by simp), hbody x (by simp), .inl rfl⟩
  · rintro ⟨hw, hx, rfl | hy⟩
    · refine ⟨by simp, [w, x], 2, rfl, by omega, fun c hc => ?_⟩
      rcases List.mem_pair.mp hc with rfl | rfl
      · exact hw
      · exact hx
    · refine ⟨by simp, [w, x, y], 1, rfl, by omega, fun c hc => ?_⟩
      simp only [List.mem_cons, List.not_mem_nil, or_false] at hc
      rcases hc with rfl | rfl | rfl
      · exact hw
      · exact hx
      · exact hy

/-- What decodes is what is padded. -/
theorem decode_isSome_iff (s : List Byte) : (decode s).isSome ↔ IsPadded s := by
  induction s using decode.induct with
  | case1 => exact ⟨fun _ => ⟨rfl, [], 0, rfl, by omega, fun c hc => nomatch hc⟩, fun _ => rfl⟩
  | case2 w x z rest h =>
    obtain ⟨rfl, rfl⟩ := h
    rw [isPadded_last, ← value_isSome_iff, ← value_isSome_iff]
    cases hw : value w <;> cases hx : value x <;> simp [decode, hw, hx]
  | case3 w x y z rest h hy =>
    obtain ⟨rfl, rfl⟩ := h
    rw [isPadded_last, ← value_isSome_iff, ← value_isSome_iff, ← value_isSome_iff]
    cases hw : value w <;> cases hx : value x <;> cases hv : value y <;>
      simp [decode, hw, hx, hv, hy]
  | case4 w x y z rest h ih =>
    have hrest : rest ≠ [] ∨ z ≠ pad := by
      rcases not_and_or.mp h with h | h
      · exact .inl h
      · exact .inr h
    rw [isPadded_cons hrest, ← ih]
    simp only [← value_isSome_iff]
    cases hw : value w <;> cases hx : value x <;> cases hy : value y <;> cases hz : value z <;>
      cases hd : decode rest <;> simp [decode, h, hw, hx, hy, hz, hd]
  | case5 s h1 h2 =>
    have hs : s.length % 4 ≠ 0 := by
      match s with
      | [] => exact absurd rfl h1
      | [_] => simp
      | [_, _] => simp
      | [_, _, _] => simp
      | w :: x :: y :: z :: rest => exact absurd rfl (h2 w x y z rest)
    have hnone : decode s = none := by
      unfold decode
      split
      · exact absurd rfl h1
      · next w x y z rest => exact absurd rfl (h2 w x y z rest)
      · rfl
    rw [hnone]
    constructor
    · intro h
      cases h
    · intro h
      exact absurd h.1 hs

end Base64

end Tyr
