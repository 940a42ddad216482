import Tyr.Lib.Fallible
import Tyr.Lib.Sextets
import Tyr.Runtime.Base64

/-
  What `tyr_serialize_to_base64` writes and reads.

  `serialize_eq`: with its allocation it returns the length and the base64 text of as many
  bytes behind the header as the header says, the text that RFC 4648 asks for (`serialize_text`).
  The header of a buffer counts itself (`Framed`), so the last eight of these lie behind the
  buffer: `serialize_framed`. Where the memory ends with the buffer the call faults there:
  `serialize_short`. Where the length of the text does not fit into 64 bits the string is too
  small: `serialize_overflow`.
-/

namespace Tyr

namespace Runtime

open Fallible

/-! ## Memory -/

section Memory

variable {host : Bool} {m : List Byte} {n : Nat}

@[simp] theorem length_encodeU64 : (encodeU64 host n).length = 8 := by
  unfold encodeU64 inOrder
  cases host <;> simp

theorem ofLE_encodeU64 (hn : n < 2 ^ 64) : ofLE (inOrder host (encodeU64 host n)) = n := by
  have hinv : inOrder host (encodeU64 host n) = toLE 8 n := by
    unfold encodeU64 inOrder
    cases host <;> simp
  rw [hinv, ofLE_toLE]
  exact Nat.mod_eq_of_lt hn

theorem readU64_encode (hn : n < 2 ^ 64) (rest : List Byte) :
    readU64 host (encodeU64 host n ++ rest) = .ok n := by
  unfold readU64
  rw [if_pos (by simp), List.take_left' length_encodeU64, ofLE_encodeU64 hn]

theorem writeU64_append {head rest : List Byte} (h : head.length = 8) :
    writeU64 host (head ++ rest) n = .ok (encodeU64 host n ++ rest) := by
  unfold writeU64 splice
  rw [if_pos (by rw [List.length_append]; omega), length_encodeU64, List.take_zero,
    List.nil_append, Nat.zero_add, List.drop_left' h]

theorem readByte_eq {x : Byte} {xs : List Byte} {i : Nat} (h : m.drop i = x :: xs) :
    readByte m i = .ok x := by
  have hx : m[i]? = some x := by
    rw [← List.head?_drop, h]
    rfl
  unfold readByte
  rw [hx]

theorem writeByte_append {done todo : List Byte} {b c : Byte} {i : Nat} (h : done.length = i) :
    writeByte (done ++ b :: todo) i c = .ok ((done ++ [c]) ++ todo) := by
  unfold writeByte
  rw [if_pos (by simp; omega), List.set_append_right _ _ (by omega), h, Nat.sub_self]
  simp

theorem readByte_end {i : Nat} (h : m.length ≤ i) : readByte m i = .error (.read i) := by
  unfold readByte
  rw [List.getElem?_eq_none h]

theorem writeByte_end {i : Nat} (b : Byte) (h : m.length ≤ i) :
    writeByte m i b = .error (.write i) := by
  unfold writeByte
  rw [if_neg (by omega)]

end Memory

/-! ## Bits -/

section Bits

/-- Multiplying by a comparison keeps the byte or drops it. -/
theorem flag_mul (b : Bool) (x : Byte) :
    flag b * x.setWidth 32 = (if b then x else 0 : Byte).setWidth 32 := by
  cases b with
  | true => exact BitVec.one_mul (x.setWidth 32)
  | false => exact BitVec.zero_mul

/-- Disjoint bits add up. -/
theorem toNat_or_shiftLeft {p : BitVec 32} {x : BitVec 32} {i : Nat} (hx : x.toNat < 2 ^ i)
    (hp : p.toNat * 2 ^ i + x.toNat < 2 ^ 32) :
    (p <<< i ||| x).toNat = p.toNat * 2 ^ i + x.toNat := by
  rw [BitVec.toNat_or, BitVec.toNat_shiftLeft, Nat.shiftLeft_eq, Nat.mod_eq_of_lt (by omega),
    ← Nat.shiftLeft_eq, ← Nat.shiftLeft_add_eq_or_of_lt hx, Nat.shiftLeft_eq]

theorem toNat_setWidth_byte (x : Byte) : (x.setWidth 32 : BitVec 32).toNat = x.toNat := by
  have hx := x.isLt
  rw [BitVec.toNat_setWidth]
  exact Nat.mod_eq_of_lt (by omega)

theorem toNat_packed (a b c : Byte) :
    (0 ||| a.setWidth 32 <<< (8 * 2) ||| b.setWidth 32 <<< (8 * 1) |||
      c.setWidth 32 <<< (8 * 0) : BitVec 32).toNat = Base64.joinBytes a b c := by
  have ha := a.isLt
  have hb := b.isLt
  have hc := c.isLt
  have hshape : (0 ||| a.setWidth 32 <<< (8 * 2) ||| b.setWidth 32 <<< (8 * 1) |||
      c.setWidth 32 <<< (8 * 0) : BitVec 32) =
      (a.setWidth 32 <<< 8 ||| b.setWidth 32) <<< 8 ||| c.setWidth 32 := by
    rw [BitVec.shiftLeft_or_distrib, ← BitVec.shiftLeft_add]
    simp
  have hab : (a.setWidth 32 <<< 8 ||| b.setWidth 32 : BitVec 32).toNat =
      a.toNat * 2 ^ 8 + b.toNat := by
    rw [toNat_or_shiftLeft (by rw [toNat_setWidth_byte]; exact hb)
      (by rw [toNat_setWidth_byte, toNat_setWidth_byte]; omega), toNat_setWidth_byte,
      toNat_setWidth_byte]
  rw [hshape, toNat_or_shiftLeft (by rw [toNat_setWidth_byte]; exact hc)
    (by rw [hab, toNat_setWidth_byte]; omega), hab, toNat_setWidth_byte]
  rfl

/-- The mask and the shift pick a digit. -/
theorem toNat_masked (p : BitVec 32) {k : Nat} (hk : k ≤ 3) :
    ((p &&& (0b111111 <<< (k * 6))) >>> (k * 6)).toNat = Base64.digitOf p.toNat k := by
  have hmask : ((0b111111 <<< (k * 6) : BitVec 32).toNat) >>> (k * 6) = 63 := by
    interval_cases k <;> rfl
  rw [BitVec.toNat_ushiftRight, BitVec.toNat_and, Nat.shiftRight_and_distrib, hmask,
    Nat.shiftRight_eq_div_pow]
  unfold Base64.digitOf
  rw [show (63 : Nat) = 2 ^ 6 - 1 from rfl, Nat.and_two_pow_sub_one_eq_mod, Nat.mul_comm k 6,
    Nat.pow_mul]

set_option maxRecDepth 4000 in
theorem index_to_char_digit {v : Nat} (hv : v < 64) :
    b64_index_to_char (BitVec.ofNat 32 v) = Base64.digit v := by
  have h : ∀ v : Fin 64, b64_index_to_char (BitVec.ofNat 32 v) = Base64.digit v := by decide
  exact h ⟨v, hv⟩

theorem index_to_char_pad : b64_index_to_char 64 = Base64.pad := by decide

end Bits

/-! ## A group -/

section Group

variable {serialized : List Byte} {serialized_len num_pad b64_len : Nat}

/-- A byte that lies before the length the header gives. -/
def counted (serialized_len i : Nat) (x : Byte) : Byte := if i < serialized_len then x else 0

variable (serialized_len) in
/-- All three bytes are read, whether they count or not. -/
theorem packBytes_eq {i : Nat} {x y z : Byte} {more : List Byte}
    (h : serialized.drop (8 + i) = x :: y :: z :: more) :
    ∃ packed, [2, 1, 0].foldlM (packByte serialized serialized_len) (0, i) =
        .ok (packed, i + 3) ∧
      packed.toNat = Base64.joinBytes (counted serialized_len i x)
        (counted serialized_len (i + 1) y) (counted serialized_len (i + 2) z) := by
  have hy : serialized.drop (8 + (i + 1)) = y :: z :: more := by
    rw [← Nat.add_assoc, ← List.drop_drop, h]
    rfl
  have hz : serialized.drop (8 + (i + 1 + 1)) = z :: more := by
    rw [← Nat.add_assoc, ← List.drop_drop, hy]
    rfl
  refine ⟨_, ?_, toNat_packed _ _ _⟩
  simp only [List.foldlM_cons, List.foldlM_nil, packByte, readByte_eq h, readByte_eq hy,
    readByte_eq hz, flag_mul, ok_bind, pure_bind, counted, decide_eq_true_eq]
  rfl

/-- The first byte behind the memory. -/
theorem packBytes_short {i : Nat} (hi : 8 + i ≤ serialized.length)
    (h : serialized.length < 8 + i + 3) :
    [2, 1, 0].foldlM (packByte serialized serialized_len) (0, i) =
      .error (.read serialized.length) := by
  obtain hlen | hlen | hlen : serialized.length = 8 + i ∨ serialized.length = 8 + i + 1 ∨
      serialized.length = 8 + i + 2 := by omega
  · simp only [List.foldlM_cons, packByte]
    rw [readByte_end hlen.le, error_bind, error_bind, hlen]
  · obtain ⟨x, hx⟩ : ∃ x, serialized.drop (8 + i) = [x] :=
      List.length_eq_one_iff.mp (by rw [List.length_drop]; omega)
    simp only [List.foldlM_cons, packByte, readByte_eq hx, ok_bind, pure_bind]
    rw [readByte_end (by omega), error_bind, error_bind, hlen]
    rfl
  · obtain ⟨x, y, hx⟩ : ∃ x y, serialized.drop (8 + i) = [x, y] :=
      List.length_eq_two.mp (by rw [List.length_drop]; omega)
    have hy : serialized.drop (8 + (i + 1)) = [y] := by
      rw [← Nat.add_assoc, ← List.drop_drop, hx]
      rfl
    simp only [List.foldlM_cons, packByte, readByte_eq hx, readByte_eq hy, ok_bind, pure_bind]
    rw [readByte_end (by omega), error_bind, error_bind, hlen]
    rfl

theorem putChar_eq {packed : BitVec 32} {done todo : List Byte} {b : Byte} {j k : Nat}
    (h : done.length = 8 + j) :
    putChar num_pad b64_len packed (j, done ++ b :: todo) k =
      .ok (j + 1, (done ++ [b64Char num_pad b64_len packed j k]) ++ todo) := by
  unfold putChar
  simp only [writeByte_append h]
  rfl

theorem putChars_eq {packed : BitVec 32} {done todo : List Byte} {t₃ t₂ t₁ t₀ : Byte} {j : Nat}
    (h : done.length = 8 + j) :
    [3, 2, 1, 0].foldlM (putChar num_pad b64_len packed)
        (j, done ++ t₃ :: t₂ :: t₁ :: t₀ :: todo) =
      .ok (j + 4, done ++ ([b64Char num_pad b64_len packed j 3,
        b64Char num_pad b64_len packed (j + 1) 2, b64Char num_pad b64_len packed (j + 2) 1,
        b64Char num_pad b64_len packed (j + 3) 0] ++ todo)) := by
  simp only [List.foldlM_cons, List.foldlM_nil]
  rw [putChar_eq h, ok_bind, putChar_eq (by simp; omega), ok_bind, putChar_eq (by simp; omega),
    ok_bind, putChar_eq (by simp; omega), ok_bind]
  simp [pure, Except.pure]

/-- Before the padding. -/
theorem b64Char_digit {packed : BitVec 32} {j k : Nat} (hk : k ≤ 3) (hlen : b64_len < 2 ^ 64)
    (hj : j + num_pad < b64_len) :
    b64Char num_pad b64_len packed j k = Base64.digit (Base64.digitOf packed.toNat k) := by
  have hsub : (b64_len + 2 ^ 64 - num_pad) % 2 ^ 64 = b64_len - num_pad := by omega
  unfold b64Char
  rw [hsub, if_neg (by omega), ← toNat_masked packed hk,
    ← index_to_char_digit (by rw [toNat_masked packed hk]; exact Base64.digitOf_lt _ _),
    BitVec.ofNat_toNat, BitVec.setWidth_eq]

theorem b64Char_pad {packed : BitVec 32} {j k : Nat} (hlen : b64_len < 2 ^ 64)
    (hpad : num_pad ≤ b64_len) (hj : b64_len ≤ j + num_pad) :
    b64Char num_pad b64_len packed j k = Base64.pad := by
  have hsub : (b64_len + 2 ^ 64 - num_pad) % 2 ^ 64 = b64_len - num_pad := by omega
  unfold b64Char
  rw [hsub, if_pos (by omega), index_to_char_pad]

variable (serialized_len num_pad b64_len) in
theorem encodeGroup_eq {i j : Nat} {x y z : Byte} (t₃ t₂ t₁ t₀ : Byte)
    {more done : List Byte} (todo : List Byte)
    (hread : serialized.drop (8 + i) = x :: y :: z :: more) (hdone : done.length = 8 + j) :
    ∃ packed : BitVec 32,
      packed.toNat = Base64.joinBytes (counted serialized_len i x)
        (counted serialized_len (i + 1) y) (counted serialized_len (i + 2) z) ∧
      encodeGroup serialized serialized_len num_pad b64_len
          ⟨i, j, done ++ t₃ :: t₂ :: t₁ :: t₀ :: todo⟩ =
        .ok ⟨i + 3, j + 4, done ++ ([b64Char num_pad b64_len packed j 3,
          b64Char num_pad b64_len packed (j + 1) 2, b64Char num_pad b64_len packed (j + 2) 1,
          b64Char num_pad b64_len packed (j + 3) 0] ++ todo)⟩ := by
  obtain ⟨packed, hpack, hvalue⟩ := packBytes_eq serialized_len hread
  refine ⟨packed, hvalue, ?_⟩
  unfold encodeGroup
  simp only [hpack, ok_bind, putChars_eq hdone]
  rfl

theorem encodeGroup_full {i j : Nat} {x y z : Byte} {more done : List Byte}
    (hread : serialized.drop (8 + i) = x :: y :: z :: more) (hdone : done.length = 8 + j) :
    encodeGroup serialized serialized_len num_pad b64_len ⟨i, j, done⟩ =
      .error (.write (8 + j)) := by
  obtain ⟨packed, hpack, -⟩ := packBytes_eq serialized_len hread
  unfold encodeGroup
  simp only [hpack, ok_bind, List.foldlM_cons, putChar]
  rw [writeByte_end _ (by omega), error_bind, error_bind]
  rfl

end Group

/-! ## The loop -/

section Loop

variable {serialized : List Byte} {serialized_len num_pad b64_len : Nat}

theorem encodeGroups_succ (n : Nat) (st : Encoding) :
    encodeGroups serialized serialized_len num_pad b64_len (n + 1) st =
      (encodeGroup serialized serialized_len num_pad b64_len st).bind
        (encodeGroups serialized serialized_len num_pad b64_len n) := rfl

theorem exists_pair {l : List Byte} (h : 2 ≤ l.length) : ∃ x y more, l = x :: y :: more := by
  match l, h with
  | x :: y :: more, _ => exact ⟨x, y, more, rfl⟩

theorem exists_group {l : List Byte} (h : 3 ≤ l.length) :
    ∃ x y z more, l = x :: y :: z :: more := by
  match l, h with
  | x :: y :: z :: more, _ => exact ⟨x, y, z, more, rfl⟩

variable (serialized_len num_pad b64_len) in
/-- One group of the loop, in a buffer that has room for it. -/
theorem encodeGroups_step (n : Nat) {q i j : Nat} {x y z : Byte} {more done todo : List Byte}
    (hread : serialized.drop (8 + i) = x :: y :: z :: more) (hdone : done.length = 8 + j)
    (htodo : todo.length = 4 * (q + 1)) :
    ∃ (packed : BitVec 32) (todo' : List Byte), todo'.length = 4 * q ∧
      packed.toNat = Base64.joinBytes (counted serialized_len i x)
        (counted serialized_len (i + 1) y) (counted serialized_len (i + 2) z) ∧
      encodeGroups serialized serialized_len num_pad b64_len (n + 1) ⟨i, j, done ++ todo⟩ =
        encodeGroups serialized serialized_len num_pad b64_len n
          ⟨i + 3, j + 4, done ++ ([b64Char num_pad b64_len packed j 3,
            b64Char num_pad b64_len packed (j + 1) 2, b64Char num_pad b64_len packed (j + 2) 1,
            b64Char num_pad b64_len packed (j + 3) 0] ++ todo')⟩ := by
  have hroom : 4 ≤ todo.length := by omega
  match todo, hroom with
  | t₃ :: t₂ :: t₁ :: t₀ :: todo', _ =>
    obtain ⟨packed, hvalue, hgroup⟩ :=
      encodeGroup_eq serialized_len num_pad b64_len t₃ t₂ t₁ t₀ todo' hread hdone
    refine ⟨packed, todo', ?_, hvalue, ?_⟩
    · simp only [List.length_cons] at htodo
      omega
    · show _ >>= _ = _
      rw [hgroup, ok_bind]

variable (serialized serialized_len num_pad b64_len)

/-- By induction on the groups of the bytes that are left. -/
theorem encodeGroups_eq (hlen : b64_len < 2 ^ 64) (data : List Byte) :
    ∀ (r i j : Nat) (junk done todo : List Byte),
      serialized.drop (8 + i) = data ++ junk → i + data.length = serialized_len →
      num_pad + data.length = 3 * r → num_pad ≤ 2 → num_pad ≤ junk.length →
      done.length = 8 + j → j + 4 * r = b64_len → todo.length = 4 * r →
      encodeGroups serialized serialized_len num_pad b64_len r ⟨i, j, done ++ todo⟩ =
        .ok ⟨i + 3 * r, b64_len, done ++ Base64.encode data⟩ := by
  induction data using Base64.encode.induct with
  | case1 =>
    intro r i j junk done todo _ _ hpad hle _ _ hj htodo
    obtain rfl : r = 0 := by
      simp only [List.length_nil] at hpad
      omega
    obtain rfl : todo = [] := List.length_eq_zero_iff.mp htodo
    obtain rfl : j = b64_len := hj
    rfl
  | case2 a =>
    intro r i j junk done todo hread hi hpad hle hjunk hdone hj htodo
    simp only [List.length_singleton] at hi hpad
    obtain rfl : r = 0 + 1 := by omega
    have hroom : 2 ≤ junk.length := by omega
    obtain ⟨y, z, junk, rfl⟩ := exists_pair hroom
    obtain ⟨packed, todo', htodo', hvalue, hstep⟩ := encodeGroups_step
      serialized_len num_pad b64_len 0 hread hdone htodo
    obtain rfl : todo' = [] := List.length_eq_zero_iff.mp htodo'
    simp only [counted, show i < serialized_len by omega,
      show ¬ i + 1 < serialized_len by omega, show ¬ i + 2 < serialized_len by omega,
      if_true, if_false] at hvalue
    rw [hstep, b64Char_digit (by omega) hlen (by omega),
      b64Char_digit (by omega) hlen (by omega), b64Char_pad hlen (by omega) (by omega),
      b64Char_pad hlen (by omega) (by omega), hvalue, ← hj]
    rfl
  | case3 a b =>
    intro r i j junk done todo hread hi hpad hle hjunk hdone hj htodo
    simp only [List.length_cons, List.length_nil] at hi hpad
    obtain rfl : r = 0 + 1 := by omega
    have hroom : 1 ≤ junk.length := by omega
    obtain ⟨z, junk, rfl⟩ := List.exists_cons_of_length_pos hroom
    obtain ⟨packed, todo', htodo', hvalue, hstep⟩ := encodeGroups_step
      serialized_len num_pad b64_len 0 hread hdone htodo
    obtain rfl : todo' = [] := List.length_eq_zero_iff.mp htodo'
    simp only [counted, show i < serialized_len by omega,
      show i + 1 < serialized_len by omega, show ¬ i + 2 < serialized_len by omega,
      if_true, if_false] at hvalue
    rw [hstep, b64Char_digit (by omega) hlen (by omega),
      b64Char_digit (by omega) hlen (by omega), b64Char_digit (by omega) hlen (by omega),
      b64Char_pad hlen (by omega) (by omega), hvalue, ← hj]
    rfl
  | case4 a b c rest ih =>
    intro r i j junk done todo hread hi hpad hle hjunk hdone hj htodo
    simp only [List.length_cons] at hi hpad
    obtain ⟨r, rfl⟩ : ∃ n, r = n + 1 := ⟨r - 1, by omega⟩
    obtain ⟨packed, todo', htodo', hvalue, hstep⟩ := encodeGroups_step
      serialized_len num_pad b64_len r hread hdone htodo
    simp only [counted, show i < serialized_len by omega, show i + 1 < serialized_len by omega,
      show i + 2 < serialized_len by omega, if_true] at hvalue
    have hread' : serialized.drop (8 + (i + 3)) = rest ++ junk := by
      rw [← Nat.add_assoc, ← List.drop_drop, hread]
      rfl
    have hi' : i + 3 * (r + 1) = i + 3 + 3 * r := by omega
    rw [hstep, b64Char_digit (by omega) hlen (by omega),
      b64Char_digit (by omega) hlen (by omega), b64Char_digit (by omega) hlen (by omega),
      b64Char_digit (by omega) hlen (by omega), hvalue, hi', Base64.encode, ← List.append_assoc,
      ← List.append_assoc]
    exact ih r (i + 3) (j + 4) junk _ todo' hread' (by omega) (by omega) hle hjunk
      (by rw [List.length_append, hdone]; rfl) (by omega) htodo'

/-- Where the memory ends within the groups. -/
theorem encodeGroups_short (n : Nat) : ∀ (i j : Nat) (done todo : List Byte),
    8 + i ≤ serialized.length → serialized.length < 8 + i + 3 * n → done.length = 8 + j →
    todo.length = 4 * n →
    encodeGroups serialized serialized_len num_pad b64_len n ⟨i, j, done ++ todo⟩ =
      .error (.read serialized.length) := by
  induction n with
  | zero =>
    intro i j done todo hi hlt
    omega
  | succ n ih =>
    intro i j done todo hi hlt hdone htodo
    by_cases hgroup : serialized.length < 8 + i + 3
    · rw [encodeGroups_succ]
      unfold encodeGroup
      rw [packBytes_short hi hgroup]
      rfl
    · obtain ⟨x, y, z, more, hread⟩ := exists_group (l := serialized.drop (8 + i))
        (by rw [List.length_drop]; omega)
      obtain ⟨packed, todo', htodo', -, hstep⟩ := encodeGroups_step
        serialized_len num_pad b64_len n hread hdone htodo
      rw [hstep, ← List.append_assoc]
      exact ih (i + 3) (j + 4) _ todo' (by omega) (by omega)
        (by rw [List.length_append, hdone]; rfl) htodo'

/-- Where the buffer ends before the groups do. -/
theorem encodeGroups_full (n : Nat) : ∀ (q i j : Nat) (done todo : List Byte),
    q < n → 8 + i + 3 * (q + 1) ≤ serialized.length → done.length = 8 + j →
    todo.length = 4 * q →
    ∃ k, encodeGroups serialized serialized_len num_pad b64_len n ⟨i, j, done ++ todo⟩ =
      .error (.write k) := by
  induction n with
  | zero =>
    intro q i j done todo hq
    omega
  | succ n ih =>
    intro q i j done todo hq hread hdone htodo
    obtain ⟨x, y, z, more, hgroup⟩ := exists_group (l := serialized.drop (8 + i))
      (by rw [List.length_drop]; omega)
    cases q with
    | zero =>
      obtain rfl : todo = [] := List.length_eq_zero_iff.mp htodo
      rw [encodeGroups_succ, List.append_nil, encodeGroup_full hgroup hdone]
      exact ⟨_, rfl⟩
    | succ q =>
      obtain ⟨packed, todo', htodo', -, hstep⟩ := encodeGroups_step
        serialized_len num_pad b64_len n hgroup hdone htodo
      rw [hstep, ← List.append_assoc]
      exact ih q (i + 3) (j + 4) _ todo' (by omega) (by omega)
        (by rw [List.length_append, hdone]; rfl) htodo'

end Loop

/-! ## The whole function -/

section Serialize

variable {α : Type} {host : Bool} {alloc : Nat → Bool} {s : α → Option (List Byte)} {p : α}
variable {L : Nat}

/-- The length of the base64 text of `L` bytes. -/
def textLength (L : Nat) : Nat := 4 * ((L + 2) / 3)

/-- The zero bytes that fill up the last group. -/
def padLength (L : Nat) : Nat := (3 - L % 3) % 3

theorem padLength_add (L : Nat) : padLength L + L = 3 * ((L + 2) / 3) := by
  unfold padLength
  omega

theorem packed_size_eq (L : Nat) : (L / 3 + if L % 3 ≠ 0 then 1 else 0) = (L + 2) / 3 := by
  split <;> omega

/-- Up to the loop. -/
theorem serialize_start {mem : List Byte} (hs : s p = some (encodeU64 host L ++ mem))
    (hL : L < 2 ^ 64) (hlen : textLength L + 8 < 2 ^ 64) (halloc : alloc (textLength L + 8)) :
    tyr_serialize_to_base64 host alloc s p =
      (encodeGroups (encodeU64 host L ++ mem) L (padLength L) (textLength L) ((L + 2) / 3)
        ⟨0, 0, encodeU64 host (textLength L) ++ List.replicate (textLength L) 0⟩ >>= fun st =>
          pure (some st.b64_str)) := by
  have htext : (L + 2) / 3 * 4 % 2 ^ 64 = textLength L := by
    unfold textLength at *
    omega
  have hsize : (textLength L + 8) % 2 ^ 64 = textLength L + 8 := Nat.mod_eq_of_lt hlen
  unfold tyr_serialize_to_base64
  simp only [hs, readU64_encode hL, ok_bind, packed_size_eq, htext, hsize]
  unfold allocateZeroed
  rw [if_pos halloc, ok_bind, Nat.add_comm, List.replicate_add, writeU64_append (by simp),
    ok_bind]
  rfl

/-- The header counts itself, and so many bytes are encoded from behind it on. -/
theorem serialize_eq {data junk : List Byte} (hs : s p = some (encodeU64 host L ++ (data ++ junk)))
    (hdata : data.length = L) (hjunk : padLength L ≤ junk.length)
    (hlen : textLength L + 8 < 2 ^ 64) (halloc : alloc (textLength L + 8)) :
    tyr_serialize_to_base64 host alloc s p =
      .ok (some (encodeU64 host (textLength L) ++ Base64.encode data)) := by
  have hL : L < 2 ^ 64 := by
    unfold textLength at hlen
    omega
  have hpad := padLength_add L
  have hgroups := encodeGroups_eq (encodeU64 host L ++ (data ++ junk)) L (padLength L)
    (textLength L) (by omega) data ((L + 2) / 3) 0 0 junk (encodeU64 host (textLength L))
    (List.replicate (textLength L) 0)
    (List.drop_left' length_encodeU64) (by omega) (by omega) (by unfold padLength; omega) hjunk
    length_encodeU64 (Nat.zero_add _) (by rw [List.length_replicate]; rfl)
  rw [serialize_start hs hL hlen halloc, hgroups]
  rfl

/-- What stands behind the length is the text of RFC 4648, and the block is exactly filled. -/
theorem serialize_text {data junk : List Byte}
    (hs : s p = some (encodeU64 host data.length ++ (data ++ junk)))
    (hjunk : padLength data.length ≤ junk.length)
    (hlen : 4 * ((data.length + 2) / 3) + 8 < 2 ^ 64)
    (halloc : alloc (4 * ((data.length + 2) / 3) + 8)) :
    ∃ block, tyr_serialize_to_base64 host alloc s p = .ok (some block) ∧
      block.length = 4 * ((data.length + 2) / 3) + 8 ∧
      readU64 host block = .ok (4 * ((data.length + 2) / 3)) ∧
      block.drop 8 = Base64.text data := by
  have hrun := serialize_eq hs rfl hjunk hlen halloc
  rw [Base64.encode_eq_text] at hrun
  refine ⟨_, hrun, ?_, ?_, ?_⟩
  · rw [List.length_append, length_encodeU64, ← Base64.encode_eq_text, Base64.length_encode,
      Nat.add_comm]
  · exact readU64_encode (by unfold textLength; omega) _
  · exact List.drop_left' length_encodeU64

/-- Two bytes with the last two digits of the alphabet, and whatever follows them. -/
theorem serialize_text_pair :
    ∃ block, tyr_serialize_to_base64 false (fun _ => true)
        (fun _ : Unit => some (encodeU64 false 2 ++ ([0xfb, 0xff] ++ [7]))) () = .ok (some block) ∧
      block.length = 12 ∧ readU64 false block = .ok 4 ∧ block.drop 8 = [45, 95, 56, 61] := by
  obtain ⟨block, hrun, hlength, hread, htext⟩ := @serialize_text Unit false (fun _ => true)
    (fun _ => some (encodeU64 false 2 ++ ([0xfb, 0xff] ++ [7]))) () [0xfb, 0xff] [7] rfl
    (by decide) (by decide) rfl
  exact ⟨block, hrun, hlength, hread, htext.trans (by decide)⟩

theorem serialize_short {mem : List Byte} (hs : s p = some (encodeU64 host L ++ mem))
    (hmem : mem.length < L) (hL : L < 2 ^ 64) (hlen : textLength L + 8 < 2 ^ 64)
    (halloc : alloc (textLength L + 8)) :
    tyr_serialize_to_base64 host alloc s p = .error (.read (8 + mem.length)) := by
  have hlength : (encodeU64 host L ++ mem).length = 8 + mem.length := by
    rw [List.length_append, length_encodeU64]
  have hgroups := encodeGroups_short (encodeU64 host L ++ mem) L (padLength L)
    (textLength L) ((L + 2) / 3) 0 0 (encodeU64 host (textLength L))
    (List.replicate (textLength L) 0) (by omega) (by omega)
    length_encodeU64 (by rw [List.length_replicate]; rfl)
  rw [serialize_start hs hL hlen halloc, hgroups, hlength]
  rfl

theorem serialize_null {mem : List Byte} (hs : s p = some (encodeU64 host L ++ mem))
    (hL : L < 2 ^ 64) (hlen : textLength L + 8 < 2 ^ 64) (halloc : ¬ alloc (textLength L + 8)) :
    tyr_serialize_to_base64 host alloc s p = .error .null := by
  have htext : (L + 2) / 3 * 4 % 2 ^ 64 = textLength L := by
    unfold textLength at *
    omega
  unfold tyr_serialize_to_base64
  simp only [hs, readU64_encode hL, ok_bind, packed_size_eq, htext]
  unfold allocateZeroed
  rw [Nat.mod_eq_of_lt hlen, if_neg halloc, error_bind]

/-- The string is allocated too small, and the call fails long before the buffer ends. -/
theorem serialize_overflow {mem : List Byte} (hs : s p = some (encodeU64 host L ++ mem))
    (hL : L < 2 ^ 64) (hmem : L ≤ 8 + mem.length) (hlen : 2 ^ 64 ≤ textLength L + 8) :
    ∃ e, tyr_serialize_to_base64 host alloc s p = .error e ∧ ∀ i, e ≠ .read i := by
  unfold tyr_serialize_to_base64
  simp only [hs, readU64_encode hL, ok_bind, packed_size_eq]
  unfold allocateZeroed
  split
  · rw [ok_bind]
    by_cases hwrap : 2 ^ 64 ≤ (L + 2) / 3 * 4
    · -- room for the groups that the length of the text is too large by
      obtain ⟨q, hq⟩ : ∃ q, (L + 2) / 3 * 4 % 2 ^ 64 = 4 * q :=
        ⟨(L + 2) / 3 * 4 % 2 ^ 64 / 4, by omega⟩
      have hsize : (4 * q + 8) % 2 ^ 64 = 8 + 4 * q := by omega
      obtain ⟨k, hgroups⟩ := encodeGroups_full (encodeU64 host L ++ mem) L
        ((3 - L % 3) % 3) (4 * q) ((L + 2) / 3) q 0 0 (encodeU64 host (4 * q))
        (List.replicate (4 * q) 0) (by omega)
        (by rw [List.length_append, length_encodeU64]; omega) length_encodeU64
        List.length_replicate
      rw [hq, hsize, List.replicate_add, writeU64_append (by simp), ok_bind, hgroups]
      exact ⟨_, rfl, fun i h => nomatch h⟩
    · have hsmall : ((L + 2) / 3 * 4 % 2 ^ 64 + 8) % 2 ^ 64 < 8 := by
        unfold textLength at hlen
        omega
      unfold writeU64
      rw [if_neg (by rw [List.length_replicate]; omega), error_bind]
      exact ⟨_, rfl, fun i h => nomatch h⟩
  · exact ⟨.null, rfl, fun i h => nomatch h⟩

end Serialize

/-! ## A buffer that starts with its length -/

/-- The header is the length of the whole buffer, itself included. -/
structure Framed (host : Bool) (B : List Byte) : Prop where
  le : 8 ≤ B.length
  header : ofLE (inOrder host (B.take 8)) = B.length

namespace Framed

variable {host : Bool} {B : List Byte}

theorem length_header (hB : Framed host B) : (inOrder host (B.take 8)).length = 8 := by
  rw [length_inOrder, List.length_take]
  exact Nat.min_eq_left hB.le

theorem lt (hB : Framed host B) : B.length < 2 ^ 64 := by
  have hlt := ofLE_lt (inOrder host (B.take 8))
  rw [hB.length_header, hB.header] at hlt
  exact hlt

theorem eq_append (hB : Framed host B) : B = encodeU64 host B.length ++ B.drop 8 := by
  have hle := toLE_ofLE (inOrder host (B.take 8))
  rw [hB.length_header, hB.header] at hle
  have hhead : encodeU64 host B.length = B.take 8 := by
    unfold encodeU64
    rw [hle, inOrder_inOrder]
  rw [hhead, List.take_append_drop]

end Framed

section Framed

variable {α : Type} {host : Bool} {alloc : Nat → Bool} {s : α → Option (List Byte)} {p : α}
variable {B rest : List Byte}

/-- The encoded bytes are eight off. -/
theorem serialize_framed (hB : Framed host B) (hs : s p = some (B ++ rest))
    (hrest : padLength B.length + 8 ≤ rest.length) (hlen : textLength B.length + 8 < 2 ^ 64)
    (halloc : alloc (textLength B.length + 8)) :
    tyr_serialize_to_base64 host alloc s p =
      .ok (some (encodeU64 host (textLength B.length) ++
        Base64.encode (B.drop 8 ++ rest.take 8))) := by
  have hle := hB.le
  have hmem : B ++ rest =
      encodeU64 host B.length ++ ((B.drop 8 ++ rest.take 8) ++ rest.drop 8) := by
    rw [List.append_assoc, List.take_append_drop, ← List.append_assoc, ← hB.eq_append]
  rw [hmem] at hs
  refine serialize_eq hs ?_ ?_ hlen halloc
  · rw [List.length_append, List.length_drop, List.length_take]
    omega
  · rw [List.length_drop]
    omega

end Framed

end Runtime

end Tyr
