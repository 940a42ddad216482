import Tyr.Runtime.Encode

/-
  What `tyr_deserialize_from_base64` hands to the deserializer.

  `decodeGroups_eq`: a text that has a decoding leaves the decoded bytes and zeros where the
  padding stood, and its padding counted. `decodeGroups_total`: any text gets through, since the
  read index never passes the group. `deserialize_eq` is the call on a text that has a decoding,
  `deserialize_total` the call on any other.
-/

namespace Tyr

namespace Runtime

open Fallible

/-! ## Bits -/

section Bits

set_option maxRecDepth 4000 in
theorem char_to_index_digit {v : Nat} (hv : v < 64) :
    b64_char_to_index (Base64.digit v) = BitVec.ofNat 32 v := by
  have h : ∀ v : Fin 64, b64_char_to_index (Base64.digit v) = BitVec.ofNat 32 v := by decide
  exact h ⟨v, hv⟩

theorem char_to_index_value {c : Byte} {v : Nat} (h : Base64.value c = some v) :
    b64_char_to_index c = BitVec.ofNat 32 v := by
  rw [← Base64.digit_value h, char_to_index_digit (Base64.value_lt h)]

theorem char_to_index_pad : b64_char_to_index Base64.pad = 64 := by decide

theorem toNat_ofNat_digit {v : Nat} (hv : v < 64) : (BitVec.ofNat 32 v).toNat = v := by
  rw [BitVec.toNat_ofNat]
  exact Nat.mod_eq_of_lt (by omega)

theorem toNat_joined {w x y z : Nat} (hw : w < 64) (hx : x < 64) (hy : y < 64) (hz : z < 64) :
    (0 ||| BitVec.ofNat 32 w <<< (6 * 3) ||| BitVec.ofNat 32 x <<< (6 * 2) |||
      BitVec.ofNat 32 y <<< (6 * 1) ||| BitVec.ofNat 32 z <<< (6 * 0) : BitVec 32).toNat =
      Base64.joinDigits w x y z := by
  have hshape : (0 ||| BitVec.ofNat 32 w <<< (6 * 3) ||| BitVec.ofNat 32 x <<< (6 * 2) |||
      BitVec.ofNat 32 y <<< (6 * 1) ||| BitVec.ofNat 32 z <<< (6 * 0) : BitVec 32) =
      ((BitVec.ofNat 32 w <<< 6 ||| BitVec.ofNat 32 x) <<< 6 ||| BitVec.ofNat 32 y) <<< 6 |||
        BitVec.ofNat 32 z := by
    rw [BitVec.shiftLeft_or_distrib, BitVec.shiftLeft_or_distrib, BitVec.shiftLeft_or_distrib,
      ← BitVec.shiftLeft_add, ← BitVec.shiftLeft_add, ← BitVec.shiftLeft_add]
    simp
  have hwx : (BitVec.ofNat 32 w <<< 6 ||| BitVec.ofNat 32 x).toNat = w * 2 ^ 6 + x := by
    rw [toNat_or_shiftLeft (by rw [toNat_ofNat_digit hx]; exact hx)
      (by rw [toNat_ofNat_digit hw, toNat_ofNat_digit hx]; omega), toNat_ofNat_digit hw,
      toNat_ofNat_digit hx]
  have hwxy : ((BitVec.ofNat 32 w <<< 6 ||| BitVec.ofNat 32 x) <<< 6 |||
      BitVec.ofNat 32 y).toNat = (w * 2 ^ 6 + x) * 2 ^ 6 + y := by
    rw [toNat_or_shiftLeft (by rw [toNat_ofNat_digit hy]; exact hy)
      (by rw [hwx, toNat_ofNat_digit hy]; omega), hwx, toNat_ofNat_digit hy]
  rw [hshape, toNat_or_shiftLeft (by rw [toNat_ofNat_digit hz]; exact hz)
    (by rw [hwxy, toNat_ofNat_digit hz]; omega), hwxy, toNat_ofNat_digit hz]
  rfl

theorem masked_byte (p : BitVec 32) {k : Nat} (hk : k ≤ 2) :
    ((p &&& (0xff <<< (8 * k))) >>> (8 * k)).setWidth 8 = Base64.byteOf p.toNat k := by
  have hmask : ((0xff <<< (8 * k) : BitVec 32).toNat) >>> (8 * k) = 2 ^ 8 - 1 := by
    interval_cases k <;> rfl
  apply BitVec.eq_of_toNat_eq
  rw [BitVec.toNat_setWidth, BitVec.toNat_ushiftRight, BitVec.toNat_and,
    Nat.shiftRight_and_distrib, hmask, Nat.and_two_pow_sub_one_eq_mod, Nat.mod_mod,
    Nat.shiftRight_eq_div_pow, Nat.pow_mul]
  unfold Base64.byteOf
  rw [BitVec.toNat_ofNat]

end Bits

/-- Padding adds no bits. -/
theorem or_zero_shiftLeft (p : BitVec 32) (k : Nat) : p ||| BitVec.ofNat 32 0 <<< k = p := by
  simp

/-! ## A group -/

section Group

variable {b64 : List Byte} {c : Byte} {more : List Byte} {i j v : Nat} {packed : BitVec 32}
variable {num_pad : BitVec 8}

theorem drop_next {l : List Byte} (h : l.drop (8 + i) = c :: more) :
    l.drop (8 + (i + 1)) = more := by
  rw [← Nat.add_assoc, ← List.drop_drop, h]
  rfl

theorem takeChar_digit (h : b64.drop (8 + i) = c :: more) (hc : Base64.value c = some v) :
    takeChar b64 (packed, i, num_pad) j =
      .ok (packed ||| BitVec.ofNat 32 v <<< (6 * j), i + 1, num_pad) := by
  have hv := Base64.value_lt hc
  have hne : BitVec.ofNat 32 v ≠ 64 := by
    intro h64
    have hnat := congrArg BitVec.toNat h64
    rw [toNat_ofNat_digit hv] at hnat
    exact absurd hnat (Nat.ne_of_lt hv)
  have hflag : flag true * BitVec.ofNat 32 v = BitVec.ofNat 32 v := BitVec.one_mul _
  unfold takeChar
  simp only [readByte_eq h, ok_bind, char_to_index_value hc, hne, if_false, ne_eq,
    not_false_eq_true, decide_true, hflag]
  rfl

/-- The index stays at the padding. -/
theorem takeChar_pad (h : b64.drop (8 + i) = Base64.pad :: more) :
    takeChar b64 (packed, i, num_pad) j = .ok (packed, i, num_pad + 1) := by
  unfold takeChar
  simp only [readByte_eq h, ok_bind, char_to_index_pad, if_true]
  rfl

section TakeChars

variable (num_pad) {w x y z : Byte} {t u q : Nat}

theorem takeChars_full (h : b64.drop (8 + i) = w :: x :: y :: z :: more)
    (hw : Base64.value w = some t) (hx : Base64.value x = some u) (hy : Base64.value y = some v)
    (hz : Base64.value z = some q) :
    ∃ packed, [3, 2, 1, 0].foldlM (takeChar b64) (0, i, num_pad) =
        .ok (packed, i + 4, num_pad) ∧ packed.toNat = Base64.joinDigits t u v q := by
  have h₁ := drop_next h
  have h₂ := drop_next h₁
  have h₃ := drop_next h₂
  refine ⟨_, ?_, toNat_joined (Base64.value_lt hw) (Base64.value_lt hx) (Base64.value_lt hy)
    (Base64.value_lt hz)⟩
  simp only [List.foldlM_cons, List.foldlM_nil]
  rw [takeChar_digit h hw, ok_bind, takeChar_digit h₁ hx, ok_bind, takeChar_digit h₂ hy, ok_bind,
    takeChar_digit h₃ hz, ok_bind]
  rfl

theorem takeChars_one (h : b64.drop (8 + i) = w :: x :: y :: Base64.pad :: more)
    (hw : Base64.value w = some t) (hx : Base64.value x = some u) (hy : Base64.value y = some v) :
    ∃ packed, [3, 2, 1, 0].foldlM (takeChar b64) (0, i, num_pad) =
        .ok (packed, i + 3, num_pad + 1) ∧ packed.toNat = Base64.joinDigits t u v 0 := by
  have h₁ := drop_next h
  have h₂ := drop_next h₁
  have h₃ := drop_next h₂
  refine ⟨_, ?_, toNat_joined (Base64.value_lt hw) (Base64.value_lt hx) (Base64.value_lt hy)
    (by omega)⟩
  simp only [List.foldlM_cons, List.foldlM_nil, or_zero_shiftLeft]
  rw [takeChar_digit h hw, ok_bind, takeChar_digit h₁ hx, ok_bind, takeChar_digit h₂ hy, ok_bind,
    takeChar_pad h₃, ok_bind]
  rfl

/-- The second padding character is not looked at: the first is, twice. -/
theorem takeChars_two (h : b64.drop (8 + i) = w :: x :: Base64.pad :: more)
    (hw : Base64.value w = some t) (hx : Base64.value x = some u) :
    ∃ packed, [3, 2, 1, 0].foldlM (takeChar b64) (0, i, num_pad) =
        .ok (packed, i + 2, num_pad + 1 + 1) ∧ packed.toNat = Base64.joinDigits t u 0 0 := by
  have h₁ := drop_next h
  have h₂ := drop_next h₁
  refine ⟨_, ?_, toNat_joined (Base64.value_lt hw) (Base64.value_lt hx) (by omega) (by omega)⟩
  simp only [List.foldlM_cons, List.foldlM_nil, or_zero_shiftLeft]
  rw [takeChar_digit h hw, ok_bind, takeChar_digit h₁ hx, ok_bind, takeChar_pad h₂, ok_bind,
    takeChar_pad h₂, ok_bind]
  rfl

end TakeChars

theorem putByte_eq {done todo : List Byte} {t : Byte} {m k : Nat} (hk : k ≤ 2)
    (h : done.length = 8 + m) :
    putByte packed (m, done ++ t :: todo) k =
      .ok (m + 1, (done ++ [Base64.byteOf packed.toNat k]) ++ todo) := by
  unfold putByte
  simp only [writeByte_append h, masked_byte packed hk]
  rfl

theorem decodeGroup_eq {done todo : List Byte} {t₂ t₁ t₀ : Byte} {i' m : Nat}
    {num_pad' : BitVec 8}
    (htake : [3, 2, 1, 0].foldlM (takeChar b64) (0, i, num_pad) = .ok (packed, i', num_pad'))
    (hdone : done.length = 8 + m) :
    decodeGroup b64 ⟨i, m, num_pad, done ++ t₂ :: t₁ :: t₀ :: todo⟩ =
      .ok ⟨i', m + 3, num_pad', done ++ ([Base64.byteOf packed.toNat 2,
        Base64.byteOf packed.toNat 1, Base64.byteOf packed.toNat 0] ++ todo)⟩ := by
  unfold decodeGroup
  simp only [htake, ok_bind, List.foldlM_cons, List.foldlM_nil]
  rw [putByte_eq (by omega) hdone, ok_bind, putByte_eq (by omega) (by simp; omega), ok_bind,
    putByte_eq (by omega) (by simp; omega), ok_bind]
  simp [pure, Except.pure]

end Group

/-! ## The loop -/

section Loop

variable {b64 : List Byte}

/-- One group of the loop, in a buffer that has room for it. -/
theorem decodeGroups_step {n i i' m : Nat} {packed : BitVec 32} {num_pad num_pad' : BitVec 8}
    {done todo : List Byte}
    (htake : [3, 2, 1, 0].foldlM (takeChar b64) (0, i, num_pad) = .ok (packed, i', num_pad'))
    (hdone : done.length = 8 + m) (htodo : todo.length = 3 * (n + 1)) :
    ∃ todo', todo'.length = 3 * n ∧
      decodeGroups b64 (n + 1) ⟨i, m, num_pad, done ++ todo⟩ =
        decodeGroups b64 n ⟨i', m + 3, num_pad', done ++ ([Base64.byteOf packed.toNat 2,
          Base64.byteOf packed.toNat 1, Base64.byteOf packed.toNat 0] ++ todo')⟩ := by
  have hroom : 3 ≤ todo.length := by omega
  match todo, hroom with
  | t₂ :: t₁ :: t₀ :: todo', _ =>
    refine ⟨todo', ?_, ?_⟩
    · simp only [List.length_cons] at htodo
      omega
    · show _ >>= _ = _
      rw [decodeGroup_eq htake hdone, ok_bind]

variable (b64) in
/-- By induction on the groups of the text that is left. -/
theorem decodeGroups_eq (text : List Byte) :
    ∀ (bytes : List Byte) (r i m : Nat) (num_pad : BitVec 8) (junk done todo : List Byte),
      Base64.decode text = some bytes → b64.drop (8 + i) = text ++ junk →
      text.length = 4 * r → done.length = 8 + m → todo.length = 3 * r →
      ∃ (k : Nat) (tail : List Byte) (st : Decoding), k ≤ 2 ∧ bytes.length + k = 3 * r ∧
        decodeGroups b64 r ⟨i, m, num_pad, done ++ todo⟩ = .ok st ∧
        st.num_pad = num_pad + BitVec.ofNat 8 k ∧
        st.decoded_serialized = done ++ (bytes ++ tail) ∧ tail.length = k := by
  induction text using Base64.decode.induct with
  | case1 =>
    intro bytes r i m num_pad junk done todo hdecode hread hlen hdone htodo
    obtain rfl : [] = bytes := Option.some.inj hdecode
    obtain rfl : r = 0 := by
      simp only [List.length_nil] at hlen
      omega
    obtain rfl : todo = [] := List.length_eq_zero_iff.mp htodo
    exact ⟨0, [], _, by omega, rfl, rfl, by simp, rfl, rfl⟩
  | case2 w x z rest h =>
    intro bytes r i m num_pad junk done todo hdecode hread hlen hdone htodo
    obtain ⟨rfl, rfl⟩ := h
    obtain ⟨t, u, hw, hx, rfl⟩ := Base64.decode_two.mp hdecode
    obtain rfl : r = 0 + 1 := by
      simp only [List.length_cons, List.length_nil] at hlen
      omega
    obtain ⟨packed, htake, hvalue⟩ := takeChars_two num_pad hread hw hx
    obtain ⟨todo', htodo', hstep⟩ := decodeGroups_step htake hdone htodo
    obtain rfl : todo' = [] := List.length_eq_zero_iff.mp htodo'
    rw [hvalue] at hstep
    refine ⟨2, _, _, le_rfl, rfl, hstep, ?_, rfl, rfl⟩
    rw [BitVec.add_assoc]
    rfl
  | case3 w x y z rest h hy =>
    intro bytes r i m num_pad junk done todo hdecode hread hlen hdone htodo
    obtain ⟨rfl, rfl⟩ := h
    obtain ⟨t, u, v, hw, hx, hy', rfl⟩ := (Base64.decode_one hy).mp hdecode
    obtain rfl : r = 0 + 1 := by
      simp only [List.length_cons, List.length_nil] at hlen
      omega
    obtain ⟨packed, htake, hvalue⟩ := takeChars_one num_pad hread hw hx hy'
    obtain ⟨todo', htodo', hstep⟩ := decodeGroups_step htake hdone htodo
    obtain rfl : todo' = [] := List.length_eq_zero_iff.mp htodo'
    rw [hvalue] at hstep
    exact ⟨1, _, _, by omega, rfl, hstep, rfl, rfl, rfl⟩
  | case4 w x y z rest h ih =>
    intro bytes r i m num_pad junk done todo hdecode hread hlen hdone htodo
    obtain ⟨t, u, v, q, bytes, hw, hx, hy, hz, hrest, rfl⟩ := (Base64.decode_group h).mp hdecode
    obtain ⟨r, rfl⟩ : ∃ n, r = n + 1 := by
      simp only [List.length_cons] at hlen
      exact ⟨r - 1, by omega⟩
    obtain ⟨packed, htake, hvalue⟩ := takeChars_full num_pad hread hw hx hy hz
    obtain ⟨todo', htodo', hstep⟩ := decodeGroups_step htake hdone htodo
    have hread' : b64.drop (8 + (i + 4)) = rest ++ junk := by
      rw [← Nat.add_assoc, ← List.drop_drop, hread]
      rfl
    simp only [List.length_cons] at hlen
    rw [hvalue, ← List.append_assoc] at hstep
    obtain ⟨k, tail, st, hk, hcount, hrun, hpad, hbuf, htail⟩ :=
      ih bytes r (i + 4) (m + 3) num_pad junk
        (done ++ [Base64.byteOf (Base64.joinDigits t u v q) 2,
          Base64.byteOf (Base64.joinDigits t u v q) 1,
          Base64.byteOf (Base64.joinDigits t u v q) 0]) todo' hrest hread' (by omega)
        (by rw [List.length_append, hdone]; rfl) htodo'
    refine ⟨k, tail, st, hk, ?_, hstep.trans hrun, hpad, ?_, htail⟩
    · simp only [List.length_append, List.length_cons, List.length_nil]
      omega
    · rw [hbuf, List.append_assoc, List.append_assoc]
  | case5 s h1 h2 =>
    intro bytes r i m num_pad junk done todo hdecode
    unfold Base64.decode at hdecode
    split at hdecode
    · exact absurd rfl h1
    · exact absurd rfl (h2 _ _ _ _ _)
    · cases hdecode

end Loop

/-! ## Any text gets through -/

section Total

variable {b64 : List Byte}

/-- The index steps on by one at most, and it was readable before. -/
theorem takeChar_total {i N : Nat} (hN : 8 + i + N ≤ b64.length) (j n : Nat)
    (acc : BitVec 32 × Nat × BitVec 8) (hn : n < N) (hacc : acc.2.1 ≤ i + n) :
    ∃ out, takeChar b64 acc j = .ok out ∧ out.2.1 ≤ i + (n + 1) := by
  obtain ⟨packed, k, num_pad⟩ := acc
  have hk : k ≤ i + n := hacc
  obtain ⟨c, hc⟩ : ∃ c, readByte b64 (8 + k) = .ok c := by
    unfold readByte
    rw [List.getElem?_eq_getElem (show 8 + k < b64.length by omega)]
    exact ⟨_, rfl⟩
  unfold takeChar
  simp only [hc, ok_bind]
  split
  · exact ⟨_, rfl, by show k ≤ _; omega⟩
  · exact ⟨_, rfl, by show k + 1 ≤ _; omega⟩

theorem putByte_total {m N len : Nat} (packed : BitVec 32) (hN : 8 + m + N ≤ len) (k n : Nat)
    (acc : Nat × List Byte) (hn : n < N) (hacc : acc.1 = m + n ∧ acc.2.length = len) :
    ∃ out, putByte packed acc k = .ok out ∧ out.1 = m + (n + 1) ∧ out.2.length = len := by
  obtain ⟨d, buf⟩ := acc
  obtain ⟨rfl, hlen⟩ : d = m + n ∧ buf.length = len := hacc
  unfold putByte writeByte
  simp only
  rw [if_pos (by omega), ok_bind]
  exact ⟨_, rfl, rfl, by rw [List.length_set, hlen]⟩

variable (b64) in
theorem decodeGroup_total {i m len : Nat} {st : Decoding} (hread : 8 + i + 4 ≤ b64.length)
    (hwrite : 8 + m + 3 ≤ len) (hi : st.b64_iter ≤ i) (hm : st.decoded_iter = m)
    (hlen : st.decoded_serialized.length = len) :
    ∃ st', decodeGroup b64 st = .ok st' ∧ st'.b64_iter ≤ i + 4 ∧ st'.decoded_iter = m + 3 ∧
      st'.decoded_serialized.length = len := by
  obtain ⟨⟨packed, i', num_pad⟩, htake, hi'⟩ :=
    foldlM_total [3, 2, 1, 0] (P := fun n acc => acc.2.1 ≤ i + n)
      (a := ((0 : BitVec 32), st.b64_iter, st.num_pad)) (n := 0)
      (fun n acc j => takeChar_total hread j n acc) rfl hi
  obtain ⟨⟨m', buf⟩, hput, hm', hlen'⟩ :=
    foldlM_total [2, 1, 0] (P := fun n acc => acc.1 = m + n ∧ acc.2.length = len)
      (a := (st.decoded_iter, st.decoded_serialized)) (n := 0)
      (fun n acc k => putByte_total packed hwrite k n acc) rfl ⟨hm, hlen⟩
  refine ⟨⟨i', m', num_pad, buf⟩, ?_, hi', hm', hlen'⟩
  unfold decodeGroup
  rw [htake, ok_bind]
  show _ >>= _ = _
  rw [hput]
  rfl

variable (b64) in
theorem decodeGroups_total (len r : Nat) : ∀ (i m : Nat) (st : Decoding),
    8 + i + 4 * r ≤ b64.length → 8 + m + 3 * r ≤ len → st.b64_iter ≤ i → st.decoded_iter = m →
    st.decoded_serialized.length = len →
    ∃ st', decodeGroups b64 r st = .ok st' ∧ st'.decoded_serialized.length = len := by
  induction r with
  | zero =>
    intro i m st _ _ _ _ hlen
    exact ⟨st, rfl, hlen⟩
  | succ r ih =>
    intro i m st hread hwrite hi hm hlen
    obtain ⟨st', hgroup, hi', hm', hlen'⟩ :=
      decodeGroup_total b64 (by omega) (by omega) hi hm hlen
    obtain ⟨st'', hrun, hend⟩ := ih (i + 4) (m + 3) st' (by omega) (by omega) hi' hm' hlen'
    refine ⟨st'', ?_, hend⟩
    show _ >>= _ = _
    rw [hgroup, ok_bind]
    exact hrun

end Total

/-! ## The whole function -/

section Deserialize

variable {R : Type} {host : Bool} {alloc : Nat → Bool} {d : List Byte → Option R}
variable {text junk : List Byte}

/-- Up to the loop. -/
theorem deserialize_start (hlen : text.length < 2 ^ 64) (hfour : text.length % 4 = 0)
    (halloc : alloc (text.length / 4 * 3 + 8)) :
    tyr_deserialize_from_base64 host alloc d (encodeU64 host text.length ++ (text ++ junk)) =
      (decodeGroups (encodeU64 host text.length ++ (text ++ junk)) (text.length / 4)
        ⟨0, 0, 0, List.replicate 8 0 ++ List.replicate (text.length / 4 * 3) 0⟩ >>= fun st =>
          writeU64 host st.decoded_serialized
            ((text.length / 4 * 3 + 2 ^ 64 - st.num_pad.toNat) % 2 ^ 64) >>= fun decoded =>
              pure ⟨[decoded], d decoded⟩) := by
  unfold tyr_deserialize_from_base64
  rw [readU64_encode hlen, ok_bind, if_neg (by omega)]
  unfold allocateZeroed
  simp only
  rw [if_pos halloc, ok_bind, Nat.add_comm (text.length / 4 * 3) 8, List.replicate_add]

theorem deserialize_odd (hlen : text.length < 2 ^ 64) (hfour : text.length % 4 ≠ 0) :
    tyr_deserialize_from_base64 host alloc d (encodeU64 host text.length ++ (text ++ junk)) =
      .ok ⟨[], none⟩ := by
  unfold tyr_deserialize_from_base64
  rw [readU64_encode hlen, ok_bind, if_pos hfour]
  rfl

theorem deserialize_null (hlen : text.length < 2 ^ 64) (hfour : text.length % 4 = 0)
    (halloc : ¬ alloc (text.length / 4 * 3 + 8)) :
    tyr_deserialize_from_base64 host alloc d (encodeU64 host text.length ++ (text ++ junk)) =
      .error .null := by
  unfold tyr_deserialize_from_base64
  rw [readU64_encode hlen, ok_bind, if_neg (by omega)]
  unfold allocateZeroed
  simp only
  rw [if_neg halloc, error_bind]

variable (host d junk) in
/-- The padding counted is what the decoding is shorter by. -/
theorem deserialize_eq {bytes : List Byte} (hlen : text.length < 2 ^ 64)
    (hdecode : Base64.decode text = some bytes) (halloc : alloc (text.length / 4 * 3 + 8)) :
    ∃ tail, bytes.length + tail.length = text.length / 4 * 3 ∧
      tyr_deserialize_from_base64 host alloc d (encodeU64 host text.length ++ (text ++ junk)) =
        .ok ⟨[encodeU64 host bytes.length ++ (bytes ++ tail)],
          d (encodeU64 host bytes.length ++ (bytes ++ tail))⟩ := by
  have hfour : text.length % 4 = 0 :=
    ((Base64.decode_isSome_iff text).mp (by rw [hdecode]; rfl)).1
  obtain ⟨k, tail, st, hk, hcount, hrun, hpad, hbuf, htail⟩ :=
    decodeGroups_eq (encodeU64 host text.length ++ (text ++ junk)) text bytes
      (text.length / 4) 0 0 0 junk (List.replicate 8 0)
      (List.replicate (text.length / 4 * 3) 0) hdecode (List.drop_left' length_encodeU64)
      (by omega) (by simp) (by rw [List.length_replicate]; omega)
  have hnum : st.num_pad.toNat = k := by
    rw [hpad, BitVec.toNat_add, BitVec.toNat_ofNat]
    show (0 + k % 2 ^ 8) % 2 ^ 8 = k
    omega
  have hreal : (text.length / 4 * 3 + 2 ^ 64 - k) % 2 ^ 64 = bytes.length := by omega
  refine ⟨tail, by omega, ?_⟩
  rw [deserialize_start hlen hfour halloc, hrun, ok_bind, hnum, hreal, hbuf,
    writeU64_append (by simp)]
  rfl

variable (host) in
theorem deserialize_total (hlen : text.length < 2 ^ 64) (hfour : text.length % 4 = 0)
    (halloc : alloc (text.length / 4 * 3 + 8)) :
    ∃ decoded,
      tyr_deserialize_from_base64 host alloc d (encodeU64 host text.length ++ (text ++ junk)) =
        .ok ⟨[decoded], d decoded⟩ := by
  obtain ⟨st, hrun, hbuf⟩ :=
    decodeGroups_total (encodeU64 host text.length ++ (text ++ junk))
      (8 + text.length / 4 * 3) (text.length / 4) 0 0
      ⟨0, 0, 0, List.replicate 8 0 ++ List.replicate (text.length / 4 * 3) 0⟩
      (by simp; omega) (by omega) le_rfl rfl (by simp; omega)
  rw [deserialize_start hlen hfour halloc, hrun, ok_bind]
  unfold writeU64
  rw [if_pos (by omega)]
  exact ⟨_, rfl⟩

end Deserialize

end Runtime

end Tyr
