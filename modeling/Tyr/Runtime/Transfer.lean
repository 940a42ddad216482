import Tyr.Runtime.Decode

/-
  Through base64 and back, and what the encoder reads on the way.

  `base64_round_trip`: the deserializer gets the bytes of the buffer, whatever follows them in
  memory. But eight bytes of what follows are read and end up in the text. `StaysInside` and
  `DeterminedByBuffer` say that the encoder has no use for them, and
  `reads_only_buffer_iff` that both hold only where it does not come to encode at all.
-/

namespace Tyr

namespace Runtime

section RoundTrip

variable {α R : Type} {host : Bool} {alloc : Nat → Bool} {s : α → Option (List Byte)} {p : α}
variable {d : List Byte → Option R} {B rest : List Byte}

theorem base64_round_trip (hB : Framed host B) (hs : s p = some (B ++ rest))
    (hrest : padLength B.length + 8 ≤ rest.length) (hlen : textLength B.length + 8 < 2 ^ 64)
    (halloc : alloc (textLength B.length + 8))
    (halloc' : alloc (textLength B.length / 4 * 3 + 8)) :
    ∃ str buf, tyr_serialize_to_base64 host alloc s p = .ok (some str) ∧
      tyr_deserialize_from_base64 host alloc d str = .ok ⟨[buf], d buf⟩ ∧
      readU64 host buf = .ok B.length ∧
      slice buf 8 (B.length - 8) = slice B 8 (B.length - 8) := by
  have hle := hB.le
  have hdata : (B.drop 8 ++ rest.take 8).length = B.length := by
    rw [List.length_append, List.length_drop, List.length_take]
    omega
  have htext : (Base64.encode (B.drop 8 ++ rest.take 8)).length = textLength B.length := by
    rw [Base64.length_encode, hdata]
    rfl
  obtain ⟨tail, -, hrun⟩ := deserialize_eq host d []
    (by rw [htext]; omega) (Base64.decode_encode (B.drop 8 ++ rest.take 8))
    (by rw [htext]; exact halloc')
  rw [htext, hdata, List.append_nil] at hrun
  refine ⟨_, _, serialize_framed hB hs hrest hlen halloc, hrun, readU64_encode hB.lt _, ?_⟩
  rw [slice_append_middle length_encodeU64 (by rw [hdata]; omega),
    List.take_left' (by rw [List.length_drop]), slice,
    List.take_of_length_le (by rw [List.length_drop])]

end RoundTrip

/-- Nine bytes and what happens to follow them. -/
theorem base64_round_trip_small :
    ∃ str buf, tyr_serialize_to_base64 false (fun _ => true)
        (fun _ : Unit => some ([9, 0, 0, 0, 0, 0, 0, 0, 42] ++ List.replicate 8 7)) () =
          .ok (some str) ∧
      tyr_deserialize_from_base64 false (fun _ => true) (fun b => some b) str =
        .ok ⟨[buf], some buf⟩ ∧
      readU64 false buf = .ok 9 ∧ slice buf 8 1 = [42] :=
  base64_round_trip (B := [9, 0, 0, 0, 0, 0, 0, 0, 42]) ⟨by decide, by decide⟩ rfl (by decide)
    (by decide) rfl rfl

/-! ## What is read -/

section Reads

variable {α : Type} (host : Bool) (alloc : Nat → Bool) (p : α) (B : List Byte)

/-- The memory may end with the buffer. -/
def StaysInside : Prop := ∀ s : α → Option (List Byte), s p = some B →
  ∀ i, tyr_serialize_to_base64 host alloc s p ≠ .error (.read i)

/-- Whatever follows the buffer, the string is the same. -/
def DeterminedByBuffer : Prop := ∀ (s s' : α → Option (List Byte)) (rest rest' : List Byte),
  s p = some (B ++ rest) → s' p = some (B ++ rest') →
  ∀ str str', tyr_serialize_to_base64 host alloc s p = .ok (some str) →
    tyr_serialize_to_base64 host alloc s' p = .ok (some str') → str = str'

/-- The string can be allocated, and its size is not cut. -/
def StringFits (L : Nat) : Prop := textLength L + 8 < 2 ^ 64 ∧ alloc (textLength L + 8)

variable {host alloc p B}

theorem not_staysInside (hB : Framed host B) (h : StringFits alloc B.length) :
    ¬ StaysInside host alloc p B := by
  intro hstays
  have hle := hB.le
  have hshort : (B.drop 8).length < B.length := by
    rw [List.length_drop]
    omega
  refine hstays (fun _ => some B) rfl _ (serialize_short ?_ hshort hB.lt h.1 h.2)
  exact congrArg some hB.eq_append

/-- Eight zeros and eight ones behind the buffer. -/
theorem not_determinedByBuffer (hB : Framed host B) (h : StringFits alloc B.length) :
    ¬ DeterminedByBuffer host alloc p B := by
  intro hdetermined
  have hpad : padLength B.length + 8 ≤
      (List.replicate (padLength B.length + 8) (0 : Byte)).length := by
    rw [List.length_replicate]
  have hpad' : padLength B.length + 8 ≤
      (List.replicate (padLength B.length + 8) (1 : Byte)).length := by
    rw [List.length_replicate]
  have hstr := hdetermined (fun _ => some _) (fun _ => some _) _ _ rfl rfl _ _
    (serialize_framed hB rfl hpad h.1 h.2) (serialize_framed hB rfl hpad' h.1 h.2)
  have htext := List.append_cancel_left hstr
  have hdata := congrArg Base64.decode htext
  rw [Base64.decode_encode, Base64.decode_encode] at hdata
  have hbytes := List.append_cancel_left (Option.some.inj hdata)
  rw [List.take_replicate, List.take_replicate, Nat.min_eq_left (by omega)] at hbytes
  exact absurd hbytes (by decide)

/-- The call that does not get to encoding. -/
theorem serialize_unfit (hB : Framed host B) (h : ¬ StringFits alloc B.length)
    {s : α → Option (List Byte)} {rest : List Byte} (hs : s p = some (B ++ rest)) :
    ∃ e, tyr_serialize_to_base64 host alloc s p = .error e ∧ ∀ i, e ≠ .read i := by
  have hle := hB.le
  have hmem : B ++ rest = encodeU64 host B.length ++ (B.drop 8 ++ rest) := by
    rw [← List.append_assoc, ← hB.eq_append]
  rw [hmem] at hs
  by_cases hlen : textLength B.length + 8 < 2 ^ 64
  · exact ⟨.null, serialize_null hs hB.lt hlen fun halloc => h ⟨hlen, halloc⟩,
      fun i hi => nomatch hi⟩
  · refine serialize_overflow hs hB.lt ?_ (by omega)
    rw [List.length_append, List.length_drop]
    omega

theorem reads_only_buffer_iff (hB : Framed host B) :
    (StaysInside host alloc p B ↔ ¬ StringFits alloc B.length) ∧
      (DeterminedByBuffer host alloc p B ↔ ¬ StringFits alloc B.length) := by
  constructor
  · constructor
    · exact fun hstays h => not_staysInside hB h hstays
    · intro h s hs i hrun
      obtain ⟨e, he, hread⟩ := serialize_unfit (s := s) (p := p) hB h
        (by rw [hs, List.append_nil])
      rw [he] at hrun
      exact hread i (Except.error.inj hrun)
  · constructor
    · exact fun hdetermined h => not_determinedByBuffer hB h hdetermined
    · intro h s s' rest rest' hs hs' str str' hrun
      obtain ⟨e, he, -⟩ := serialize_unfit hB h hs
      rw [he] at hrun
      cases hrun

end Reads

/-- The smallest buffer, which is only its header. -/
theorem reads_only_buffer_iff_small :
    (StaysInside false (fun _ => true) () [8, 0, 0, 0, 0, 0, 0, 0] ↔
      ¬ StringFits (fun _ => true) 8) ∧
    (DeterminedByBuffer false (fun _ => true) () [8, 0, 0, 0, 0, 0, 0, 0] ↔
      ¬ StringFits (fun _ => true) 8) :=
  reads_only_buffer_iff ⟨by decide, by decide⟩

/-- The byte behind the header is read. -/
theorem header_overread :
    ¬ (StaysInside false (fun _ => true) () [8, 0, 0, 0, 0, 0, 0, 0] ∧
      DeterminedByBuffer false (fun _ => true) () [8, 0, 0, 0, 0, 0, 0, 0]) := by
  intro h
  exact not_staysInside ⟨by decide, by decide⟩ ⟨by decide, rfl⟩ h.1

end Runtime

end Tyr
