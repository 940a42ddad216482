import Tyr.Runtime.Decode

/-
  Which texts `tyr_deserialize_from_base64` accepts.

  It turns away a length that is not a multiple of four and nothing else: characters outside the
  alphabet count as zero, and at a `=` the index stops for good. `AcceptsBase64url` is the
  accepting of exactly the padded texts, and `accepts_base64url_iff` the texts for which it holds.
-/

namespace Tyr

namespace Runtime

section Accepted

variable {R : Type} (host : Bool) (alloc : Nat → Bool) (d : List Byte → Option R)
variable (text junk : List Byte)

/-- A padded text is handed on decoded, with the number of decoded bytes as the header; on any
    other text `d` is not called. -/
structure AcceptsBase64url : Prop where
  accepts : Base64.IsPadded text → ∃ bytes buf, Base64.decode text = some bytes ∧
    tyr_deserialize_from_base64 host alloc d (encodeU64 host text.length ++ (text ++ junk)) =
      .ok ⟨[buf], d buf⟩ ∧
    readU64 host buf = .ok bytes.length ∧ slice buf 8 bytes.length = bytes
  rejects : ¬ Base64.IsPadded text →
    tyr_deserialize_from_base64 host alloc d (encodeU64 host text.length ++ (text ++ junk)) =
      .ok ⟨[], none⟩
  bounded : ∀ o, tyr_deserialize_from_base64 host alloc d
      (encodeU64 host text.length ++ (text ++ junk)) = .ok o →
    ∀ buf ∈ o.calls, ∃ len, readU64 host buf = .ok len ∧ len ≤ 3 * (text.length / 4)

variable {host alloc d text junk}

theorem accepts_padded (hlen : text.length < 2 ^ 64) (hpadded : Base64.IsPadded text)
    (halloc : alloc (text.length / 4 * 3 + 8)) : AcceptsBase64url host alloc d text junk := by
  obtain ⟨bytes, hdecode⟩ :=
    Option.isSome_iff_exists.mp ((Base64.decode_isSome_iff text).mpr hpadded)
  obtain ⟨tail, hcount, hrun⟩ := deserialize_eq host d junk hlen hdecode halloc
  have hheader : readU64 host (encodeU64 host bytes.length ++ (bytes ++ tail)) =
      .ok bytes.length := readU64_encode (by omega) _
  refine ⟨fun _ => ⟨bytes, _, hdecode, hrun, hheader, ?_⟩, fun h => absurd hpadded h, ?_⟩
  · rw [slice_append_middle length_encodeU64 le_rfl, List.take_length]
  · intro o ho buf hbuf
    rw [hrun] at ho
    obtain rfl := Except.ok.inj ho
    obtain rfl := List.mem_singleton.mp hbuf
    exact ⟨bytes.length, hheader, by omega⟩

theorem accepts_odd (hlen : text.length < 2 ^ 64) (hfour : text.length % 4 ≠ 0) :
    AcceptsBase64url host alloc d text junk := by
  have hrun : tyr_deserialize_from_base64 host alloc d
      (encodeU64 host text.length ++ (text ++ junk)) = .ok ⟨[], none⟩ := deserialize_odd hlen hfour
  refine ⟨fun hpadded => absurd hpadded.1 hfour, fun _ => hrun, ?_⟩
  intro o ho buf hbuf
  rw [hrun] at ho
  obtain rfl := Except.ok.inj ho
  cases hbuf

theorem accepts_base64url_iff (hlen : text.length < 2 ^ 64) :
    AcceptsBase64url host alloc d text junk ↔
      text.length % 4 ≠ 0 ∨
        Base64.IsPadded text ∧ alloc (text.length / 4 * 3 + 8) = true := by
  constructor
  · intro h
    by_cases hfour : text.length % 4 = 0
    · right
      have halloc : alloc (text.length / 4 * 3 + 8) = true := by
        by_contra halloc
        have hnull : tyr_deserialize_from_base64 host alloc d
            (encodeU64 host text.length ++ (text ++ junk)) = .error .null :=
          deserialize_null hlen hfour halloc
        by_cases hpadded : Base64.IsPadded text
        · obtain ⟨bytes, buf, -, hrun, -⟩ := h.accepts hpadded
          rw [hnull] at hrun
          cases hrun
        · have hrun := h.rejects hpadded
          rw [hnull] at hrun
          cases hrun
      refine ⟨?_, halloc⟩
      -- whatever the text, the deserializer is called
      by_contra hpadded
      obtain ⟨decoded, hcalled⟩ := deserialize_total host hlen hfour halloc
      have hrun := h.rejects hpadded
      rw [hcalled] at hrun
      cases hrun
    · exact .inl hfour
  · intro h
    obtain hfour | ⟨hpadded, halloc⟩ := h
    · exact accepts_odd hlen hfour
    · exact accepts_padded hlen hpadded halloc

end Accepted

/-- The text of one zero byte. -/
theorem accepts_base64url_iff_small :
    AcceptsBase64url false (fun _ => true) (fun b => some b) [65, 65, 61, 61] [] ↔
      4 % 4 ≠ 0 ∨ Base64.IsPadded [65, 65, 61, 61] ∧ true = true :=
  accepts_base64url_iff (by decide)

/-- `!!!!` is taken for three zero bytes, and `====` has three bytes of text less four of
    padding. -/
theorem accepts_garbage :
    ¬ AcceptsBase64url false (fun _ => true) (fun b => some b) [33, 33, 33, 33] [] ∧
      ¬ AcceptsBase64url false (fun _ => true) (fun b => some b) [61, 61, 61, 61] [] := by
  constructor
  · intro h
    have hrun : tyr_deserialize_from_base64 false (fun _ => true) (fun b => some b)
        (encodeU64 false 4 ++ ([33, 33, 33, 33] ++ [])) =
          .ok ⟨[encodeU64 false 3 ++ [0, 0, 0]], some (encodeU64 false 3 ++ [0, 0, 0])⟩ := rfl
    have hnot : ¬ Base64.IsPadded [33, 33, 33, 33] := by
      rw [← Base64.decode_isSome_iff]
      decide
    cases hrun.symm.trans (h.rejects hnot)
  · intro h
    have hrun : tyr_deserialize_from_base64 false (fun _ => true) (fun b => some b)
        (encodeU64 false 4 ++ ([61, 61, 61, 61] ++ [])) =
          .ok ⟨[encodeU64 false (2 ^ 64 - 1) ++ [0, 0, 0]],
            some (encodeU64 false (2 ^ 64 - 1) ++ [0, 0, 0])⟩ := rfl
    obtain ⟨len, hread, hle⟩ := h.bounded _ hrun _ (List.mem_singleton_self _)
    rw [readU64_encode (by decide)] at hread
    obtain rfl := Except.ok.inj hread
    exact absurd hle (by decide)

end Runtime

end Tyr
