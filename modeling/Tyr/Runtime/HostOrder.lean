import Tyr.Runtime.Stored

/-
  The helpers and the byte order of the host.

  Generated code writes the size of a buffer in little-endian order on every machine. The helpers
  read it as a `uint64_t` of the host. `helpers_return_iff`: in every state that a network of
  modules can reach, saving a struct of less than 4 GiB to a file that opens, or making base64 text
  of it where there is memory, returns exactly if the host is little-endian. On any other neither
  does.
-/

namespace Tyr

universe u

/-! ## Reversed numbers -/

theorem ofLE_eq_zero {bs : List Byte} : ofLE bs = 0 ↔ ∀ b ∈ bs, b = 0 := by
  induction bs with
  | nil => exact iff_of_true rfl fun _ h => (List.not_mem_nil h).elim
  | cons b bs ih =>
    have hb : b = 0 ↔ b.toNat = 0 :=
      ⟨fun h => by rw [h]; rfl, fun h => BitVec.eq_of_toNat_eq h⟩
    rw [List.forall_mem_cons, ← ih, hb, ofLE]
    omega

theorem toLE_add (k m n : Nat) (hn : n < 256 ^ k) :
    toLE (k + m) n = toLE k n ++ List.replicate m 0 := by
  induction k generalizing n with
  | zero =>
    obtain rfl : n = 0 := Nat.lt_one_iff.mp hn
    rw [Nat.zero_add, toLE_zero]
    rfl
  | succ k ih =>
    have hdiv : n / 256 < 256 ^ k := by
      rw [Nat.div_lt_iff_lt_mul (by decide)]
      exact hn
    rw [Nat.add_right_comm, toLE, ih _ hdiv, toLE]
    rfl

/-- The bytes of a small number in the other order are those of a large one. -/
theorem le_ofLE_reverse {k n : Nat} (m : Nat) (hpos : 0 < n) (hn : n < 256 ^ k) :
    256 ^ m ≤ ofLE (toLE (k + m) n).reverse := by
  have hne : ofLE (toLE k n).reverse ≠ 0 := by
    rw [Ne, ofLE_eq_zero]
    intro h
    have hzero : ofLE (toLE k n) = 0 := ofLE_eq_zero.mpr fun b hb => h b (List.mem_reverse.mpr hb)
    rw [ofLE_toLE, Nat.mod_eq_of_lt hn] at hzero
    omega
  rw [toLE_add k m n hn, List.reverse_append, ofLE_append, List.length_reverse,
    List.length_replicate]
  exact (Nat.le_mul_of_pos_right _ (Nat.pos_of_ne_zero hne)).trans (Nat.le_add_left _ _)

namespace Runtime

open Fallible

/-! ## What a call that returns has read -/

section Reads

variable {serialized : List Byte} {serialized_len num_pad b64_len : Nat}

theorem lt_of_readByte {m : List Byte} {i : Nat} {b : Byte} (h : readByte m i = .ok b) :
    i < m.length := by
  by_contra hi
  rw [readByte_end (not_lt.mp hi)] at h
  cases h

theorem packByte_reads {st st' : BitVec 32 × Nat} {j : Nat}
    (h : packByte serialized serialized_len st j = .ok st') :
    st'.2 = st.2 + 1 ∧ 8 + st.2 < serialized.length := by
  obtain ⟨byte, hread, h⟩ := bind_eq_ok_iff.mp h
  obtain rfl := Except.ok.inj h
  exact ⟨rfl, lt_of_readByte hread⟩

/-- A group takes three bytes. -/
theorem encodeGroup_reads {st st' : Encoding}
    (h : encodeGroup serialized serialized_len num_pad b64_len st = .ok st') :
    st'.str_iter = st.str_iter + 3 ∧ 8 + st'.str_iter ≤ serialized.length := by
  obtain ⟨⟨packed, i⟩, hpack, h⟩ := bind_eq_ok_iff.mp h
  obtain ⟨⟨k, str⟩, -, h⟩ := bind_eq_ok_iff.mp h
  obtain rfl := Except.ok.inj h
  simp only [List.foldlM_cons, List.foldlM_nil] at hpack
  obtain ⟨st₁, h₁, hpack⟩ := bind_eq_ok_iff.mp hpack
  obtain ⟨st₂, h₂, hpack⟩ := bind_eq_ok_iff.mp hpack
  obtain ⟨st₃, h₃, hpack⟩ := bind_eq_ok_iff.mp hpack
  obtain rfl := Except.ok.inj hpack
  obtain ⟨hn₁, -⟩ := packByte_reads h₁
  obtain ⟨hn₂, -⟩ := packByte_reads h₂
  obtain ⟨hn₃, hlt⟩ := packByte_reads h₃
  dsimp only at *
  omega

theorem encodeGroups_reads {n : Nat} {st st' : Encoding}
    (h : encodeGroups serialized serialized_len num_pad b64_len n st = .ok st')
    (hst : 8 + st.str_iter ≤ serialized.length) : 8 + st.str_iter + 3 * n ≤ serialized.length := by
  induction n generalizing st with
  | zero => exact hst
  | succ n ih =>
    obtain ⟨st₁, h₁, h⟩ := bind_eq_ok_iff.mp h
    obtain ⟨hnext, hle⟩ := encodeGroup_reads h₁
    have hrest := ih h hle
    omega

/-- Text was made of as many bytes as the header says, behind the header. -/
theorem serialize_reads {α : Type} {host : Bool} {alloc : Nat → Bool} {s : α → Option (List Byte)}
    {p : α} {B : List Byte} {t : Option (List Byte)} (hs : s p = some B)
    (h : tyr_serialize_to_base64 host alloc s p = .ok t) : 8 + headerOf host B ≤ B.length := by
  unfold tyr_serialize_to_base64 at h
  simp only [hs] at h
  obtain ⟨n, hread, h⟩ := bind_eq_ok_iff.mp h
  have hsized : 8 ≤ B.length := by
    by_contra hshort
    unfold readU64 at hread
    rw [if_neg hshort] at hread
    cases hread
  obtain rfl := Except.ok.inj ((readU64_headerOf hsized).symm.trans hread)
  obtain ⟨m, -, h⟩ := bind_eq_ok_iff.mp h
  obtain ⟨m', -, h⟩ := bind_eq_ok_iff.mp h
  obtain ⟨st, hgroups, -⟩ := bind_eq_ok_iff.mp h
  have hle := encodeGroups_reads hgroups hsized
  rw [packed_size_eq] at hle
  have hzero : (⟨0, 0, m'⟩ : Encoding).str_iter = 0 := rfl
  omega

end Reads

/-! ## Buffers of less than 4 GiB -/

section Header

variable {B : List Byte}

theorem headerOf_append {host : Bool} (hB : 8 ≤ B.length) (rest : List Byte) :
    headerOf host (B ++ rest) = headerOf host B := by
  unfold headerOf
  rw [List.take_append_of_le_length hB]

/-- A big-endian host takes the size of a small buffer for one of 4 GiB or more. -/
theorem Framed.le_headerOf (hB : Framed false B) (hlt : B.length < 2 ^ 32) :
    2 ^ 32 ≤ headerOf true B := by
  have hhead : B.take 8 = toLE 8 B.length := by
    have h := congrArg (List.take 8) hB.eq_append
    rwa [List.take_left' length_encodeU64] at h
  unfold headerOf inOrder
  rw [hhead]
  exact le_ofLE_reverse 4 (Nat.lt_of_lt_of_le (by decide) hB.le) hlt

variable {α : Type} {L : Stdio} {s : α → Option (List Byte)} {p : α} {w : World} {host : Bool}
  {alloc : Nat → Bool} {rest : List Byte}

theorem save_returns_iff (hB : Framed false B) (hlt : B.length < 2 ^ 32) (hopen : L.opens = true)
    (hs : s p = some B) :
    (∃ r, tyr_serialize_to_file host L s p w = .ok r) ↔ host = false := by
  cases host with
  | false =>
    refine iff_of_true ?_ rfl
    obtain ⟨done, w', hrun, -⟩ := serialize_answers (L := L) (w := w) hB hs
    exact ⟨_, hrun⟩
  | true =>
    refine iff_of_false ?_ (by decide)
    rintro ⟨r, hr⟩
    have hlarge := hB.le_headerOf hlt
    obtain ⟨e, he⟩ : ∃ e, tyr_serialize_to_file true L s p w = .error e :=
      save_fault hopen hs fun h => by omega
    cases he.symm.trans hr

theorem encode_returns_iff (hB : Framed false B) (hs : s p = some (B ++ rest))
    (hrest : padLength B.length + 8 ≤ rest.length) (hlt : (B ++ rest).length < 2 ^ 32)
    (halloc : ∀ n, alloc n = true) :
    (∃ t, tyr_serialize_to_base64 host alloc s p = .ok t) ↔ host = false := by
  rw [List.length_append] at hlt
  cases host with
  | false =>
    refine iff_of_true ⟨_, serialize_framed hB hs hrest ?_ (halloc _)⟩ rfl
    unfold textLength
    omega
  | true =>
    refine iff_of_false ?_ (by decide)
    rintro ⟨t, ht⟩
    have hlarge := hB.le_headerOf (by omega)
    have hle := serialize_reads hs ht
    rw [headerOf_append hB.le, List.length_append] at hle
    omega

end Header

end Runtime

open Network

/-- Wherever a network of modules has got to: a helper that is handed a struct that may be sent
    returns exactly if its host is little-endian. The buffer and what can be read behind it, the
    padding and eight bytes at least, are less than 4 GiB; the file opens and there is memory. -/
theorem helpers_return_iff {ι : Type u} [DecidableEq ι] {N : Network ι} {S : Struct}
    (flat : S.IsFlat) (hn : S.DistinctNames) (hcf : S.CountsFirst)
    (hA : ∀ i t n, (N.alloc i).succeeds t n = true)
    (hstruct : N.layout.structSize S.packed S.elements < 2 ^ 64) {x₀ x : State ι}
    (h₀ : ∀ i, (x₀.world i).structs = ∅) (hsent : x₀.sent = [])
    {es : List (ι × Record.Event Field)} (hrun : Run (N.Step S) x₀ es x) {i : ι} {w : World}
    (hw : Env.CallerStep (N.env S i) S (x.world i) w) {b : Nat} {blk : Block}
    (hb : b ∈ w.structs) (hl : w.heap.block? b = some blk) (hsend : N.Sendable S i w.heap blk)
    {B rest : List Byte} (hbytes : (N.env S i).serializer_fn S w.heap (.base b) = some B)
    (hrest : Runtime.padLength B.length + 8 ≤ rest.length)
    (hsize : (B ++ rest).length < 2 ^ 32) {L : Runtime.Stdio} (hopen : L.opens = true)
    (disk : Runtime.World) {alloc : Nat → Bool} (halloc : ∀ n, alloc n = true) :
    ((∃ r, Runtime.tyr_serialize_to_file (N.bigEndian i) L ((N.env S i).serializer_fn S w.heap)
      (.base b) disk = .ok r) ↔ N.bigEndian i = false) ∧
    ((∃ t, Runtime.tyr_serialize_to_base64 (N.bigEndian i) alloc
      (fun p => ((N.env S i).serializer_fn S w.heap p).map (· ++ rest)) (.base b) = .ok t) ↔
        N.bigEndian i = false) := by
  obtain ⟨y, -, hrep⟩ := run_refines flat hn hcf hA hstruct h₀ hsent hrun
  obtain ⟨out, r, -, -, hout, hB, -⟩ :=
    save_bytes flat hn hA ((hrep.world i).frame w hw.1 hw.2) hb hl hsend
  obtain rfl := Option.some.inj (hout.symm.trans hbytes)
  have hlt := List.length_append ▸ hsize
  exact ⟨Runtime.save_returns_iff hB (by omega) hopen hbytes,
    Runtime.encode_returns_iff hB (congrArg (Option.map _) hbytes) hrest hsize halloc⟩

/-- The big-endian module creates `struct s` with 0.0; its helpers do not return. -/
theorem helpers_return_iff_float :
    ((∃ r, Runtime.tyr_serialize_to_file true .reliable
      ((bothOrders.env floatStruct true).serializer_fn floatStruct (floatWorld true 0).heap)
      (.base 0) (.of []) = .ok r) ↔ bothOrders.bigEndian true = false) ∧
    ((∃ t, Runtime.tyr_serialize_to_base64 true (fun _ => true)
      (fun p => ((bothOrders.env floatStruct true).serializer_fn floatStruct
        (floatWorld true 0).heap p).map (· ++ List.replicate 8 0)) (.base 0) = .ok t) ↔
          bothOrders.bigEndian true = false) := by
  have hcreate : Env.ObservedStep (bothOrders.env floatStruct true) floatStruct ⟨⟨[], 0⟩, ∅⟩
      (Env.denote (bothOrders.env floatStruct true) floatStruct ⟨[], 0⟩ (.create fun _ => .int 0),
        .created 0) (floatWorld true 0) :=
    ⟨_, .create fun _ => .int 0, .ptr (.base 0), ⟨rfl, fun _ _ => rfl⟩,
      ⟨fun _ _ _ _ => ⟨0, rfl⟩, by decide⟩, by unfold Env.Regular; decide, rfl, rfl, rfl⟩
  have hrun : Run (bothOrders.Step floatStruct) ⟨fun _ => ⟨⟨[], 0⟩, ∅⟩, []⟩ [_]
      ⟨Function.update (fun _ => ⟨⟨[], 0⟩, ∅⟩) true (floatWorld true 0), []⟩ :=
    .cons (.call (i := true) hcreate) (.nil _)
  exact helpers_return_iff floatStruct_isFlat (by unfold Struct.DistinctNames; decide) (by decide)
    (fun _ _ _ => rfl) (by decide) (fun _ => rfl) rfl hrun (i := true) (w := floatWorld true 0)
    ⟨rfl, fun _ _ => rfl⟩ (b := 0) (Or.inr rfl) rfl
    ⟨by unfold Env.Clean; decide, by decide, by unfold Crosses; decide⟩ (B := toLE 8 12 ++ toLE 4 0)
    rfl (by decide) (by decide) rfl (.of []) fun _ => rfl

end Tyr
