import Tyr.Runtime.FileHelper

/-
  Saving to a file, all or nothing.

  `tyr_serialize_to_file` truncates the file before it has anything to write, returns from its
  failures without closing the stream or freeing the buffer, and drops the result of `fclose`.
  `savesAllOrNothing_iff`: the call either saves the whole buffer or leaves the file as it was, and
  releases what it has acquired, exactly if the file does not open at all or nothing goes wrong
  after that (`Saves`).
-/

namespace Tyr

namespace Runtime

open Fallible

/-! ## All or nothing -/

/-- The length in the first 64 bits of a buffer. -/
def headerOf (host : Bool) (B : List Byte) : Nat := ofLE (inOrder host (B.take 8))

/-- Every stream that was opened from `w` to `w'` was closed, every buffer freed, and once. -/
structure Released (w w' : World) : Prop where
  stream : ∃ k, w'.opened = w.opened + k ∧ w'.closed = w.closed + k
  buffer : ∃ k, w'.obtained = w.obtained + k ∧ w'.freed = w.freed + k

section Property

variable {α : Type} (host : Bool) (L : Stdio) (s : α → Option (List Byte)) (p : α) (w : World)

/-- `true` says that the file holds the buffer, `false` that it is what it was. -/
def SavesAllOrNothing : Prop :=
  ∃ done w', tyr_serialize_to_file host L s p w = .ok (done, w') ∧
    (done = true → ∃ B, s p = some B ∧ headerOf host B ≤ B.length ∧
      w'.file = some (B.take (headerOf host B))) ∧
    (done = false → w'.file = w.file) ∧
    Released w w'

/-- A buffer of which all bytes that its header counts get to the file. -/
structure Saves (B : List Byte) : Prop where
  sized : 8 ≤ B.length
  whole : headerOf host B ≤ B.length
  written : headerOf host B ≤ L.writes (headerOf host B)
  closed : L.closes = true ∨ headerOf host B ≤ L.flushes (headerOf host B)

end Property

/-! ## The exits of the call -/

section Exits

variable {α : Type} {host : Bool} {L : Stdio} {s : α → Option (List Byte)} {p : α} {w : World}
  {B : List Byte}

theorem Released.rfl : Released w w := ⟨⟨0, by simp⟩, ⟨0, by simp⟩⟩

theorem readU64_headerOf (hB : 8 ≤ B.length) : readU64 host B = .ok (headerOf host B) := by
  unfold readU64
  rw [if_pos hB]
  rfl

theorem readBytes_ok {n : Nat} (hn : n ≤ B.length) : readBytes B n = .ok (B.take n) := by
  unfold readBytes
  rw [if_pos hn]

theorem save_unopened (hopen : L.opens = false) :
    tyr_serialize_to_file host L s p w = .ok (false, w) := by
  unfold tyr_serialize_to_file fopenWrite
  rw [hopen]
  rfl

theorem fopenWrite_opens (hopen : L.opens = true) : fopenWrite L w =
    some { w with file := some [], pending := [], opened := w.opened + 1 } := by
  unfold fopenWrite
  rw [if_pos hopen]

/-- To an empty file: the stream holds back what has not been flushed. -/
theorem fwrite_all {bytes : List Byte} (hfile : w.file = some []) (hpending : w.pending = [])
    (hwrites : bytes.length ≤ L.writes bytes.length) :
    fwrite L w bytes = (bytes.length, { w with
      file := some (bytes.take (L.flushes bytes.length))
      pending := bytes.drop (L.flushes bytes.length) }) := by
  unfold fwrite
  rw [hfile, hpending, Nat.min_eq_right hwrites]
  simp only [List.take_length, List.nil_append, Option.map_some]

/-- The stream is lost, and the content of the file. -/
theorem save_refused (hopen : L.opens = true) (hs : s p = none) :
    tyr_serialize_to_file host L s p w =
      .ok (false, { w with file := some [], pending := [], opened := w.opened + 1 }) := by
  unfold tyr_serialize_to_file
  rw [fopenWrite_opens hopen]
  simp only [hs]
  rfl

/-- A buffer that is shorter than its header, or than what its header says. -/
theorem save_fault (hopen : L.opens = true) (hs : s p = some B)
    (hB : ¬(8 ≤ B.length ∧ headerOf host B ≤ B.length)) :
    ∃ e, tyr_serialize_to_file host L s p w = .error e := by
  unfold tyr_serialize_to_file
  rw [fopenWrite_opens hopen]
  simp only [hs]
  by_cases hsized : 8 ≤ B.length
  · have hshort : ¬ headerOf host B ≤ B.length := fun h => hB ⟨hsized, h⟩
    unfold readBytes
    rw [readU64_headerOf hsized, ok_bind, if_neg hshort, error_bind]
    exact ⟨_, rfl⟩
  · unfold readU64
    rw [if_neg hsized, error_bind]
    exact ⟨_, rfl⟩

section Written

variable (hopen : L.opens = true) (hs : s p = some B) (hsized : 8 ≤ B.length)
  (hwhole : headerOf host B ≤ B.length)
include hopen hs hsized hwhole

/-- The stream is lost, and the buffer. -/
theorem save_short (hshort : ¬ headerOf host B ≤ L.writes (headerOf host B)) :
    ∃ w', tyr_serialize_to_file host L s p w = .ok (false, w') ∧
      w'.obtained = w.obtained + 1 ∧ w'.freed = w.freed := by
  have hitems : min (L.writes (headerOf host B)) (headerOf host B) ≠ headerOf host B := by omega
  unfold tyr_serialize_to_file
  rw [fopenWrite_opens hopen]
  simp only [hs, readU64_headerOf hsized, readBytes_ok hwhole, ok_bind, fwrite,
    List.length_take_of_le hwhole]
  rw [if_pos hitems]
  exact ⟨_, rfl, rfl, rfl⟩

/-- What `fwrite` holds back gets to the file if `fclose` succeeds. -/
theorem save_done (hwritten : headerOf host B ≤ L.writes (headerOf host B)) :
    ∃ w', tyr_serialize_to_file host L s p w = .ok (true, w') ∧
      w'.file = some (if L.closes then B.take (headerOf host B)
        else (B.take (headerOf host B)).take (L.flushes (headerOf host B))) ∧
      Released w w' := by
  have hlength : (B.take (headerOf host B)).length = headerOf host B :=
    List.length_take_of_le hwhole
  unfold tyr_serialize_to_file
  rw [fopenWrite_opens hopen]
  simp only [hs, readU64_headerOf hsized, readBytes_ok hwhole, ok_bind]
  rw [fwrite_all rfl rfl (by rw [hlength]; exact hwritten), hlength, if_neg (not_not.mpr rfl)]
  refine ⟨_, rfl, ?_, ⟨⟨1, rfl, rfl⟩, ⟨1, rfl, rfl⟩⟩⟩
  unfold fclose World.free World.obtain
  cases L.closes with
  | false => rfl
  | true => simp [List.take_append_drop]

end Written

end Exits

/-! ## Which exits keep the promise -/

section Exits

variable {α : Type} {host : Bool} {L : Stdio} {s : α → Option (List Byte)} {p : α} {w : World}
  {B : List Byte}

theorem not_saves_refused (hopen : L.opens = true) (hs : s p = none) :
    ¬ SavesAllOrNothing host L s p w := by
  intro h
  obtain ⟨done, w', hrun, -, -, hreleased⟩ := h
  rw [save_refused hopen hs] at hrun
  obtain ⟨-, rfl⟩ := Prod.mk.inj (Except.ok.inj hrun)
  obtain ⟨k, hopened, hclosed⟩ := hreleased.stream
  simp only at hopened hclosed
  omega

theorem not_saves_fault (hopen : L.opens = true) (hs : s p = some B)
    (hB : ¬(8 ≤ B.length ∧ headerOf host B ≤ B.length)) :
    ¬ SavesAllOrNothing host L s p w := by
  intro h
  obtain ⟨done, w', hrun, -⟩ := h
  obtain ⟨e, hfault⟩ := save_fault (w := w) hopen hs hB
  rw [hfault] at hrun
  cases hrun

section Written

variable (hopen : L.opens = true) (hs : s p = some B) (hsized : 8 ≤ B.length)
  (hwhole : headerOf host B ≤ B.length)
include hopen hs hsized hwhole

theorem not_saves_short (hshort : ¬ headerOf host B ≤ L.writes (headerOf host B)) :
    ¬ SavesAllOrNothing host L s p w := by
  intro h
  obtain ⟨done, w', hrun, -, -, hreleased⟩ := h
  obtain ⟨w'', hrun', hobtained, hfreed⟩ := save_short (w := w) hopen hs hsized hwhole hshort
  rw [hrun'] at hrun
  obtain ⟨-, rfl⟩ := Prod.mk.inj (Except.ok.inj hrun)
  obtain ⟨k, hobtained', hfreed'⟩ := hreleased.buffer
  omega

/-- Closing the file is what is left to go wrong. -/
theorem saves_done_iff (hwritten : headerOf host B ≤ L.writes (headerOf host B)) :
    SavesAllOrNothing host L s p w ↔
      L.closes = true ∨ headerOf host B ≤ L.flushes (headerOf host B) := by
  obtain ⟨w', hdone, hfile, hreleased⟩ := save_done (w := w) hopen hs hsized hwhole hwritten
  have hlength : (B.take (headerOf host B)).length = headerOf host B :=
    List.length_take_of_le hwhole
  constructor
  · intro h
    obtain ⟨done, w'', hrun, hsaved, -, -⟩ := h
    rw [hdone] at hrun
    obtain ⟨rfl, rfl⟩ := Prod.mk.inj (Except.ok.inj hrun)
    obtain ⟨B', hB', -, hfile'⟩ := hsaved rfl
    obtain rfl := Option.some.inj (hs.symm.trans hB')
    cases hclose : L.closes with
    | true => exact .inl rfl
    | false =>
      -- the bytes that were not held back are all of them
      have hbytes := congrArg List.length (Option.some.inj (hfile.symm.trans hfile'))
      rw [hclose, if_neg Bool.false_ne_true, List.length_take, hlength] at hbytes
      exact .inr (by omega)
  · intro h
    refine ⟨true, w', hdone, fun _ => ⟨B, hs, hwhole, ?_⟩, nofun, hreleased⟩
    rw [hfile]
    rcases h with hclose | hflushed
    · rw [if_pos hclose]
    · have hall : (B.take (headerOf host B)).length ≤ L.flushes (headerOf host B) := by
        rwa [hlength]
      rw [List.take_of_length_le hall, ite_self]

end Written

end Exits

/-! ## Main result -/

section Main

variable {α : Type} (host : Bool) (L : Stdio) (s : α → Option (List Byte)) (p : α) (w : World)

/-- By the exits of the call: each one that returns false behind `fopen` keeps something. -/
theorem savesAllOrNothing_iff :
    SavesAllOrNothing host L s p w ↔ (L.opens = true → ∃ B, s p = some B ∧ Saves host L B) := by
  constructor
  · intro h hopen
    cases hs : s p with
    | none => exact absurd h (not_saves_refused hopen hs)
    | some B =>
      by_cases hB : 8 ≤ B.length ∧ headerOf host B ≤ B.length
      · obtain ⟨hsized, hwhole⟩ := hB
        by_cases hwritten : headerOf host B ≤ L.writes (headerOf host B)
        · exact ⟨B, rfl, hsized, hwhole, hwritten,
            (saves_done_iff hopen hs hsized hwhole hwritten).mp h⟩
        · exact absurd h (not_saves_short hopen hs hsized hwhole hwritten)
      · exact absurd h (not_saves_fault hopen hs hB)
  · intro h
    cases hopen : L.opens with
    | false => exact ⟨false, w, save_unopened hopen, nofun, fun _ => rfl, .rfl⟩
    | true =>
      obtain ⟨B, hs, hsized, hwhole, hwritten, hclosed⟩ := h hopen
      exact (saves_done_iff hopen hs hsized hwhole hwritten).mpr hclosed

end Main

/-- The serializer gives up, as it does for NULL and without memory: three bytes are lost. -/
theorem save_destroys :
    ¬ SavesAllOrNothing false .reliable (fun _ : Unit => none) () (.of [1, 2, 3]) := by
  intro h
  obtain ⟨done, w', hrun, hsaved, hkept, -⟩ := h
  obtain ⟨rfl, rfl⟩ := Prod.mk.inj (Except.ok.inj hrun)
  exact absurd (hkept rfl) (by decide)

end Runtime

end Tyr
