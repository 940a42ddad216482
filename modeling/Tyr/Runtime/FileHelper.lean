import Tyr.Runtime.Encode

/-
  `Runtime/FileHelper.c`.

  `Stdio` says how the C library and the allocator behave; a `World` is the file of the given
  name, the bytes its stream still holds back, and how many streams and buffers were acquired
  and released. A buffer is modelled by the bytes that can be read from its pointer on.

  The reader takes the size of its buffer from the file and drops the results of both reads, so
  `d` is called on whatever the file holds. `ReadsOnlyFile` is the calling of `d` on the bytes of
  a complete file only, and `reads_only_file_iff` the files for which it holds.
-/

namespace Tyr

namespace Runtime

/-! ## The C library -/

structure Stdio where
  /-- `fopen` succeeds (for reading: if the file exists) -/
  opens : Bool
  /-- how many of `n` items `fwrite` writes -/
  writes : Nat → Nat
  /-- how many of `n` buffered bytes go to the file before the stream is closed -/
  flushes : Nat → Nat
  /-- how many of the `n` bytes there are of an item that is not there as a whole `fread` stores -/
  stores : Nat → Nat
  /-- `fclose` succeeds -/
  closes : Bool
  alloc : Nat → Bool
  /-- what a new block holds -/
  fill : Nat → Byte

structure World where
  file : Option (List Byte)
  pending : List Byte
  opened : Nat
  closed : Nat
  obtained : Nat
  freed : Nat

section Stdio

variable (L : Stdio) (w : World)

/-- `fopen(filename, "wb")` truncates the file at once. -/
def fopenWrite : Option World :=
  if L.opens then some { w with file := some [], pending := [], opened := w.opened + 1 } else none

/-- `fopen(filename, "rb")`; the stream is at the first byte of the content. -/
def fopenRead : Option (List Byte × World) :=
  match w.file with
  | some content =>
    if L.opens then some (content, { w with pending := [], opened := w.opened + 1 })
    else none
  | none => none

/-- `fwrite` of single bytes: the number of bytes taken, some of which stay in the buffer. -/
def fwrite (bytes : List Byte) : Nat × World :=
  let items := min (L.writes bytes.length) bytes.length
  let buffer := w.pending ++ bytes.take items
  let flushed := L.flushes buffer.length
  (items, { w with
    file := w.file.map (· ++ buffer.take flushed)
    pending := buffer.drop flushed })

/-- The stream is gone even if `fclose` fails. -/
def fclose : World :=
  { w with
    file := if L.closes then w.file.map (· ++ w.pending) else w.file
    pending := []
    closed := w.closed + 1 }

/-- A buffer is acquired, unless its pointer is NULL. -/
def World.obtain (buffer : Option (List Byte)) : World :=
  if buffer.isSome then { w with obtained := w.obtained + 1 } else w

def World.free (buffer : Option (List Byte)) : World :=
  if buffer.isSome then { w with freed := w.freed + 1 } else w

end Stdio

/-- What `fread` stores of the one item of `size` bytes at `pos`. -/
def fread (L : Stdio) (content : List Byte) (pos size : Nat) : List Byte :=
  if pos + size ≤ content.length then slice content pos size
  else (content.drop pos).take (L.stores (content.length - pos))

/-- `malloc`; NULL is `none`. -/
def mallocBytes (L : Stdio) (n : Nat) : Option (List Byte) :=
  if L.alloc n then some ((List.range n).map L.fill) else none

/-- What `fread` stores goes to `ptr`. -/
def freadInto (ptr : Option (List Byte)) (bytes : List Byte) :
    Except MemoryFault (Option (List Byte)) :=
  match ptr, bytes with
  | some m, bytes => .ok (some (splice m 0 bytes))
  | none, [] => .ok none
  | none, _ :: _ => .error .null

def readBytes (m : List Byte) (n : Nat) : Except MemoryFault (List Byte) :=
  if n ≤ m.length then .ok (m.take n) else .error (.read m.length)

/-! ## `tyr_serialize_to_file` -/

/-- `s` returns NULL or a buffer. -/
def tyr_serialize_to_file {α : Type} (host : Bool) (L : Stdio) (s : α → Option (List Byte))
    (tyr_struct_ptr : α) (w : World) : Except MemoryFault (Bool × World) :=
  match fopenWrite L w with
  | none => pure (false, w)
  | some w =>
    match s tyr_struct_ptr with
    | none => pure (false, w)
    | some serialized => do
      let w := w.obtain (some serialized)
      let serialized_len ← readU64 host serialized
      let bytes ← readBytes serialized serialized_len
      let (items_written, w) := fwrite L w bytes
      if items_written ≠ serialized_len then pure (false, w)
      else pure (true, fclose L (w.free (some serialized)))

/-! ## `tyr_deserialize_from_file` -/

/-- The pointers `d` was called on, what is returned (`none` is NULL) and what is left. -/
structure Reading (R : Type) where
  calls : List (Option (List Byte))
  returned : Option R
  world : World

/-- `serialized_len`, which was 0, after the first read. -/
def readLen (host : Bool) (L : Stdio) (content : List Byte) : Nat :=
  ofLE (inOrder host (splice (List.replicate 8 0) 0 (fread L content 0 8)))

def tyr_deserialize_from_file {R : Type} (host : Bool) (L : Stdio)
    (d : Option (List Byte) → Option R) (w : World) : Except MemoryFault (Reading R) :=
  match fopenRead L w with
  | none => pure ⟨[], none, w⟩
  | some (content, w) => do
    let serialized_len := readLen host L content
    let w := w.obtain (mallocBytes L serialized_len)
    -- `fseek` has put the stream back to the first byte
    let serialized_struct ←
      freadInto (mallocBytes L serialized_len) (fread L content 0 serialized_len)
    match d serialized_struct with
    | none => pure ⟨[serialized_struct], none, w⟩
    | some deserialized =>
      pure ⟨[serialized_struct], some deserialized, (fclose L w).free serialized_struct⟩

/-! ## What the reader hands on -/

/-- The size in the first eight bytes counts them, and the file has as many bytes. -/
structure Complete (host : Bool) (content : List Byte) : Prop where
  header : 8 ≤ content.length
  counted : 8 ≤ ofLE (inOrder host (content.take 8))
  whole : ofLE (inOrder host (content.take 8)) ≤ content.length

section Reader

open Fallible

variable {R : Type} {host : Bool} {L : Stdio} {d : Option (List Byte) → Option R} {w : World}
  {content : List Byte}

theorem fread_all {n : Nat} (hn : n ≤ content.length) :
    fread L content 0 n = content.take n := by
  unfold fread
  rw [if_pos (by omega), slice, List.drop_zero]

/-- A window written over as a whole. -/
theorem splice_whole {m bytes : List Byte} (h : bytes.length = m.length) :
    splice m 0 bytes = bytes := by
  rw [splice, List.take_zero, List.nil_append, Nat.zero_add, h, List.drop_length,
    List.append_nil]

theorem readLen_eq (hlen : 8 ≤ content.length) :
    readLen host L content = ofLE (inOrder host (content.take 8)) := by
  unfold readLen
  rw [fread_all hlen, splice_whole (by rw [List.length_take, List.length_replicate]; omega)]

theorem fopenRead_of_opens (hfile : w.file = some content) (hopen : L.opens = true) :
    ∃ w', fopenRead L w = some (content, w') := by
  refine ⟨{ w with pending := [], opened := w.opened + 1 }, ?_⟩
  unfold fopenRead
  rw [hfile]
  simp only [hopen, if_true]

theorem deserialize_unopened (hopen : L.opens = false) :
    tyr_deserialize_from_file host L d w = .ok ⟨[], none, w⟩ := by
  have hnone : fopenRead L w = none := by
    unfold fopenRead
    cases w.file <;> simp [hopen]
  unfold tyr_deserialize_from_file
  rw [hnone]
  rfl

section Opened

variable (hfile : w.file = some content) (hopen : L.opens = true)
include hfile hopen

/-- Once the file is open `d` is called, on the block that the second read has filled or not. -/
theorem deserialize_calls {ptr : Option (List Byte)}
    (hread : freadInto (mallocBytes L (readLen host L content))
      (fread L content 0 (readLen host L content)) = .ok ptr) :
    ∃ o, tyr_deserialize_from_file host L d w = .ok o ∧ o.calls = [ptr] ∧ o.returned = d ptr := by
  obtain ⟨w', hw'⟩ := fopenRead_of_opens hfile hopen
  unfold tyr_deserialize_from_file
  rw [hw']
  simp only [hread, ok_bind]
  cases d ptr with
  | none => exact ⟨_, rfl, rfl, rfl⟩
  | some r => exact ⟨_, rfl, rfl, rfl⟩

theorem deserialize_fault {e : MemoryFault}
    (hread : freadInto (mallocBytes L (readLen host L content))
      (fread L content 0 (readLen host L content)) = .error e) :
    tyr_deserialize_from_file host L d w = .error e := by
  obtain ⟨w', hw'⟩ := fopenRead_of_opens hfile hopen
  unfold tyr_deserialize_from_file
  rw [hw']
  simp only [hread, error_bind]

/-- A complete file is read into the block. -/
theorem deserialize_complete (hc : Complete host content)
    (halloc : L.alloc (readLen host L content) = true) :
    ∃ o, tyr_deserialize_from_file host L d w = .ok o ∧
      o.calls = [some (content.take (readLen host L content))] ∧
      o.returned = d (some (content.take (readLen host L content))) := by
  have hle : readLen host L content ≤ content.length := by
    rw [readLen_eq hc.header]
    exact hc.whole
  apply deserialize_calls hfile hopen
  unfold mallocBytes
  rw [fread_all hle, if_pos halloc, freadInto, splice_whole]
  rw [List.length_take, List.length_map, List.length_range, Nat.min_eq_left hle]

/-- Storing a complete file through NULL. -/
theorem deserialize_unread (hc : Complete host content)
    (halloc : ¬ L.alloc (readLen host L content) = true) :
    tyr_deserialize_from_file host L d w = .error .null := by
  have hle : readLen host L content ≤ content.length := by
    rw [readLen_eq hc.header]
    exact hc.whole
  have hpos : 0 < readLen host L content := by
    rw [readLen_eq hc.header]
    exact Nat.lt_of_lt_of_le (by decide) hc.counted
  apply deserialize_fault hfile hopen
  unfold mallocBytes
  rw [fread_all hle, if_neg halloc]
  obtain ⟨b, bs, hbytes⟩ : ∃ b bs, content.take (readLen host L content) = b :: bs := by
    apply List.exists_cons_of_length_pos
    rw [List.length_take]
    omega
  rw [hbytes]
  rfl

end Opened

end Reader

/-! ## Files that are read back -/

section ReadsOnlyFile

variable {R : Type} (host : Bool) (L : Stdio) (d : Option (List Byte) → Option R) (w : World)
  (content : List Byte)

/-- `d` is called at most on the bytes of a complete file, and any other file is refused. -/
def ReadsOnlyFile : Prop :=
  ∃ o, tyr_deserialize_from_file host L d w = .ok o ∧
    (∀ ptr ∈ o.calls, Complete host content ∧
      ptr = some (content.take (ofLE (inOrder host (content.take 8))))) ∧
    (¬ Complete host content → o.calls = [] ∧ o.returned = none)

variable {host L d w content}

theorem readsOnlyFile_iff (hfile : w.file = some content) :
    ReadsOnlyFile host L d w content ↔ (L.opens = true → Complete host content ∧
      L.alloc (ofLE (inOrder host (content.take 8))) = true) := by
  constructor
  · intro h hopen
    obtain ⟨o, hrun, hcalls, hrefuses⟩ := h
    by_cases hc : Complete host content
    · refine ⟨hc, ?_⟩
      by_contra halloc
      rw [← readLen_eq hc.header] at halloc
      rw [deserialize_unread hfile hopen hc halloc] at hrun
      cases hrun
    · exfalso
      -- `d` is called all the same, or the block is NULL and the file fills it
      cases hread : freadInto (mallocBytes L (readLen host L content))
          (fread L content 0 (readLen host L content)) with
      | error e =>
        rw [deserialize_fault hfile hopen hread] at hrun
        cases hrun
      | ok ptr =>
        obtain ⟨o', hrun', hcall, -⟩ := deserialize_calls (d := d) hfile hopen hread
        rw [hrun'] at hrun
        obtain rfl := Except.ok.inj hrun
        have hnil := (hrefuses hc).1
        rw [hcall] at hnil
        cases hnil
  · intro h
    cases hopen : L.opens with
    | false =>
      exact ⟨_, deserialize_unopened hopen, fun ptr hptr => (List.not_mem_nil hptr).elim,
        fun _ => ⟨rfl, rfl⟩⟩
    | true =>
      obtain ⟨hc, halloc⟩ := h hopen
      rw [← readLen_eq hc.header] at halloc
      obtain ⟨o, hrun, hcall, -⟩ := deserialize_complete (d := d) hfile hopen hc halloc
      refine ⟨o, hrun, fun ptr hptr => ⟨hc, ?_⟩, fun hnot => absurd hc hnot⟩
      rw [hcall, readLen_eq hc.header] at hptr
      exact List.mem_singleton.mp hptr

end ReadsOnlyFile

/-! ## What the writer leaves -/

section Writer

open Fallible

variable {α : Type} {host : Bool} {L : Stdio} {s : α → Option (List Byte)} {p : α}
  {w w' : World} {B rest : List Byte}

theorem Framed.complete (hB : Framed host B) : Complete host B where
  header := hB.le
  counted := by rw [hB.header]; exact hB.le
  whole := by rw [hB.header]

theorem readU64_framed (hB : Framed host B) : readU64 host (B ++ rest) = .ok B.length := by
  have hle := hB.le
  unfold readU64
  rw [if_pos (by rw [List.length_append]; omega), List.take_append_of_le_length hle, hB.header]

/-- On success all bytes of the buffer have been written, and closing the stream brings them to
    the file. -/
theorem serialize_file (hB : Framed host B) (hs : s p = some (B ++ rest))
    (hrun : tyr_serialize_to_file host L s p w = .ok (true, w')) (hclose : L.closes = true) :
    w'.file = some B := by
  unfold tyr_serialize_to_file fopenWrite at hrun
  cases hopen : L.opens with
  | false => simp [hopen, pure, Except.pure] at hrun
  | true =>
    have hbytes : readBytes (B ++ rest) B.length = .ok B := by
      unfold readBytes
      rw [if_pos (by simp), List.take_left]
    simp only [hopen, if_true, hs, readU64_framed hB, hbytes, ok_bind] at hrun
    split at hrun
    · cases hrun
    · next hitems =>
      have hall : min (L.writes B.length) B.length = B.length := not_not.mp hitems
      obtain rfl := (Prod.mk.inj (Except.ok.inj hrun)).2
      simp only [fclose, World.free, World.obtain, fwrite, hclose, hall, Option.isSome_some,
        if_true, Option.map_some, List.nil_append, List.take_length, List.take_append_drop]

end Writer

/-! ## Main result -/

/-- `d` gets the bytes of a complete file and nothing else exactly for the complete files whose
    buffer can be allocated; such is every file a successful `tyr_serialize_to_file` left, if
    closing it succeeded. -/
theorem reads_only_file_iff {R : Type} (host : Bool) (L : Stdio)
    (d : Option (List Byte) → Option R) :
    (∀ (w : World) (content : List Byte), w.file = some content →
      (ReadsOnlyFile host L d w content ↔ (L.opens = true → Complete host content ∧
        L.alloc (ofLE (inOrder host (content.take 8))) = true))) ∧
    ∀ {α : Type} (L' : Stdio) (s : α → Option (List Byte)) (p : α) (w w' : World)
      (B rest : List Byte), Framed host B → s p = some (B ++ rest) →
      tyr_serialize_to_file host L' s p w = .ok (true, w') → L'.closes = true →
      L.opens = true → L.alloc B.length = true →
      ∃ o, tyr_deserialize_from_file host L d w' = .ok o ∧ o.calls = [some B] ∧
        o.returned = d (some B) := by
  refine ⟨fun w content hfile => readsOnlyFile_iff hfile, ?_⟩
  intro α L' s p w w' B rest hB hs hrun hclose hopen halloc
  have hlen : readLen host L B = B.length := by rw [readLen_eq hB.le, hB.header]
  have hread := deserialize_complete (d := d) (serialize_file hB hs hrun hclose) hopen
    hB.complete (by rw [hlen]; exact halloc)
  rwa [hlen, List.take_length] at hread

/-- A C library on which everything succeeds, whole items are read and new blocks are clear. -/
def Stdio.reliable : Stdio where
  opens := true
  writes n := n
  flushes _ := 0
  stores _ := 0
  closes := true
  alloc _ := true
  fill _ := 0

/-- A world with one file. -/
def World.of (content : List Byte) : World := ⟨some content, [], 0, 0, 0, 0⟩

/-- Nine bytes, saved over an older file and read back. -/
theorem reads_only_file_small :
    (ReadsOnlyFile false .reliable (fun ptr => ptr) (.of [9, 0, 0, 0, 0, 0, 0, 0, 42])
        [9, 0, 0, 0, 0, 0, 0, 0, 42] ↔
      (true = true → Complete false [9, 0, 0, 0, 0, 0, 0, 0, 42] ∧ true = true)) ∧
    ∃ w' o, tyr_serialize_to_file false .reliable
        (fun _ : Unit => some [9, 0, 0, 0, 0, 0, 0, 0, 42]) () (.of [1, 2, 3]) = .ok (true, w') ∧
      tyr_deserialize_from_file false .reliable (fun ptr => ptr) w' = .ok o ∧
      o.calls = [some [9, 0, 0, 0, 0, 0, 0, 0, 42]] := by
  have h := reads_only_file_iff false .reliable (fun ptr : Option (List Byte) => ptr)
  refine ⟨h.1 (.of [9, 0, 0, 0, 0, 0, 0, 0, 42]) _ rfl, ?_⟩
  obtain ⟨o, hread, hcalls, -⟩ := h.2 .reliable
    (fun _ : Unit => some [9, 0, 0, 0, 0, 0, 0, 0, 42]) () (.of [1, 2, 3]) _
    [9, 0, 0, 0, 0, 0, 0, 0, 42] [] ⟨by decide, by decide⟩ rfl rfl rfl rfl rfl
  exact ⟨_, o, rfl, hread, hcalls⟩

/-- A file with nothing but a size, of 16 bytes: `d` gets a block that was never filled. -/
theorem truncated_file_accepted :
    ¬ ReadsOnlyFile false .reliable (fun ptr => ptr) (.of [16, 0, 0, 0, 0, 0, 0, 0])
      [16, 0, 0, 0, 0, 0, 0, 0] := by
  intro h
  have hc := ((readsOnlyFile_iff rfl).mp h rfl).1
  exact absurd hc.whole (by decide)

end Runtime

end Tyr
