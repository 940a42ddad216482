import Tyr.Runtime.Save
import Tyr.Wire.Exchange

/-
  The file helpers with the generated code: structs that processes leave each other in a file.

  `tyr_serialize_to_file` calls `serialize_S` and `tyr_deserialize_from_file` calls
  `deserialize_S`; what passes between them and the code is the bytes of a block.

  `Record.FileStep` says what that is for: each process has a store of records, and there is one
  place where the last record saved is kept. `files_refine`: every run of little-endian
  processes is a run of such stores, as long as nothing is loaded after a save that failed.
-/

namespace Tyr

open Prog

universe u v

/-! ## A place for one record -/

namespace Record

variable {ι : Type u} {κ : Type v}

/-- The store of each process, and the record that can be loaded, if any. -/
structure Files (ι : Type u) (κ : Type v) where
  store : ι → Store κ
  saved : Option (Record κ)

inductive FileEvent (κ : Type v) where
  | call (op : Op κ) (result : Result)
  | save (b : Nat) (done : Bool)
  | load (b : Nat)

/-- A save that fails may destroy what was saved before. -/
inductive FileStep [DecidableEq ι] [DecidableEq κ] (isMutable : κ → Bool) :
    Files ι κ → ι × FileEvent κ → Files ι κ → Prop where
  | call {x : Files ι κ} {i : ι} {op : Op κ} {result : Result} {st : Store κ}
      (h : Step isMutable (x.store i) (op, result) st) :
      FileStep isMutable x (i, .call op result) ⟨Function.update x.store i st, x.saved⟩
  | save {x : Files ι κ} {i : ι} {b : Nat} {r : Record κ} (hb : x.store i b = some r) :
      FileStep isMutable x (i, .save b true) ⟨x.store, some r⟩
  | keep {x : Files ι κ} {i : ι} {b : Nat} {r : Record κ} (hb : x.store i b = some r) :
      FileStep isMutable x (i, .save b false) x
  | lose {x : Files ι κ} {i : ι} {b : Nat} {r : Record κ} (hb : x.store i b = some r) :
      FileStep isMutable x (i, .save b false) ⟨x.store, none⟩
  | load {x : Files ι κ} {i : ι} {b : Nat} {r : Record κ} (hr : x.saved = some r)
      (hb : x.store i b = none) :
      FileStep isMutable x (i, .load b)
        ⟨Function.update x.store i (Function.update (x.store i) b (some r)), x.saved⟩

end Record

/-! ## Blocks as bytes -/

namespace Env

variable {E : Env} {S : Struct} {V : Value} {cs : List Cell} {h : Heap} {f : Field}

/-- Bytes stay what they are. -/
theorem slice_bytesOf {o n : Nat} {bs : List Byte} (hcs : slice cs o n = bs.map Cell.byte) :
    slice ((E.bytesOf cs).map Cell.byte) o n = bs.map Cell.byte := by
  rw [slice_map, bytesOf, slice_map, hcs, map_toByte_byte]

/-- Only what the padding holds may be lost. -/
theorem Wire.readBytes (hw : E.Wire S V cs) (E' : Env) :
    E.Wire S V ((E'.bytesOf cs).map .byte) where
  length := by
    rw [List.length_map, Env.bytesOf, List.length_map]
    exact hw.length
  header := slice_bytesOf hw.header
  fields := hw.fields.imp fun f _ _ o hfield => by
    unfold FieldWire at hfield ⊢
    split
    · next hr =>
      rw [if_pos hr] at hfield
      exact ⟨slice_bytesOf hfield.1, fun k v hk => slice_bytesOf (hfield.2 k v hk)⟩
    · next hr =>
      rw [if_neg hr] at hfield
      exact slice_bytesOf hfield

/-- The size that generated code writes is the one that the file helpers of a little-endian machine
    read. -/
theorem Wire.framed (hw : E.Wire S V cs) (hsize : V.size E.layout S < 2 ^ 64) :
    Runtime.Framed false (E.bytesOf cs) where
  le := by
    rw [Env.bytesOf, List.length_map, hw.length]
    exact Nat.le_add_right 8 _
  header := by
    have hhead : slice (E.bytesOf cs) 0 8 = toLE 8 (V.size E.layout S) := by
      rw [Env.bytesOf, slice_map, hw.header, map_toByte_byte]
    show ofLE (slice (E.bytesOf cs) 0 8) = _
    rw [hhead, ofLE_toLE, Env.bytesOf, List.length_map, hw.length]
    exact Nat.mod_eq_of_lt hsize

theorem bytes_fit {bs : List Byte} (h : bs.length < 2 ^ 64) :
    (bs.map Cell.byte).length < 2 ^ 64 := by rwa [List.length_map]

/-! ## The code as the helpers call it -/

variable (E S)

/-- `serialize_S` in the heap `h`: what can be read from the pointer it returns. -/
def serializer_fn (h : Heap) (tyr_struct_ptr : Ptr) : Option (List Byte) :=
  match E.getSerializer S tyr_struct_ptr h with
  | .ok (.loc b _, h') => (h'.block? b).map fun buf => E.bytesOf buf.cells
  | _ => none

/-- `deserialize_S` on a new block in the heap `h`. -/
def deserializer_fn (h : Heap) : Option (List Byte) → Option (Ptr × Heap)
  | some serialized =>
    if hfit : serialized.length < 2 ^ 64 then
      match E.getDeserializer S (.base h.next) (h.push ⟨serialized.map .byte, bytes_fit hfit⟩) with
      | .ok (.loc b o, h') => some (.loc b o, h')
      | _ => none
    else none
  | none => none

variable {E S}

theorem serializer_fn_eq {p : Ptr} {out : Block}
    (hrun : E.getSerializer S p h = .ok (.base h.next, h.push out)) :
    E.serializer_fn S h p = some (E.bytesOf out.cells) := by
  unfold serializer_fn
  rw [hrun]
  simp only [Heap.block?_push_self, Option.map_some]

theorem deserializer_fn_eq {bs : List Byte} (hfit : bs.length < 2 ^ 64) {b : Nat} {h' : Heap}
    (hrun : E.getDeserializer S (.base h.next) (h.push ⟨bs.map .byte, bytes_fit hfit⟩) =
      .ok (.base b, h')) :
    E.deserializer_fn S h (some bs) = some (.base b, h') := by
  simp only [deserializer_fn, hfit, dite_true, hrun]

/-- The arrays of a loaded struct are not in a block that was there before. -/
theorem FieldLoaded.kill {lo a : Nat} {obj : Block} (hload : E.FieldLoaded S V lo h obj f)
    (ha : a < lo) : E.FieldLoaded S V lo (h.kill a) obj f := by
  unfold FieldLoaded at hload ⊢
  split
  · next hr =>
    rw [if_pos hr] at hload
    obtain ⟨hcount, d, arr, hle, hp, hd, hrest⟩ := hload
    have hne : d ≠ a := Nat.ne_of_gt (Nat.lt_of_lt_of_le ha hle)
    exact ⟨hcount, d, arr, hle, hp, (Heap.block?_kill_ne h hne).trans hd, hrest⟩
  · next hr => rwa [if_neg hr] at hload

end Env

/-! ## The helpers -/

namespace Runtime

open Fallible

variable {R α : Type} {host : Bool} {L : Stdio} {d : Option (List Byte) → Option R}
  {s : α → Option (List Byte)} {p : α} {w w' : World} {B : List Byte} {done : Bool}

theorem file_obtain (w : World) (buffer : Option (List Byte)) :
    (w.obtain buffer).file = w.file ∧ (w.obtain buffer).pending = w.pending := by
  unfold World.obtain
  split <;> exact ⟨rfl, rfl⟩

theorem file_free (w : World) (buffer : Option (List Byte)) : (w.free buffer).file = w.file := by
  unfold World.free
  split <;> rfl

/-- A stream that was only read from. -/
theorem file_fclose (hpending : w.pending = []) : (fclose L w).file = w.file := by
  unfold fclose
  rw [hpending]
  cases w.file <;> simp

/-- Reading leaves the file as it is. -/
theorem deserialize_file {o : Reading R}
    (hrun : tyr_deserialize_from_file host L d w = .ok o) : o.world.file = w.file := by
  unfold tyr_deserialize_from_file at hrun
  split at hrun
  · obtain rfl := Except.ok.inj hrun
    rfl
  · next content w₁ hopen =>
    obtain ⟨hfile, hpending⟩ : w₁.file = w.file ∧ w₁.pending = [] := by
      unfold fopenRead at hopen
      split at hopen
      · split at hopen
        · obtain rfl := (Prod.mk.inj (Option.some.inj hopen)).2
          exact ⟨rfl, rfl⟩
        · cases hopen
      · cases hopen
    have hobtain := file_obtain w₁ (mallocBytes L (readLen host L content))
    cases hread : freadInto (mallocBytes L (readLen host L content))
      (fread L content 0 (readLen host L content)) with
    | error e => simp only [hread, error_bind, reduceCtorEq] at hrun
    | ok ptr =>
      simp only [hread, ok_bind] at hrun
      split at hrun
      · obtain rfl := Except.ok.inj hrun
        exact hobtain.1.trans hfile
      · obtain rfl := Except.ok.inj hrun
        rw [file_free, file_fclose (hobtain.2.trans hpending), hobtain.1, hfile]

/-- What is returned is what `d` makes of a framed file. -/
theorem deserialize_framed {o : Reading R} (hfile : w.file = some B) (hB : Framed host B)
    (hrun : tyr_deserialize_from_file host L d w = .ok o) :
    o.returned = if L.opens then d (some B) else none := by
  have hlen : readLen host L B = B.length := by rw [readLen_eq hB.le, hB.header]
  cases hopen : L.opens with
  | false =>
    rw [deserialize_unopened hopen] at hrun
    obtain rfl := Except.ok.inj hrun
    rfl
  | true =>
    by_cases halloc : L.alloc (readLen host L B) = true
    · obtain ⟨o', hrun', -, hret⟩ := deserialize_complete (d := d) hfile hopen hB.complete halloc
      obtain rfl := Except.ok.inj (hrun'.symm.trans hrun)
      rw [hret, hlen, List.take_length]
      rfl
    · rw [deserialize_unread hfile hopen hB.complete halloc] at hrun
      cases hrun

/-- A save of a framed buffer is answered. -/
theorem serialize_answers (hB : Framed host B) (hs : s p = some B) : ∃ done w',
    tyr_serialize_to_file host L s p w = .ok (done, w') ∧
      (done = true ↔ L.opens = true ∧ B.length ≤ L.writes B.length) := by
  have hheader : headerOf host B = B.length := hB.header
  have hwhole : headerOf host B ≤ B.length := hheader.le
  cases hopen : L.opens with
  | false => exact ⟨false, w, save_unopened hopen, by simp⟩
  | true =>
    by_cases hwritten : B.length ≤ L.writes B.length
    · obtain ⟨w', hrun, -⟩ := save_done (w := w) hopen hs hB.le hwhole (by rwa [hheader])
      exact ⟨true, w', hrun, by simp [hwritten]⟩
    · obtain ⟨w', hrun, -⟩ := save_short (w := w) hopen hs hB.le hwhole (by rwa [hheader])
      exact ⟨false, w', hrun, by simp [hwritten]⟩

end Runtime

/-! ## Processes -/

namespace Network

variable {ι : Type u} (N : Network ι) (S : Struct)

/-- The memory of every process, the file and its streams, and whether the last save that opened
    the file succeeded. -/
structure Processes (ι : Type u) where
  world : ι → World
  disk : Runtime.World
  saved : Bool

/-- The heap after a save: the buffer is freed where all of it was written, and not made where the
    file does not open. -/
def heapAfterSave (L : Runtime.Stdio) (done : Bool) (before after : Heap) : Heap :=
  if L.opens then if done then after.kill before.next else after else before

theorem block?_heapAfterSave {L : Runtime.Stdio} {done : Bool} {h : Heap} {out : Block} {d : Nat}
    (hd : d < h.next) : (heapAfterSave L done h (h.push out)).block? d = h.block? d := by
  unfold heapAfterSave
  split
  · split
    · rw [Heap.block?_kill_ne _ (Nat.ne_of_lt hd), Heap.block?_push_of_lt hd]
    · exact Heap.block?_push_of_lt hd out
  · rfl

/-- One call at one process, with a C library that does what it likes except that `fclose` succeeds
    after a save. Nothing is loaded after a failed save. -/
inductive FileStep [DecidableEq ι] :
    Processes ι → ι × Record.FileEvent Field → Processes ι → Prop where
  | call {x : Processes ι} {i : ι} {w : World} {op : Record.Op Field} {result : Record.Result}
      (h : Env.ObservedStep (N.env S i) S (x.world i) (op, result) w) :
      FileStep x (i, .call op result) ⟨Function.update x.world i w, x.disk, x.saved⟩
  | save {x : Processes ι} {i : ι} {w : World} {b : Nat} {blk : Block} {L : Runtime.Stdio}
      {done : Bool} {disk : Runtime.World} {q : Ptr} {h' : Heap}
      (hw : Env.CallerStep (N.env S i) S (x.world i) w) (hb : b ∈ w.structs)
      (hl : w.heap.block? b = some blk) (hsend : N.Sendable S i w.heap blk)
      (hclose : L.closes = true)
      (hser : (N.env S i).getSerializer S (.base b) w.heap = .ok (q, h'))
      (hrun : Runtime.tyr_serialize_to_file (N.bigEndian i) L
        ((N.env S i).serializer_fn S w.heap) (.base b) x.disk = .ok (done, disk)) :
      FileStep x (i, .save b done)
        ⟨Function.update x.world i ⟨heapAfterSave L done w.heap h', w.structs⟩, disk,
          if L.opens then done else x.saved⟩
  | load {x : Processes ι} {i : ι} {w : World} {b : Nat} {L : Runtime.Stdio}
      {o : Runtime.Reading (Ptr × Heap)} {h' : Heap}
      (hw : Env.CallerStep (N.env S i) S (x.world i) w) (hsaved : x.saved = true)
      (hrun : Runtime.tyr_deserialize_from_file (N.bigEndian i) L
        ((N.env S i).deserializer_fn S w.heap) x.disk = .ok o)
      (hret : o.returned = some (.base b, h')) :
      FileStep x (i, .load b)
        ⟨Function.update x.world i
            ⟨h'.kill w.heap.next, Env.withResult w.structs (.base b)⟩, o.world, x.saved⟩

/-- The file holds the record that can be loaded. -/
structure Stores (x : Processes ι) (y : Record.Files ι Field) : Prop where
  world : ∀ i, (N.env S i).Represents S (x.world i) (y.store i)
  file : x.saved = true → ∃ r B, y.saved = some r ∧ x.disk.file = some B ∧
    Runtime.Framed false B ∧ N.Message S (B.map .byte) r

/-- Accessor calls and saves return; where the C library has no failure a save succeeds, and a load
    returns a struct. -/
structure FilesAnswer (x : Processes ι) : Prop where
  call : ∀ i w c, Env.CallerStep (N.env S i) S (x.world i) w → Env.Proper (N.env S i) S w c →
    Env.Regular (N.env S i) S c → ∃ v h', (N.env S i).call S c w.heap = .ok (v, h')
  save : ∀ i w b blk L, Env.CallerStep (N.env S i) S (x.world i) w → b ∈ w.structs →
    w.heap.block? b = some blk → N.Sendable S i w.heap blk →
      ∃ done disk, Runtime.tyr_serialize_to_file (N.bigEndian i) L
          ((N.env S i).serializer_fn S w.heap) (.base b) x.disk = .ok (done, disk) ∧
        (L.opens = true → (∀ n, n ≤ L.writes n) → done = true)
  load : ∀ i w L, Env.CallerStep (N.env S i) S (x.world i) w → x.saved = true →
    L.opens = true → (∀ n, L.alloc n = true) →
      ∃ o b h', Runtime.tyr_deserialize_from_file (N.bigEndian i) L
          ((N.env S i).deserializer_fn S w.heap) x.disk = .ok o ∧
        o.returned = some (.base b, h')

variable {N S} {x : Processes ι} {y : Record.Files ι Field} {i : ι} {blk : Block}
  {r : Record Field}

section Calls

variable (flat : S.IsFlat) (hn : S.DistinctNames) (hA : ∀ i t n, (N.alloc i).succeeds t n = true)
  {w : World} {st : Record.Store Field} {b : Nat}
include flat hn hA

/-- The bytes that a helper gets are a framed message. -/
theorem save_bytes (hrep : (N.env S i).Represents S w st) (hb : b ∈ w.structs)
    (hl : w.heap.block? b = some blk) (hsend : N.Sendable S i w.heap blk) :
    ∃ out r, (N.env S i).getSerializer S (.base b) w.heap =
        .ok (.base w.heap.next, w.heap.push out) ∧ st b = some r ∧
      (N.env S i).serializer_fn S w.heap (.base b) = some ((N.env S i).bytesOf out.cells) ∧
      Runtime.Framed false ((N.env S i).bytesOf out.cells) ∧
      N.Message S (((N.env S i).bytesOf out.cells).map .byte) r := by
  obtain ⟨out, r, hrun, hst, hmsg⟩ := send_ok flat hn hA hrep hb hl hsend
  obtain ⟨p, h₁, hser, hp⟩ := bind_eq_ok hrun
  cases hp
  have hsize : r.value.size (N.env S i).layout S < 2 ^ 64 := by
    rw [← (hmsg.wire i).length]
    exact out.fits
  exact ⟨out, r, hser, hst, Env.serializer_fn_eq hser, (hmsg.wire i).framed hsize,
    ⟨hmsg.bounded, fun j => (hmsg.wire j).readBytes _, hmsg.swappable⟩⟩

variable (hstruct : N.layout.structSize S.packed S.elements < 2 ^ 64)
include hstruct

/-- A struct is made of the bytes, and the block with the bytes is freed. -/
theorem load_bytes (hrep : (N.env S i).Represents S w st) {B : List Byte}
    (hfit : B.length < 2 ^ 64) (hV : r.value.Bounded N.layout S)
    (hsw : ∀ f ∈ S.fields, f.isCount = false → (N.env S i).FieldSwappable r.value f)
    (hcarry : (N.env S i).Carries S r.value (B.map .byte)) :
    ∃ h', (N.env S i).deserializer_fn S w.heap (some B) = some (.base (w.heap.next + 1), h') ∧
      st (w.heap.next + 1) = none ∧
      (N.env S i).Represents S
        ⟨h'.kill w.heap.next, Env.withResult w.structs (.base (w.heap.next + 1))⟩
        (Function.update st (w.heap.next + 1) (some r)) := by
  set buf : Block := ⟨B.map .byte, Env.bytes_fit hfit⟩ with hbuf
  obtain ⟨h', obj, hrun, hobj, hval, hload, hapart, hk⟩ := Env.getDeserializer_new flat
    (resolves hn i) (closed i) (hA i) hstruct hV hsw hcarry (Heap.block?_push_self w.heap buf)
  rw [Heap.next_push] at hrun hobj hload hk
  have hlt : ∀ {d}, (N.env S i).Owns S w d → d < w.heap.next := hrep.owned.lt_next
  -- the world in which the block is gone already
  have hrep₁ := hrep.frame ⟨(w.heap.push buf).kill w.heap.next, w.structs⟩ rfl fun d hd => by
    rw [Heap.block?_kill_ne _ (Nat.ne_of_lt (hlt hd)), Heap.block?_push_of_lt (hlt hd)]
  have hnext : ((w.heap.push buf).kill w.heap.next).next = w.heap.next + 1 := by
    rw [Heap.next_kill, Heap.next_push]
  have hload' : ∀ f ∈ S.fields, f.isCount = false → (N.env S i).FieldLoaded S r.value
      (w.heap.next + 1 + 1) (h'.kill w.heap.next) obj f := fun f hf hc =>
    (hload f hf hc).kill (by omega)
  have hobj' : (h'.kill w.heap.next).block? (w.heap.next + 1) = some obj := by
    rw [Heap.block?_kill_ne _ (by omega), hobj]
  have hval' := Env.hasValue_of_loaded flat.toWellFormed hV hval.holds hload'
  have hkeep : ∀ d < w.heap.next + 1, (h'.kill w.heap.next).block? d =
      ((w.heap.push buf).kill w.heap.next).block? d := by
    intro d hd
    by_cases hda : d = w.heap.next
    · rw [hda, Heap.block?_kill_self, Heap.block?_kill_self]
    · rw [Heap.block?_kill_ne _ hda, Heap.block?_kill_ne _ hda, hk d hd]
  have habsent := hrep₁.absent (w.heap.next + 1) fun hm => by
    have hlt' := hlt (Or.inl hm)
    omega
  have hrec := hrep₁.receive flat
    (show (h'.kill w.heap.next).block? ((w.heap.push buf).kill w.heap.next).next = some obj by
      rw [hnext, hobj'])
    hval' (by rw [hnext]; exact hload') hapart (by rw [hnext]; exact hkeep)
  rw [hnext] at hrec
  exact ⟨h', Env.deserializer_fn_eq hfit hrun, habsent, hrec⟩

end Calls

/-- Each step of the processes is one of the stores. -/
theorem fileStep_refines [DecidableEq ι] (flat : S.IsFlat) (hn : S.DistinctNames)
    (hcf : S.CountsFirst) (hA : ∀ i t n, (N.alloc i).succeeds t n = true)
    (hstruct : N.layout.structSize S.packed S.elements < 2 ^ 64)
    (hLE : ∀ i, N.bigEndian i = false) (hrep : N.Stores S x y)
    {e : ι × Record.FileEvent Field} {x' : Processes ι} (hstep : N.FileStep S x e x') :
    ∃ y', Record.FileStep Field.isMutable y e y' ∧ N.Stores S x' y' := by
  have hupdate : ∀ {i : ι} {w : World} {st : Record.Store Field},
      (N.env S i).Represents S w st → ∀ j, (N.env S j).Represents S
        (Function.update x.world i w j) (Function.update y.store i st j) := fun hw j =>
    Represents.update (x := ⟨x.world, []⟩) (y := ⟨y.store, []⟩) ⟨hrep.world, .nil⟩ hw j
  cases hstep with
  | @call i w op result h =>
    obtain ⟨w₁, c, v, hcaller, hproper, hreg, hcall, hs, he⟩ := h
    have hrep₁ := (hrep.world i).frame w₁ hcaller.1 hcaller.2
    obtain ⟨st', h1, h2⟩ := Env.call_refines hrep₁ flat (resolves hn i) (hA i) hcf hstruct hproper
      hreg hcall
    rw [hcaller.1, ← hs] at h2
    rw [← he] at h1
    exact ⟨_, .call h1, hupdate h2, hrep.file⟩
  | @save i w b blk L done disk q h' hw hb hl hsend hclose hser hrun =>
    have hrep₁ := (hrep.world i).frame w hw.1 hw.2
    obtain ⟨out, r, hok, hst, hbytes, hframed, hmsg⟩ := save_bytes flat hn hA hrep₁ hb hl hsend
    obtain ⟨-, rfl⟩ := Prod.mk.inj (Except.ok.inj (hok.symm.trans hser))
    have hafter := hupdate (hrep₁.frame ⟨heapAfterSave L done w.heap (w.heap.push out), w.structs⟩
      rfl fun d hd => block?_heapAfterSave (hrep₁.owned.lt_next hd))
    rw [Function.update_eq_self] at hafter
    rw [hLE i] at hrun
    cases hopen : L.opens with
    | false =>
      rw [Runtime.save_unopened hopen] at hrun
      obtain ⟨rfl, rfl⟩ := Prod.mk.inj (Except.ok.inj hrun)
      exact ⟨y, .keep hst, hafter, hrep.file⟩
    | true =>
      cases done with
      | true =>
        rw [← List.append_nil ((N.env S i).bytesOf out.cells)] at hbytes
        have hfile := Runtime.serialize_file hframed hbytes hrun hclose
        exact ⟨⟨y.store, some r⟩, .save hst, hafter, fun _ => ⟨r, _, rfl, hfile, hframed, hmsg⟩⟩
      | false =>
        refine ⟨⟨y.store, none⟩, .lose hst, hafter, fun h => ?_⟩
        cases h
  | @load i w b L o h' hw hsaved hrun hret =>
    have hrep₁ := (hrep.world i).frame w hw.1 hw.2
    obtain ⟨r, B, hr, hfile, hframed, hmsg⟩ := hrep.file hsaved
    rw [hLE i] at hrun
    obtain ⟨h₁, hd, hnone, hrep₂⟩ := load_bytes flat hn hA hstruct hrep₁ hframed.lt hmsg.bounded
      (hmsg.swappable i) (hmsg.wire i).carries
    have hret' := (Runtime.deserialize_framed hfile hframed hrun).symm.trans hret
    split at hret'
    · rw [hd] at hret'
      obtain ⟨hp, rfl⟩ := Prod.mk.inj (Option.some.inj hret')
      obtain rfl := (Ptr.loc.inj hp).1
      refine ⟨_, .load hr hnone, hupdate hrep₂, fun _ => ⟨r, B, hr, ?_, hframed, hmsg⟩⟩
      exact (Runtime.deserialize_file hrun).trans hfile
    · cases hret'

/-- Where the stores are those of the processes every call is answered. -/
theorem Stores.answers (flat : S.IsFlat) (hn : S.DistinctNames) (hcf : S.CountsFirst)
    (hA : ∀ i t n, (N.alloc i).succeeds t n = true)
    (hstruct : N.layout.structSize S.packed S.elements < 2 ^ 64)
    (hLE : ∀ i, N.bigEndian i = false) (hrep : N.Stores S x y) : N.FilesAnswer S x where
  call i w c hw hproper hreg := by
    obtain ⟨v, h', hok, -⟩ := Env.call_owned ((hrep.world i).frame w hw.1 hw.2).owned flat
      (resolves hn i) (fun t n _ => hA i t n) hstruct hproper (hreg.safe hcf)
    exact ⟨v, h', hok⟩
  save i w b blk L hw hb hl hsend := by
    obtain ⟨out, r, -, -, hbytes, hframed, -⟩ :=
      save_bytes flat hn hA ((hrep.world i).frame w hw.1 hw.2) hb hl hsend
    obtain ⟨done, disk, hrun, hdone⟩ :=
      Runtime.serialize_answers (L := L) (w := x.disk) hframed hbytes
    exact ⟨done, disk, by rw [hLE i]; exact hrun, fun hopen hwrites => hdone.mpr ⟨hopen, hwrites _⟩⟩
  load i w L hw hsaved hopen halloc := by
    obtain ⟨r, B, -, hfile, hframed, hmsg⟩ := hrep.file hsaved
    obtain ⟨h', hd, -⟩ := load_bytes flat hn hA hstruct ((hrep.world i).frame w hw.1 hw.2)
      hframed.lt hmsg.bounded (hmsg.swappable i) (hmsg.wire i).carries
    obtain ⟨o, hrun, -⟩ := Runtime.deserialize_complete
      (d := (N.env S i).deserializer_fn S w.heap) hfile hopen hframed.complete (halloc _)
    have hret := Runtime.deserialize_framed hfile hframed hrun
    rw [hopen, if_pos rfl, hd] at hret
    exact ⟨o, _, h', by rw [hLE i]; exact hrun, hret⟩

end Network

open Network

/-- Every run of little-endian processes that call the accessors properly and share a file is a run
    of stores with one place for a record: what is loaded is the record that was saved last.
    Wherever it has got to, such a call returns; a load, where the C library has the file and the
    memory. -/
theorem files_refine {ι : Type u} [DecidableEq ι] {N : Network ι} {S : Struct}
    (flat : S.IsFlat) (hn : S.DistinctNames) (hcf : S.CountsFirst)
    (hA : ∀ i t n, (N.alloc i).succeeds t n = true)
    (hstruct : N.layout.structSize S.packed S.elements < 2 ^ 64)
    (hLE : ∀ i, N.bigEndian i = false) {x₀ x : Processes ι}
    (h₀ : ∀ i, (x₀.world i).structs = ∅) (hsaved : x₀.saved = false)
    {es : List (ι × Record.FileEvent Field)} (hrun : Run (N.FileStep S) x₀ es x) :
    (∃ y, Run (Record.FileStep Field.isMutable) ⟨fun _ _ => none, none⟩ es y ∧ N.Stores S x y) ∧
      N.FilesAnswer S x := by
  have hstart : N.Stores S x₀ ⟨fun _ _ => none, none⟩ :=
    ⟨fun i => ⟨Env.owned_of_empty (h₀ i), fun _ _ => rfl, fun b hb => by
      rw [h₀ i] at hb
      exact hb.elim⟩, fun h => by rw [hsaved] at h; cases h⟩
  have hsim : ∀ x y e x', N.Stores S x y → N.FileStep S x e x' →
      ∃ y', Record.FileStep Field.isMutable y e y' ∧ N.Stores S x' y' :=
    fun _ _ _ _ hrep hstep => fileStep_refines flat hn hcf hA hstruct hLE hrep hstep
  obtain ⟨y, hy, hrep⟩ := hrun.simulates hsim hstart
  exact ⟨⟨y, hy, hrep⟩, hrep.answers flat hn hcf hA hstruct hLE⟩

/-- Two little-endian processes. -/
def littleEndians : Network Bool := ⟨fun _ => .calloc, .default, fun _ => false⟩

/-- One creates `struct s` with 1.0, saves it over an older file and the other loads it. -/
theorem files_refine_float : ∃ es x,
    Run (littleEndians.FileStep floatStruct) ⟨fun _ => ⟨⟨[], 0⟩, ∅⟩, .of [1, 2, 3], false⟩ es x ∧
    es.map Prod.fst = [false, false, false, true] ∧ x.saved = true ∧
    (∃ y, Run (Record.FileStep Field.isMutable) ⟨fun _ _ => none, none⟩ es y ∧
      littleEndians.Stores floatStruct x y) ∧ littleEndians.FilesAnswer floatStruct x := by
  have hcaller : ∀ i w, Env.CallerStep (littleEndians.env floatStruct i) floatStruct w w :=
    fun _ _ => ⟨rfl, fun _ _ => rfl⟩
  have hsave := FileStep.save (N := littleEndians) (x := ⟨Function.update (Function.update
      (fun _ => ⟨⟨[], 0⟩, ∅⟩) false (floatWorld false 0)) false (floatWorld false 0x3f800000),
      .of [1, 2, 3], false⟩) (L := .reliable) (hcaller false _) (b := 0) (Or.inr rfl) rfl
    ⟨sendable_floatWorld.clean, sendable_floatWorld.size, by unfold Crosses; decide⟩ rfl rfl rfl
  obtain ⟨x, hrun, hsaved⟩ : ∃ x, Run (littleEndians.FileStep floatStruct)
      ⟨fun _ => ⟨⟨[], 0⟩, ∅⟩, .of [1, 2, 3], false⟩
      [_, _, (false, .save 0 true), (true, .load 1)] x ∧ x.saved = true :=
    ⟨_, .cons (.call (i := false) create_floatWorld) (.cons (.call (i := false) set_floatWorld)
      (.cons hsave (.cons (.load (L := .reliable) (hcaller true _) rfl rfl rfl) (.nil _)))), rfl⟩
  exact ⟨_, x, hrun, rfl, hsaved, files_refine floatStruct_isFlat
    (by unfold Struct.DistinctNames; decide) (by decide) (fun _ _ _ => rfl) (by decide)
    (fun _ => rfl) (fun _ => rfl) rfl hrun⟩

end Tyr
