import Tyr.Wire.Serialize

/-
  What `deserialize_S` reads.

  `visits` is the walk over the buffer: one `Visit` for each call of a field deserializer,
  with the offset it reads from. The offsets depend on the counts found in the buffer and on
  which allocations succeed, and on nothing else.
  `deserializeEntries_ok`: when every visit stays in the buffer the run ends with every
  visited field loaded (`Reads`). `deserializeEntries_fault`: otherwise it faults.
  `getDeserializer_ok` adds the size check, which comes after all of this.
-/

namespace Tyr

open Prog

/-! ## The walk over the buffer -/

/-- A call of a field deserializer: the field, its offset in the buffer, the number of
    allocation calls before it, the next block. -/
structure Visit where
  field : Field
  off : I64
  call : Nat
  block : Nat

namespace Visit

variable (E : Env) (buf : List Cell) (v : Visit)

/-- The count found in the buffer. -/
def count : I64 := E.decodeI64 (slice buf v.off.toNat 8)

/-- The size passed to `malloc` and `memcpy`, modulo `2 ^ 64`. -/
def arraySize : I64 := E.sizeFor v.field (v.count E buf)

def allocated : Bool := E.alloc.succeeds v.call (v.arraySize E buf).toNat

/-- Every byte read lies in the buffer. -/
def InBounds : Prop :=
  if v.field.isRepeated then
    v.off.toNat + 8 ≤ buf.length ∧
      (v.allocated E buf = true → v.arraySize E buf ≠ 0 →
        v.off.toNat + 8 + (v.arraySize E buf).toNat ≤ buf.length)
  else v.off.toNat + E.layout.storeSize v.field.type ≤ buf.length

/-- What the field deserializer returns. -/
def advance : I64 :=
  if v.field.isRepeated then if v.allocated E buf then 8 + v.arraySize E buf else 0
  else BitVec.ofNat 64 (E.layout.allocSize v.field.type)

/-- The field's part of the recomputed size. -/
def size : Nat :=
  if v.field.isRepeated then 8 + (v.arraySize E buf).toNat else E.layout.allocSize v.field.type

/-- The same as an exact integer. -/
def exactSize : Nat :=
  if v.field.isRepeated then 8 + E.layout.allocSize v.field.elem * (v.count E buf).toNat
  else E.layout.allocSize v.field.type

instance : Decidable (v.InBounds E buf) := by unfold InBounds; infer_instance

end Visit

namespace Env

variable (E : Env) (S : Struct)

def visits (buf : List Cell) : List Field → I64 → Nat → Nat → List Visit
  | [], _, _, _ => []
  | f :: fs, off, call, block =>
    if f.isCount then visits buf fs off call block
    else
      let v : Visit := ⟨f, off, call, block⟩
      v :: visits buf fs (off + v.advance E buf) (call + if f.isRepeated then 1 else 0)
        (block + if f.isRepeated && v.allocated E buf then 1 else 0)

def headerIn (buf : List Cell) : I64 := E.decodeI64 (slice buf 0 8)

/-- The calls `deserialize_S` makes on heap `h`; the struct is allocated before. -/
def walk (buf : List Cell) (h : Heap) : List Visit :=
  E.visits buf S.fields 8 (h.calls + 1) (h.next + 1)

/-- What the size check compares the header with, before reduction modulo `2 ^ 64`. -/
def walkSize (buf : List Cell) (vs : List Visit) : Nat := 8 + (vs.map (Visit.size E buf)).sum

def exactWalkSize (buf : List Cell) (vs : List Visit) : Nat :=
  8 + (vs.map (Visit.exactSize E buf)).sum

/-- What a visit leaves in the struct, which was `obj₀` before the walk. -/
structure Loaded (buf : List Cell) (h : Heap) (obj₀ obj : Block) (v : Visit) : Prop where
  scalar : v.field.isRepeated = false → E.slot S obj v.field = E.encode v.field.type
    (E.decode v.field.type (slice buf v.off.toNat (E.layout.storeSize v.field.type)))
  count : v.field.isRepeated = true → E.countAt S obj (S.countOf v.field) = v.count E buf
  array : v.field.isRepeated = true → v.allocated E buf = true →
    E.ptrAt S obj v.field = .base v.block ∧ ∃ blk, h.block? v.block = some blk ∧
      blk.cells = slice buf (v.off.toNat + 8) (v.arraySize E buf).toNat
  failed : v.field.isRepeated = true → v.allocated E buf = false →
    E.slot S obj v.field = E.slot S obj₀ v.field

/-- Neither `f` nor its count is `g`. -/
def Untouched (g f : Field) : Prop :=
  f.isCount = false → g ≠ f ∧ (f.isRepeated = true → g ≠ S.countOf f)

/-- The visits `vs` of the fields `fs` take the struct `s` from `obj` to `obj'`. -/
structure Reads (buf : List Cell) (s : Nat) (fs : List Field) (vs : List Visit)
    (h h' : Heap) (obj obj' : Block) : Prop where
  block : h'.block? s = some obj'
  length : obj'.cells.length = obj.cells.length
  other : ∀ b < h.next, b ≠ s → h'.block? b = h.block? b
  next_le : h.next ≤ h'.next
  frame : ∀ g ∈ S.fields, (∀ f ∈ fs, Untouched S g f) → E.slot S obj' g = E.slot S obj g
  loaded : ∀ v ∈ vs, E.Loaded S buf h' obj obj' v

/-- One visit, with its effect on the numbering of calls and blocks. -/
structure Visited (buf : List Cell) (s : Nat) (v : Visit) (h h' : Heap) (obj obj' : Block) : Prop
    extends E.Reads S buf s [v.field] [v] h h' obj obj' where
  calls : h'.calls = h.calls + if v.field.isRepeated then 1 else 0
  next : h'.next = h.next + if v.field.isRepeated && v.allocated E buf then 1 else 0

variable {E S}

theorem mem_visits {buf : List Cell} {fs : List Field} {off : I64} {call block : Nat} {v : Visit}
    (hv : v ∈ E.visits buf fs off call block) : v.field ∈ fs ∧ v.field.isCount = false := by
  induction fs generalizing off call block with
  | nil => cases hv
  | cons f fs ih =>
    rw [visits] at hv
    cases hc : f.isCount with
    | true =>
      rw [if_pos hc] at hv
      exact ⟨List.mem_cons_of_mem f (ih hv).1, (ih hv).2⟩
    | false =>
      rw [if_neg (by simp [hc])] at hv
      rcases List.mem_cons.mp hv with rfl | hv
      · exact ⟨List.mem_cons_self, hc⟩
      · exact ⟨List.mem_cons_of_mem f (ih hv).1, (ih hv).2⟩

/-- Every field that is not a count is visited. -/
theorem exists_visit (E : Env) (buf : List Cell) {fs : List Field} (off : I64)
    (call block : Nat) {f : Field} (hf : f ∈ fs) (hc : f.isCount = false) :
    ∃ v ∈ E.visits buf fs off call block, v.field = f := by
  induction fs generalizing off call block with
  | nil => cases hf
  | cons g fs ih =>
    rw [visits]
    rcases List.mem_cons.mp hf with rfl | hf
    · rw [if_neg (by simp [hc])]
      exact ⟨_, List.mem_cons_self, rfl⟩
    · split
      · exact ih _ _ _ hf
      · obtain ⟨v, hv, he⟩ := ih _ _ _ hf
        exact ⟨v, List.mem_cons_of_mem _ hv, he⟩

theorem block_le_of_mem_visits {buf : List Cell} {fs : List Field} {off : I64}
    {call block : Nat} {v : Visit} (hv : v ∈ E.visits buf fs off call block) :
    block ≤ v.block := by
  induction fs generalizing off call block with
  | nil => cases hv
  | cons f fs ih =>
    rw [visits] at hv
    split at hv
    · exact ih hv
    · rcases List.mem_cons.mp hv with rfl | hv
      · exact Nat.le_refl block
      · exact Nat.le_trans (Nat.le_add_right _ _) (ih hv)

/-- Different arrays get different blocks. -/
theorem visits_block_ne {buf : List Cell} {fs : List Field} {off : I64} {call block : Nat}
    {v w : Visit} (hv : v ∈ E.visits buf fs off call block)
    (hw : w ∈ E.visits buf fs off call block) (hrv : v.field.isRepeated = true)
    (hrw : w.field.isRepeated = true) (hav : v.allocated E buf = true)
    (haw : w.allocated E buf = true) (hne : v.field ≠ w.field) : v.block ≠ w.block := by
  induction fs generalizing off call block with
  | nil => cases hv
  | cons f fs ih =>
    rw [visits] at hv hw
    split at hv
    · next hc => rw [if_pos hc] at hw; exact ih hv hw
    · next hc =>
      rw [if_neg hc] at hw
      -- once a block is given out the next one is larger
      have hlater : ∀ x y : Visit, x = ⟨f, off, call, block⟩ → x.field.isRepeated = true →
          x.allocated E buf = true →
          y ∈ E.visits buf fs (off + x.advance E buf) (call + if f.isRepeated then 1 else 0)
            (block + if f.isRepeated && x.allocated E buf then 1 else 0) →
          x.block < y.block := by
        rintro x y rfl hr ha hy
        have := block_le_of_mem_visits hy
        have hr' : f.isRepeated = true := hr
        simp only [hr', ha, Bool.and_self, if_true] at this
        exact this
      rcases List.mem_cons.mp hv with hv | hv <;> rcases List.mem_cons.mp hw with hw | hw
      · exact absurd (by rw [hv, hw]) hne
      · subst hv
        exact Nat.ne_of_lt (hlater _ w rfl hrv hav hw)
      · subst hw
        exact Nat.ne_of_gt (hlater _ v rfl hrw haw hv)
      · exact ih hv hw

/-! ## One field -/

/-- A visit's effect survives what comes later. -/
theorem Loaded.mono {buf : List Cell} {h h' : Heap} {obj₀ obj obj' : Block} {v : Visit}
    (hv : E.Loaded S buf h obj₀ obj v)
    (hself : E.slot S obj' v.field = E.slot S obj v.field)
    (hcount : v.field.isRepeated = true →
      E.slot S obj' (S.countOf v.field) = E.slot S obj (S.countOf v.field))
    (hblk : v.field.isRepeated = true → v.allocated E buf = true →
      h'.block? v.block = h.block? v.block) :
    E.Loaded S buf h' obj₀ obj' v where
  scalar hr := by rw [hself]; exact hv.scalar hr
  count hr := by rw [countAt, hcount hr]; exact hv.count hr
  array hr ha := by
    rw [ptrAt, hself, hblk hr ha]
    exact hv.array hr ha
  failed hr ha := by rw [hself]; exact hv.failed hr ha

section Field

variable {h : Heap} {a s : Nat} {bufblk obj : Block} {v : Visit}

/-- The run of a scalar's deserializer, in either byte order. -/
theorem fieldDeserializer_scalar_run (wf : S.WellFormed) {f : Field} {o : I64} {w : Nat}
    (ha : h.block? a = some bufblk) (hl : h.block? s = some obj) (hb : E.Holds S obj)
    (hf : f ∈ S.fields) (hr : f.isRepeated = false) (hs : f.isStruct = false)
    (hin : o.toNat + E.layout.storeSize f.type ≤ bufblk.cells.length)
    (hswap : E.swapBytes f.type (E.decode f.type
      (slice bufblk.cells o.toNat (E.layout.storeSize f.type))) h = .ok (.int w, h)) :
    E.fieldDeserializer S f (.base s) (.loc a o) h =
      .ok (BitVec.ofNat 64 (E.layout.allocSize f.type),
        h.update s (E.put S obj f (E.encode f.type (.int w)))) := by
  have ht := not_pointer wf hf hs hr
  have hsize : E.fieldSizeAt S obj f = BitVec.ofNat 64 (E.layout.allocSize f.type) := by
    simp only [fieldSizeAt, hr, Bool.false_eq_true, if_false]
  rw [fieldDeserializer, insertNullCheck_loc, if_neg (by simp [hs]), if_neg (by simp [ht]),
    bind_of_ok (loadTy_ok ha hin), bind_of_ok hswap,
    bind_of_ok (getFieldAllocSize_slot wf hl hb hf), hsize, storeTy,
    bind_of_ok (store_slot wf hl hb hf (length_encode_int E f.type w)), pure_apply]

/-- The deserializer of a scalar. -/
theorem fieldDeserializer_scalar (hLE : E.layout.bigEndian = false) (wf : S.WellFormed)
    (ha : h.block? a = some bufblk) (hl : h.block? s = some obj) (hb : E.Holds S obj)
    (hf : v.field ∈ S.fields) (hr : v.field.isRepeated = false) (hs : v.field.isStruct = false)
    (hc : v.field.isCount = false) (hin : v.InBounds E bufblk.cells) :
    ∃ h' obj', E.fieldDeserializer S v.field (.base s) (.loc a v.off) h =
        .ok (v.advance E bufblk.cells, h') ∧ E.Visited S bufblk.cells s v h h' obj obj' := by
  have ht := not_pointer wf hf hs hr
  simp only [Visit.InBounds, hr, Bool.false_eq_true, if_false] at hin
  set val := E.decode v.field.type
    (slice bufblk.cells v.off.toNat (E.layout.storeSize v.field.type)) with hval
  have hint : val = .int val.asInt := by
    rw [hval]
    simp only [decode, ht, Bool.false_eq_true, if_false, Val.asInt]
  have hswap : E.swapBytes v.field.type val h = .ok (.int val.asInt, h) := by
    simp only [swapBytes, hLE, Bool.not_false, if_true]
    rw [← hint]
    rfl
  have hrun := fieldDeserializer_scalar_run wf ha hl hb hf hr hs hin hswap
  rw [← hint] at hrun
  set w := E.encode v.field.type val with hw
  have hlen : w.length = E.layout.storeSize v.field.type := by
    rw [hw, hint, length_encode_int]
  refine ⟨h.update s (E.put S obj v.field w), E.put S obj v.field w, ?_, ?_⟩
  · rw [hrun]
    simp only [Visit.advance, hr, Bool.false_eq_true, if_false]
  · refine ⟨⟨Heap.block?_update_self hl _, Block.length_overwrite _ _ _,
      fun b _ hne => Heap.block?_update_ne h hne _, by rw [Heap.next_update], ?_, ?_⟩, ?_, ?_⟩
    · intro g hg hun
      exact slot_put_ne wf hb hf hg (hun v.field List.mem_cons_self hc).1 hlen
    · intro u hu
      obtain rfl := List.mem_singleton.mp hu
      refine ⟨fun _ => slot_put_self wf hb hf hlen, fun h1 => ?_, fun h1 => ?_, fun h1 => ?_⟩
      all_goals rw [hr] at h1; cases h1
    · simp [hr]
    · simp [hr]

theorem fieldDeserializer_scalar_fault (ha : h.block? a = some bufblk)
    (hr : v.field.isRepeated = false) (hs : v.field.isStruct = false)
    (ht : v.field.type.isPointerTy = false) (hin : ¬ v.InBounds E bufblk.cells) :
    E.fieldDeserializer S v.field (.base s) (.loc a v.off) h = .error .access := by
  simp only [Visit.InBounds, hr, Bool.false_eq_true, if_false] at hin
  rw [fieldDeserializer, insertNullCheck_loc, if_neg (by simp [hs]), if_neg (by simp [ht])]
  exact bind_of_error (loadTy_fault ha (by omega))

variable (E S) in
/-- The deserializer of an array once the count is stored. -/
def loadElements (f : Field) (t : Ty) (Self src : Ptr) (Count size : I64) : Prog I64 := do
  let FieldMem ← malloc E.alloc size
  insertNullCheck [FieldMem] 0 do
    memcpy FieldMem src size
    E.swapArrayBytes t FieldMem Count
    E.storeTy f.type (.ptr FieldMem) (E.structGEP S Self f)
    pure (8 + size)

/-- The count is read and stored first, in either byte order. -/
theorem fieldDeserializer_array_run (wf : S.WellFormed) {f : Field} {o n : I64}
    (ha : h.block? a = some bufblk) (hl : h.block? s = some obj) (hb : E.Holds S obj)
    (hf : f ∈ S.fields) (hr : f.isRepeated = true) (hfit : o.toNat + 8 ≤ bufblk.cells.length)
    (hn : E.swapI64 (E.decodeI64 (slice bufblk.cells o.toNat 8)) = n) :
    E.fieldDeserializer S f (.base s) (.loc a o) h =
      E.loadElements S f f.elem (.base s) (.loc a (o + 8)) n (E.sizeFor f n)
        (h.update s (E.putCount S obj f n)) := by
  obtain ⟨ht, -, hs, -, hd, hcm, hcc, -⟩ := wf.array_spec hf hr
  have hp : f.type.isPointerTy = true := by rw [ht]; rfl
  have hpt := wf.pointee hf hr
  rw [fieldDeserializer, insertNullCheck_loc, if_neg (by simp [hs]), if_pos hp]
  simp only [hpt, hd]
  rw [bind_of_ok (loadI64_ok ha hfit), hn, bind_of_ok (storeCount_slot wf hl hb hf hr n)]
  -- the sizes are read back from the struct
  have hl₁ := Heap.block?_update_self hl (E.putCount S obj f n)
  have hb₁ := holds_putCount (f := f) hb n
  rw [bind_of_ok (getFieldAllocSize_slot wf hl₁ hb₁ hcm), count_size wf hcm hcc,
    bind_of_ok (getFieldAllocSize_slot wf hl₁ hb₁ hf), fieldSizeAt_putCount wf hf hr hb,
    Ptr.add_loc]
  rfl

theorem fieldDeserializer_array (hLE : E.layout.bigEndian = false) (wf : S.WellFormed)
    (ha : h.block? a = some bufblk) (hl : h.block? s = some obj) (hb : E.Holds S obj)
    (hf : v.field ∈ S.fields) (hr : v.field.isRepeated = true)
    (hfit : v.off.toNat + 8 ≤ bufblk.cells.length) :
    E.fieldDeserializer S v.field (.base s) (.loc a v.off) h =
      E.loadElements S v.field v.field.elem (.base s) (.loc a (v.off + 8))
        (v.count E bufblk.cells) (v.arraySize E bufblk.cells)
        (h.update s (E.putCount S obj v.field (v.count E bufblk.cells))) :=
  fieldDeserializer_array_run wf ha hl hb hf hr hfit (by simp [swapI64, hLE, Visit.count])

theorem fieldDeserializer_array_fault (wf : S.WellFormed) (ha : h.block? a = some bufblk)
    (hf : v.field ∈ S.fields) (hr : v.field.isRepeated = true)
    (hfit : bufblk.cells.length < v.off.toNat + 8) :
    E.fieldDeserializer S v.field (.base s) (.loc a v.off) h = .error .access := by
  obtain ⟨ht, -, hs, -, hd, -⟩ := wf.array_spec hf hr
  have hp : v.field.type.isPointerTy = true := by rw [ht]; rfl
  have hpt := wf.pointee hf hr
  rw [fieldDeserializer, insertNullCheck_loc, if_neg (by simp [hs]), if_pos hp]
  simp only [hpt, hd]
  exact bind_of_error (loadI64_fault ha hfit)

section Elements

variable {f : Field} {t : Ty} {src : Ptr} {n size : I64}

/-- The allocation failed: nothing more is read, and the pointer is left as it was. -/
theorem loadElements_null {Self : Ptr} (hA : E.alloc.succeeds h.calls size.toNat = false) :
    E.loadElements S f t Self src n size h = .ok (0, h.tick) := by
  rw [loadElements, bind_of_ok (malloc_null hA), insertNullCheck_null, pure_apply]

/-- The elements are copied and swapped where they are, then the pointer is stored. -/
theorem loadElements_run (wf : S.WellFormed) (hl : h.block? s = some obj) (hb : E.Holds S obj)
    (hf : f ∈ S.fields) (hr : f.isRepeated = true)
    (hA : E.alloc.succeeds h.calls size.toNat = true) (hread : h.Readable src size.toNat)
    {arr : Block}
    (hswap : E.swapArrayBytes t (.base h.next) n
      (h.push ((E.alloc.fresh h.calls size).overwrite 0 (h.bytesAt src size.toNat))) =
        .ok ((), h.push arr)) :
    E.loadElements S f t (.base s) src n size h =
      .ok (8 + size, (h.update s (E.putPtr S obj f h.next)).push arr) := by
  set new := E.alloc.fresh h.calls size with hnew
  have hlen : new.cells.length = size.toNat := Allocator.length_fresh _ _ _
  obtain ⟨hread', hby⟩ := Heap.readable_push hread new
  have h0 : (0 : I64).toNat = 0 := rfl
  rw [loadElements, bind_of_ok (malloc_ok hA), insertNullCheck_loc,
    bind_of_ok (memcpy_ok hread' (Heap.block?_push_self h new)
      (by rw [h0, hlen, Nat.zero_add])), hby, h0, Heap.update_push_next, bind_of_ok hswap,
    bind_of_ok (storePtr_slot wf (Heap.block?_push_of_some hl arr) hb hf hr _), pure_apply,
    Heap.update_push (Heap.lt_next hl)]

theorem loadElements_ok (hLE : E.layout.bigEndian = false) (wf : S.WellFormed)
    (hl : h.block? s = some obj) (hb : E.Holds S obj) (hf : f ∈ S.fields)
    (hr : f.isRepeated = true) (hA : E.alloc.succeeds h.calls size.toNat = true)
    (hread : h.Readable src size.toNat) :
    E.loadElements S f t (.base s) src n size h =
      .ok (8 + size,
        (h.update s (E.putPtr S obj f h.next)).push
          ((E.alloc.fresh h.calls size).overwrite 0 (h.bytesAt src size.toNat))) := by
  refine loadElements_run wf hl hb hf hr hA hread ?_
  simp only [swapArrayBytes, hLE, Bool.not_false, if_true, pure_apply]

theorem loadElements_fault {Self : Ptr} (hA : E.alloc.succeeds h.calls size.toNat = true)
    (hn : size ≠ 0) {b : Nat} {o : I64} (hlt : b < h.next)
    (hread : h.read (.loc b o) size.toNat = none) :
    E.loadElements S f t Self (.loc b o) n size h = .error .access := by
  rw [loadElements, bind_of_ok (malloc_ok hA), insertNullCheck_loc]
  refine bind_of_error (memcpy_fault hn ?_)
  rw [Heap.read_congr (Heap.block?_push_of_lt hlt _), hread]

end Elements

/-- An array whose allocation fails. -/
theorem fieldDeserializer_array_null (hLE : E.layout.bigEndian = false) (wf : S.WellFormed)
    (ha : h.block? a = some bufblk) (hl : h.block? s = some obj) (hb : E.Holds S obj)
    (hf : v.field ∈ S.fields) (hr : v.field.isRepeated = true) (hc : v.field.isCount = false)
    (hcall : v.call = h.calls) (hA : v.allocated E bufblk.cells = false)
    (hin : v.InBounds E bufblk.cells) :
    ∃ h' obj', E.fieldDeserializer S v.field (.base s) (.loc a v.off) h =
        .ok (v.advance E bufblk.cells, h') ∧ E.Visited S bufblk.cells s v h h' obj obj' := by
  simp only [Visit.InBounds, hr, if_true] at hin
  have hne := wf.countOf_ne hf hr
  have hframe := fun (g : Field) hg hgn =>
    slot_putCount_ne (g := g) wf hf hr hb (v.count E bufblk.cells) hg hgn
  set obj₁ := E.putCount S obj v.field (v.count E bufblk.cells) with hobj₁
  have hA' :
      E.alloc.succeeds (h.update s obj₁).calls (v.arraySize E bufblk.cells).toNat = false := by
    rw [Heap.calls_update, ← hcall]
    exact hA
  refine ⟨(h.update s obj₁).tick, obj₁, ?_, ⟨⟨Heap.block?_update_self hl _,
    Block.length_overwrite _ _ _, fun b _ hb' => Heap.block?_update_ne h hb' _, ?_, ?_, ?_⟩,
    ?_, ?_⟩⟩
  · rw [fieldDeserializer_array hLE wf ha hl hb hf hr hin.1, loadElements_null hA']
    simp only [Visit.advance, hr, hA, if_true, Bool.false_eq_true, if_false]
  · rw [Heap.next_tick, Heap.next_update]
  · intro g hg hun
    exact hframe g hg ((hun v.field List.mem_cons_self hc).2 hr)
  · intro u hu
    obtain rfl := List.mem_singleton.mp hu
    refine ⟨fun h1 => ?_, fun _ => countAt_putCount wf hf hr hb _, fun _ h1 => ?_,
      fun _ _ => hframe u.field hf (Ne.symm hne)⟩
    · rw [hr] at h1; cases h1
    · rw [hA] at h1; cases h1
  · simp [hr]
  · simp [hA]

/-- What `memcpy` finds behind the count. -/
theorem readable_elements (ha : h.block? a = some bufblk) {off size : I64}
    (hin8 : off.toNat + 8 ≤ bufblk.cells.length)
    (hin : size ≠ 0 → off.toNat + 8 + size.toNat ≤ bufblk.cells.length) :
    h.Readable (.loc a (off + 8)) size.toNat ∧
      h.bytesAt (.loc a (off + 8)) size.toNat =
        slice bufblk.cells (off.toNat + 8) size.toNat := by
  have ho8 : (off + 8).toNat = off.toNat + 8 := by
    have := bufblk.fits
    have h8 : (8 : I64).toNat = 8 := rfl
    rw [BitVec.toNat_add, h8]
    omega
  by_cases hz : size = 0
  · rw [hz]
    exact ⟨Or.inl rfl, (List.eq_nil_of_length_eq_zero
      (Heap.length_bytesAt (Or.inl rfl))).trans (slice_zero_length _ _).symm⟩
  · have hread := Heap.read_loc (n := size.toNat) ha (by rw [ho8]; exact hin hz)
    rw [ho8] at hread
    exact ⟨Or.inr (by rw [hread]; rfl), by rw [Heap.bytesAt, hread]; rfl⟩

/-- An array whose allocation succeeds. -/
theorem fieldDeserializer_array_ok (hLE : E.layout.bigEndian = false) (wf : S.WellFormed)
    (ha : h.block? a = some bufblk) (has : a ≠ s) (hl : h.block? s = some obj)
    (hb : E.Holds S obj) (hf : v.field ∈ S.fields) (hr : v.field.isRepeated = true)
    (hc : v.field.isCount = false) (hcall : v.call = h.calls) (hblk : v.block = h.next)
    (hA : v.allocated E bufblk.cells = true) (hin : v.InBounds E bufblk.cells) :
    ∃ h' obj', E.fieldDeserializer S v.field (.base s) (.loc a v.off) h =
        .ok (v.advance E bufblk.cells, h') ∧ E.Visited S bufblk.cells s v h h' obj obj' := by
  simp only [Visit.InBounds, hr, if_true] at hin
  have hcm := wf.countOf_mem hf hr
  have hne := wf.countOf_ne hf hr
  have hcount := countAt_putCount wf hf hr hb (v.count E bufblk.cells)
  have hframe := fun (g : Field) hg hgn =>
    slot_putCount_ne (g := g) wf hf hr hb (v.count E bufblk.cells) hg hgn
  have hrun := fieldDeserializer_array hLE wf ha hl hb hf hr hin.1
  set obj₁ := E.putCount S obj v.field (v.count E bufblk.cells) with hobj₁
  set size := v.arraySize E bufblk.cells with hsize
  have hl₁ : (h.update s obj₁).block? s = some obj₁ := Heap.block?_update_self hl obj₁
  have ha₁ : (h.update s obj₁).block? a = some bufblk := by
    rw [Heap.block?_update_ne h has, ha]
  have hb₁ : E.Holds S obj₁ := holds_putCount hb _
  have hA' : E.alloc.succeeds (h.update s obj₁).calls size.toNat = true := by
    rw [Heap.calls_update, ← hcall]
    exact hA
  obtain ⟨hread, hby⟩ := readable_elements ha₁ hin.1 (hin.2 hA)
  -- the pointer goes to the struct, the elements to a new block
  set obj₂ := E.putPtr S obj₁ v.field (h.update s obj₁).next with hobj₂
  have hother := fun (g : Field) hg hgn =>
    slot_putPtr_ne (g := g) wf hf hr hb₁ (h.update s obj₁).next hg hgn
  set fresh := E.alloc.fresh (h.update s obj₁).calls size with hfresh
  have hfl : fresh.cells.length = size.toNat := Allocator.length_fresh _ _ _
  have hsl : (slice bufblk.cells (v.off.toNat + 8) size.toNat).length = size.toNat := by
    rw [← hby]
    exact Heap.length_bytesAt hread
  set new := fresh.overwrite 0 ((h.update s obj₁).bytesAt (.loc a (v.off + 8)) size.toNat)
    with hnew
  have hcells : new.cells = slice bufblk.cells (v.off.toNat + 8) size.toNat := by
    rw [hnew, hby]
    exact Block.overwrite_all (by rw [hsl, hfl])
  have hself := Heap.block?_push_of_some (Heap.block?_update_self hl₁ obj₂) new
  refine ⟨((h.update s obj₁).update s obj₂).push new, obj₂, ?_,
    ⟨⟨hself, ?_, ?_, by simp, ?_, ?_⟩, ?_, ?_⟩⟩
  · rw [hrun, loadElements_ok hLE wf hl₁ hb₁ hf hr hA' hread]
    simp only [Visit.advance, hr, hA, if_true]
    rfl
  · rw [hobj₂, length_putPtr, hobj₁, length_putCount]
  · intro b hbl hb'
    rw [Heap.block?_push_of_lt (by simpa using hbl), Heap.block?_update_ne _ hb',
      Heap.block?_update_ne _ hb']
  · intro g hg hun
    obtain ⟨h1, h2⟩ := hun v.field List.mem_cons_self hc
    rw [hother g hg h1, hframe g hg (h2 hr)]
  · intro u hu
    obtain rfl := List.mem_singleton.mp hu
    refine ⟨fun h1 => ?_, fun _ => ?_, fun _ _ => ⟨?_, new, ?_, hcells⟩, fun _ h1 => ?_⟩
    · rw [hr] at h1; cases h1
    · rw [countAt, hother _ hcm hne]; exact hcount
    · rw [hobj₂, ptrAt_putPtr wf hf hr hb₁, hblk, Heap.next_update]
    · have := Heap.block?_push_self ((h.update s obj₁).update s obj₂) new
      rwa [Heap.next_update, Heap.next_update, ← hblk] at this
    · rw [hA] at h1; cases h1
  · simp [hr]
  · simp [hr, hA]

/-- A visit that stays in the buffer. -/
theorem fieldDeserializer_ok (hLE : E.layout.bigEndian = false) (wf : S.WellFormed)
    (ha : h.block? a = some bufblk) (has : a ≠ s) (hl : h.block? s = some obj)
    (hb : E.Holds S obj) (hf : v.field ∈ S.fields) (hs : v.field.isStruct = false)
    (hc : v.field.isCount = false) (hcall : v.call = h.calls) (hblk : v.block = h.next)
    (hin : v.InBounds E bufblk.cells) :
    ∃ h' obj', E.fieldDeserializer S v.field (.base s) (.loc a v.off) h =
        .ok (v.advance E bufblk.cells, h') ∧ E.Visited S bufblk.cells s v h h' obj obj' := by
  cases hr : v.field.isRepeated with
  | false => exact fieldDeserializer_scalar hLE wf ha hl hb hf hr hs hc hin
  | true =>
    cases hA : v.allocated E bufblk.cells with
    | false => exact fieldDeserializer_array_null hLE wf ha hl hb hf hr hc hcall hA hin
    | true => exact fieldDeserializer_array_ok hLE wf ha has hl hb hf hr hc hcall hblk hA hin

/-- A visit that leaves the buffer. -/
theorem fieldDeserializer_fault (hLE : E.layout.bigEndian = false) (wf : S.WellFormed)
    (ha : h.block? a = some bufblk) (has : a ≠ s) (hl : h.block? s = some obj)
    (hb : E.Holds S obj) (hf : v.field ∈ S.fields) (hs : v.field.isStruct = false)
    (hcall : v.call = h.calls) (hin : ¬ v.InBounds E bufblk.cells) :
    E.fieldDeserializer S v.field (.base s) (.loc a v.off) h = .error .access := by
  cases hr : v.field.isRepeated with
  | false => exact fieldDeserializer_scalar_fault ha hr hs (not_pointer wf hf hs hr) hin
  | true =>
    by_cases h8 : v.off.toNat + 8 ≤ bufblk.cells.length
    · simp only [Visit.InBounds, hr, if_true, h8, true_and] at hin
      push Not at hin
      obtain ⟨hA, hz, hlt⟩ := hin
      have ho8 : (v.off + 8).toNat = v.off.toNat + 8 := by
        have := bufblk.fits
        have h8 : (8 : I64).toNat = 8 := rfl
        rw [BitVec.toNat_add, h8]
        omega
      rw [fieldDeserializer_array hLE wf ha hl hb hf hr h8]
      refine loadElements_fault ?_ hz (by rw [Heap.next_update]; exact Heap.lt_next ha) ?_
      · rw [Heap.calls_update, ← hcall]
        exact hA
      · rw [Heap.read_update_ne _ has, Heap.read, ha, Option.bind_some, if_neg (by omega)]
    · exact fieldDeserializer_array_fault wf ha hf hr (by omega)

end Field

/-! ## The loop over the fields -/

section Loop

variable {h : Heap} {a s : Nat} {bufblk obj : Block}

/-- The code for `g` leaves the slot of another field alone. -/
theorem untouched_field {f g : Field} (wf : S.WellFormed) (hg : g ∈ S.fields)
    (hc : f.isCount = false) (hne : f ≠ g) : Untouched S f g := by
  intro _
  refine ⟨hne, fun hr he => ?_⟩
  have := (wf.array_spec hg hr).2.2.2.2.2.2.1
  rw [← he, hc] at this
  cases this

/-- The count of another array is left alone, too. -/
theorem untouched_count {f g : Field} (wf : S.WellFormed) (hf : f ∈ S.fields) (hg : g ∈ S.fields)
    (hr : f.isRepeated = true) (hne : f ≠ g) : Untouched S (S.countOf f) g := by
  intro hgc
  refine ⟨fun he => ?_, fun hrg he => hne (wf.countOf_inj hf hg hr hrg he)⟩
  have := (wf.array_spec hf hr).2.2.2.2.2.2.1
  rw [he, hgc] at this
  cases this

/-- A visit and the visits after it. -/
theorem Reads.cons {buf : List Cell} {fs : List Field} {v : Visit} {vs : List Visit}
    {h h₁ h' : Heap} {obj₁ obj' : Block} (wf : S.WellFormed) (hs : s < h.next)
    (hm : ∀ f ∈ v.field :: fs, f ∈ S.fields) (hnd : (v.field :: fs).Nodup)
    (hc : v.field.isCount = false) (hvs : ∀ w ∈ vs, w.field ∈ fs ∧ w.field.isCount = false)
    (hblk : v.block = h.next)
    (h1 : E.Visited S buf s v h h₁ obj obj₁) (h2 : E.Reads S buf s fs vs h₁ h' obj₁ obj') :
    E.Reads S buf s (v.field :: fs) (v :: vs) h h' obj obj' where
  block := h2.block
  length := h2.length.trans h1.length
  other b hb hne := by
    rw [h2.other b (Nat.lt_of_lt_of_le hb h1.next_le) hne, h1.other b hb hne]
  next_le := Nat.le_trans h1.next_le h2.next_le
  frame g hg hun := by
    rw [h2.frame g hg fun f hf => hun f (List.mem_cons_of_mem _ hf),
      h1.frame g hg fun f hf => by
        obtain rfl := List.mem_singleton.mp hf
        exact hun v.field List.mem_cons_self]
  loaded w hw := by
    have hf := hm v.field List.mem_cons_self
    have hnotin : ∀ f ∈ fs, v.field ≠ f := fun f hf he => (List.nodup_cons.mp hnd).1 (he ▸ hf)
    rcases List.mem_cons.mp hw with rfl | hw
    · refine (h1.loaded w List.mem_cons_self).mono ?_ ?_ ?_
      · exact h2.frame _ hf fun f hfs =>
          untouched_field wf (hm f (List.mem_cons_of_mem _ hfs)) hc (hnotin f hfs)
      · intro hr
        exact h2.frame _ (wf.countOf_mem hf hr) fun f hfs =>
          untouched_count wf hf (hm f (List.mem_cons_of_mem _ hfs)) hr (hnotin f hfs)
      · intro hr ha
        have hn := h1.next
        simp only [hr, ha, Bool.and_self, if_true] at hn
        exact h2.other _ (by omega) (by omega)
    · obtain ⟨hwf, hwc⟩ := hvs w hw
      have hl := h2.loaded w hw
      refine ⟨hl.scalar, hl.count, hl.array, fun hr ha => ?_⟩
      rw [hl.failed hr ha]
      refine h1.frame _ (hm _ (List.mem_cons_of_mem _ hwf)) fun f hfs => ?_
      obtain rfl := List.mem_singleton.mp hfs
      exact untouched_field wf hf hwc (Ne.symm (hnotin _ hwf))

/-- A field that is not visited. -/
theorem Reads.skip {buf : List Cell} {fs : List Field} {f : Field} {vs : List Visit}
    {h' : Heap} {obj' : Block}
    (h2 : E.Reads S buf s fs vs h h' obj obj') : E.Reads S buf s (f :: fs) vs h h' obj obj' where
  block := h2.block
  length := h2.length
  other := h2.other
  next_le := h2.next_le
  frame g hg hun := h2.frame g hg fun x hx => hun x (List.mem_cons_of_mem _ hx)
  loaded := h2.loaded

/-- The unrolled calls of the field deserializers. -/
theorem deserializeEntries_ok (hLE : E.layout.bigEndian = false) (wf : S.WellFormed)
    (hfun : Resolves E S) (has : a ≠ s) :
    ∀ (fs : List Field) (off : I64) (h : Heap) (obj : Block),
      (∀ f ∈ fs, f ∈ S.fields) → (∀ f ∈ fs, f.isStruct = false) → fs.Nodup →
      h.block? a = some bufblk → h.block? s = some obj → E.Holds S obj →
      (∀ v ∈ E.visits bufblk.cells fs off h.calls h.next, v.InBounds E bufblk.cells) →
      ∃ r h' obj', E.deserializeEntries S (.base a) (.base s) fs off h = .ok (r, h') ∧
        E.Reads S bufblk.cells s fs (E.visits bufblk.cells fs off h.calls h.next) h h' obj obj'
  | [], off, h, obj, _, _, _, _, hl, _, _ =>
    ⟨off, h, obj, rfl, hl, rfl, fun _ _ _ => rfl, Nat.le_refl _, fun _ _ _ => rfl,
      fun v hv => nomatch hv⟩
  | f :: fs, off, h, obj, hm, hs, hnd, ha, hl, hb, hin => by
    have hm' : ∀ g ∈ fs, g ∈ S.fields := fun g hg => hm g (List.mem_cons_of_mem f hg)
    have hs' : ∀ g ∈ fs, g.isStruct = false := fun g hg => hs g (List.mem_cons_of_mem f hg)
    have hnd' := (List.nodup_cons.mp hnd).2
    rw [visits] at hin ⊢
    rw [deserializeEntries]
    cases hc : f.isCount with
    | true =>
      simp only [hc, if_true] at hin ⊢
      obtain ⟨r, h', obj', hrun, hreads⟩ :=
        deserializeEntries_ok hLE wf hfun has fs off h obj hm' hs' hnd' ha hl hb hin
      exact ⟨r, h', obj', hrun, hreads.skip⟩
    | false =>
      simp only [hc, Bool.false_eq_true, if_false] at hin ⊢
      have hf := hm f List.mem_cons_self
      set v : Visit := ⟨f, off, h.calls, h.next⟩ with hv
      obtain ⟨h₁, obj₁, hrun₁, hvis⟩ := fieldDeserializer_ok (v := v) hLE wf ha has hl hb hf
        (hs f List.mem_cons_self) hc rfl rfl (hin v List.mem_cons_self)
      have ha₁ : h₁.block? a = some bufblk := by
        rw [hvis.other a (Heap.lt_next ha) has, ha]
      have hb₁ : E.Holds S obj₁ := by
        rw [Holds, hvis.length]
        exact hb
      have hcalls : h₁.calls = h.calls + if f.isRepeated then 1 else 0 := hvis.calls
      have hnext : h₁.next =
          h.next + if f.isRepeated && v.allocated E bufblk.cells then 1 else 0 := hvis.next
      obtain ⟨r, h', obj', hrun, hreads⟩ := deserializeEntries_ok hLE wf hfun has fs
        (off + v.advance E bufblk.cells) h₁ obj₁ hm' hs' hnd' ha₁ hvis.block hb₁
        (fun w hw => hin w (List.mem_cons_of_mem v (by rwa [hcalls, hnext] at hw)))
      rw [hcalls, hnext] at hreads
      refine ⟨r, h', obj', ?_, Reads.cons wf (Heap.lt_next hl) hm hnd hc
        (fun w hw => mem_visits hw) rfl hvis hreads⟩
      rw [hfun.deserializer hf hc, Ptr.add_loc,
        show (0 : I64) + off = off from BitVec.zero_add off]
      exact (bind_of_ok hrun₁).trans hrun

theorem deserializeEntries_fault (hLE : E.layout.bigEndian = false) (wf : S.WellFormed)
    (hfun : Resolves E S) (has : a ≠ s) :
    ∀ (fs : List Field) (off : I64) (h : Heap) (obj : Block),
      (∀ f ∈ fs, f ∈ S.fields) → (∀ f ∈ fs, f.isStruct = false) →
      h.block? a = some bufblk → h.block? s = some obj → E.Holds S obj →
      (¬ ∀ v ∈ E.visits bufblk.cells fs off h.calls h.next, v.InBounds E bufblk.cells) →
      E.deserializeEntries S (.base a) (.base s) fs off h = .error .access
  | [], off, h, obj, _, _, _, _, _, hin => absurd (fun v hv => nomatch hv) hin
  | f :: fs, off, h, obj, hm, hs, ha, hl, hb, hin => by
    have hm' : ∀ g ∈ fs, g ∈ S.fields := fun g hg => hm g (List.mem_cons_of_mem f hg)
    have hs' : ∀ g ∈ fs, g.isStruct = false := fun g hg => hs g (List.mem_cons_of_mem f hg)
    rw [visits] at hin
    rw [deserializeEntries]
    cases hc : f.isCount with
    | true =>
      simp only [hc, if_true] at hin ⊢
      exact deserializeEntries_fault hLE wf hfun has fs off h obj hm' hs' ha hl hb hin
    | false =>
      simp only [hc, Bool.false_eq_true, if_false] at hin ⊢
      have hf := hm f List.mem_cons_self
      have hsf := hs f List.mem_cons_self
      rw [hfun.deserializer hf hc, Ptr.add_loc,
        show (0 : I64) + off = off from BitVec.zero_add off]
      set v : Visit := ⟨f, off, h.calls, h.next⟩ with hv
      by_cases hhead : v.InBounds E bufblk.cells
      · obtain ⟨h₁, obj₁, hrun₁, hvis⟩ :=
          fieldDeserializer_ok (v := v) hLE wf ha has hl hb hf hsf hc rfl rfl hhead
        have ha₁ : h₁.block? a = some bufblk := by
          rw [hvis.other a (Heap.lt_next ha) has, ha]
        have hb₁ : E.Holds S obj₁ := by
          rw [Holds, hvis.length]
          exact hb
        have hcalls : h₁.calls = h.calls + if f.isRepeated then 1 else 0 := hvis.calls
        have hnext : h₁.next =
            h.next + if f.isRepeated && v.allocated E bufblk.cells then 1 else 0 := hvis.next
        refine (bind_of_ok hrun₁).trans (deserializeEntries_fault hLE wf hfun has fs
          (off + v.advance E bufblk.cells) h₁ obj₁ hm' hs' ha₁ hvis.block hb₁ fun hall => hin ?_)
        intro w hw
        rcases List.mem_cons.mp hw with rfl | hw
        · exact hhead
        · exact hall w (by rwa [hcalls, hnext])
      · exact bind_of_error (fieldDeserializer_fault (v := v) hLE wf ha has hl hb hf hsf rfl hhead)

end Loop

/-! ## The whole run -/

section Run

variable {h : Heap} {a : Nat} {bufblk : Block}

/-- A sum over the fields that are visited is a sum over the visits. -/
theorem sum_visits (g : Field → Nat) (hg : ∀ f, f.isCount = true → g f = 0) (buf : List Cell) :
    ∀ (fs : List Field) (off : I64) (call block : Nat),
      (fs.map g).sum = ((E.visits buf fs off call block).map fun v => g v.field).sum
  | [], _, _, _ => rfl
  | f :: fs, off, call, block => by
    rw [visits, List.map_cons, List.sum_cons]
    split
    · next hc => rw [hg f hc, Nat.zero_add, sum_visits g hg buf fs off call block]
    · rw [List.map_cons, List.sum_cons, sum_visits g hg buf fs]

/-- The fields written add up to the visits' sizes. -/
theorem sumWire_visits (wf : S.WellFormed) {buf : List Cell} {obj : Block} (hb : E.Holds S obj)
    (off : I64) (call block : Nat)
    (hcnt : ∀ v ∈ E.visits buf S.fields off call block, v.field.isRepeated = true →
      E.countAt S obj (S.countOf v.field) = v.count E buf) :
    E.sumWire S obj S.fields =
      ((E.visits buf S.fields off call block).map (Visit.size E buf)).sum := by
  refine (sum_visits (E := E) _ (fun f hc => wireNat_count hc) buf S.fields off call block).trans ?_
  congr 1
  refine List.map_congr_left fun v hv => ?_
  rw [Visit.size, wireNat, Field.onWire, if_neg (by simp [(mem_visits hv).2])]
  cases hr : v.field.isRepeated with
  | false =>
    simp only [Bool.false_eq_true, if_false]
    exact toNat_allocSize wf hb (mem_visits hv).1 hr
  | true => simp only [if_true, fieldSizeAt, hr, hcnt v hv hr, Visit.arraySize, sizeFor]

theorem structAllocSize_toNat (hsize : E.layout.structSize S.packed S.elements < 2 ^ 64) :
    (E.getStructAllocSize S).toNat = E.layout.structSize S.packed S.elements := by
  rw [getStructAllocSize, BitVec.toNat_ofNat]
  exact Nat.mod_eq_of_lt hsize

theorem getDeserializer_null (ha : h.block? a = some bufblk) (hn : 8 ≤ bufblk.cells.length)
    (hA : E.alloc.succeeds h.calls (E.getStructAllocSize S).toNat = false) :
    E.getDeserializer S (.base a) h = .ok (.null, h.tick) := by
  rw [getDeserializer, bind_of_ok (loadI64_ok ha (by simpa using hn)), insertNullCheck_loc,
    bind_of_ok (malloc_null hA), insertNullCheck_null, pure_apply]

theorem holds_fresh (hsize : E.layout.structSize S.packed S.elements < 2 ^ 64) (t : Nat) :
    E.Holds S (E.alloc.fresh t (E.getStructAllocSize S)) := by
  rw [Holds, Allocator.length_fresh, structAllocSize_toNat hsize]

/-- `deserialize_S` around the calls of the field deserializers, in either byte order: the
    header decides. -/
theorem getDeserializer_run (wf : S.WellFormed) (ha : h.block? a = some bufblk)
    (hn : 8 ≤ bufblk.cells.length)
    (hA : E.alloc.succeeds h.calls (E.getStructAllocSize S).toNat = true) {idx : I64} {h' : Heap}
    {obj : Block}
    (hentries : E.deserializeEntries S (.base a) (.base h.next) S.fields 8
      (h.push (E.alloc.fresh h.calls (E.getStructAllocSize S))) = .ok (idx, h'))
    (hobj : h'.block? h.next = some obj) (hb : E.Holds S obj) :
    E.getDeserializer S (.base a) h =
      .ok (if E.swapI64 (E.headerIn bufblk.cells) =
          8 + BitVec.ofNat 64 (E.sumSizes S obj S.fields)
        then .base h.next else .null, h') := by
  have hcheck := sumAllocSizes_slot wf hobj hb S.fields 8 (fun _ hf => hf)
  rw [getDeserializer, bind_of_ok (loadI64_ok ha (by simpa using hn)), insertNullCheck_loc,
    bind_of_ok (malloc_ok hA), insertNullCheck_loc, bind_of_ok hentries, bind_of_ok hcheck]
  show (if E.swapI64 (E.headerIn bufblk.cells) = _ then _ else _ : Prog Ptr) h' = _
  split <;> rfl

/-- `deserialize_S` on a buffer whose visits stay in bounds: every field is loaded, then the
    header decides. -/
theorem getDeserializer_ok (hLE : E.layout.bigEndian = false) (wf : S.WellFormed)
    (hfun : Resolves E S) (hs : ∀ f ∈ S.fields, f.isStruct = false)
    (hsize : E.layout.structSize S.packed S.elements < 2 ^ 64)
    (ha : h.block? a = some bufblk) (hn : 8 ≤ bufblk.cells.length)
    (hA : E.alloc.succeeds h.calls (E.getStructAllocSize S).toNat = true)
    (hin : ∀ v ∈ E.walk S bufblk.cells h, v.InBounds E bufblk.cells) :
    ∃ h' obj, E.getDeserializer S (.base a) h =
        .ok (if E.headerIn bufblk.cells =
            BitVec.ofNat 64 (E.walkSize bufblk.cells (E.walk S bufblk.cells h))
          then .base h.next else .null, h') ∧ E.Holds S obj ∧
      E.Reads S bufblk.cells h.next S.fields (E.walk S bufblk.cells h)
        (h.push (E.alloc.fresh h.calls (E.getStructAllocSize S))) h'
        (E.alloc.fresh h.calls (E.getStructAllocSize S)) obj := by
  set new := E.alloc.fresh h.calls (E.getStructAllocSize S) with hnew
  have hwalk : E.walk S bufblk.cells h =
      E.visits bufblk.cells S.fields 8 (h.push new).calls (h.push new).next := by
    rw [walk, Heap.calls_push, Heap.next_push]
  rw [hwalk] at hin ⊢
  have hlt := Heap.lt_next ha
  obtain ⟨r, h', obj, hrun, hreads⟩ := deserializeEntries_ok hLE wf hfun (Nat.ne_of_lt hlt)
    S.fields 8 (h.push new) new (fun _ hf => hf) hs wf.fields_nodup
    (Heap.block?_push_of_some ha new)
    (Heap.block?_push_self h new) (holds_fresh hsize _) hin
  have hb : E.Holds S obj := by
    rw [Holds, hreads.length]
    exact holds_fresh hsize _
  refine ⟨h', obj, ?_, hb, hreads⟩
  have hhead : E.swapI64 (E.headerIn bufblk.cells) = E.headerIn bufblk.cells := by
    simp only [swapI64, hLE, Bool.false_eq_true, if_false]
  rw [getDeserializer_run wf ha hn hA hrun hreads.block hb, hhead, ← sum_wireSize wf,
    sumWire_visits wf hb 8 (h.push new).calls (h.push new).next
      (fun v hv hr => (hreads.loaded v hv).count hr), walkSize, BitVec.ofNat_add]
  rfl

theorem getDeserializer_fault (hLE : E.layout.bigEndian = false) (wf : S.WellFormed)
    (hfun : Resolves E S) (hs : ∀ f ∈ S.fields, f.isStruct = false)
    (hsize : E.layout.structSize S.packed S.elements < 2 ^ 64)
    (ha : h.block? a = some bufblk) (hn : 8 ≤ bufblk.cells.length)
    (hA : E.alloc.succeeds h.calls (E.getStructAllocSize S).toNat = true)
    (hin : ¬ ∀ v ∈ E.walk S bufblk.cells h, v.InBounds E bufblk.cells) :
    E.getDeserializer S (.base a) h = .error .access := by
  set new := E.alloc.fresh h.calls (E.getStructAllocSize S) with hnew
  rw [walk, ← Heap.calls_push h new, ← Heap.next_push h new] at hin
  rw [getDeserializer, bind_of_ok (loadI64_ok ha (by simpa using hn)), insertNullCheck_loc,
    bind_of_ok (malloc_ok hA), insertNullCheck_loc]
  exact bind_of_error (deserializeEntries_fault hLE wf hfun (Nat.ne_of_lt (Heap.lt_next ha))
    S.fields 8 (h.push new) new (fun _ hf => hf) hs (Heap.block?_push_of_some ha new)
    (Heap.block?_push_self h new) (holds_fresh hsize _) hin)

/-- The header is loaded before the null check. -/
theorem getDeserializer_of_null : E.getDeserializer S .null h = .error .access := rfl

end Run

end Env

end Tyr
