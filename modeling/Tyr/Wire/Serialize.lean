import Tyr.CodeGen.Slots

/-
  What `serialize_S` writes.

  The buffer is the block allocated last, so every heap of the run is the old heap with one
  more block: `fieldSerializer_ok` overwrites a window of that block with `wireBytes`, and
  `serializeEntries_ok` does so field by field (`emit`). `serializeWithIDX_ok` is the whole
  run. `emit_wired`: in the finished buffer every field's window still holds its bytes.
  `sum_wireSize`: the block is sized by one sum and filled by another, and they agree.
-/

namespace Tyr

open Prog

/-! ## Sizes -/

/-- What a field of size `n` takes in the buffer: a count nothing, an array its count too. -/
def Field.onWire (f : Field) (n : Nat) : Nat :=
  if f.isCount then 0 else if f.isRepeated then 8 + n else n

namespace Env

variable (E : Env) (S : Struct)

/-- Bytes of one field on the wire, as the field serializer returns it. -/
def wireSize (blk : Block) (f : Field) : I64 :=
  if f.isRepeated then 8 + E.fieldSizeAt S blk f else E.fieldSizeAt S blk f

/-- The bytes of an array's elements. -/
def arrayBytes (h : Heap) (blk : Block) (f : Field) : List Cell :=
  h.bytesAt (E.ptrAt S blk f) (E.fieldSizeAt S blk f).toNat

/-- What a field serializer writes. -/
def wireBytes (h : Heap) (blk : Block) (f : Field) : List Cell :=
  if f.isRepeated then E.encodeI64 (E.countAt S blk (S.countOf f)) ++ E.arrayBytes S h blk f
  else E.encode f.type (.int (E.intAt S blk f))

/-- Exact sum of the alloc sizes. -/
def sumSizes (blk : Block) (fs : List Field) : Nat :=
  (fs.map fun f => (E.fieldSizeAt S blk f).toNat).sum

/-- Size of a field on the wire, where counts travel with their arrays. -/
def wireNat (blk : Block) (f : Field) : Nat :=
  f.onWire (E.fieldSizeAt S blk f).toNat

def sumWire (blk : Block) (fs : List Field) : Nat := (fs.map (E.wireNat S blk)).sum

/-- The size of the serialized struct. -/
def serializedSize (blk : Block) : Nat := 8 + E.sumSizes S blk S.fields

variable {E S}

theorem count_size (wf : S.WellFormed) {f : Field} (hf : f ∈ S.fields) (hc : f.isCount = true)
    (blk : Block) : E.fieldSizeAt S blk f = 8 := by
  obtain ⟨ht, -, hr, -⟩ := wf.count_spec hf hc
  simp [fieldSizeAt, hr, ht]

end Env

/-- There are as many counts as arrays. -/
theorem Struct.WellFormed.countP_isCount {S : Struct} (wf : S.WellFormed) :
    S.fields.countP (·.isCount) = S.fields.countP (·.isRepeated) := by
  rw [List.countP_eq_length_filter, List.countP_eq_length_filter]
  have hmap : ((S.fields.filter (·.isRepeated)).map S.countOf).Nodup := by
    apply List.Nodup.map_on _ (wf.fields_nodup.filter _)
    intro f hf g hg he
    simp only [List.mem_filter] at hf hg
    exact wf.countOf_inj hf.1 hg.1 hf.2 hg.2 he
  have hperm : (S.fields.filter (·.isCount)).Perm
      ((S.fields.filter (·.isRepeated)).map S.countOf) := by
    rw [List.perm_ext_iff_of_nodup (wf.fields_nodup.filter _) hmap]
    intro c
    simp only [List.mem_filter, List.mem_map]
    constructor
    · rintro ⟨hc, hcc⟩
      obtain ⟨-, -, -, r, hr, hrr, -, hco⟩ := wf.count_spec hc hcc
      exact ⟨r, ⟨hr, hrr⟩, hco⟩
    · rintro ⟨r, ⟨hr, hrr⟩, rfl⟩
      exact ⟨wf.countOf_mem hr hrr, (wf.array_spec hr hrr).2.2.2.2.2.2.1⟩
  rw [hperm.length_eq, List.length_map]

namespace Env

variable {E : Env} {S : Struct}

theorem sum_wire_add_counts (wf : S.WellFormed) {g : Field → Nat}
    (hg : ∀ f ∈ S.fields, f.isCount = true → g f = 8) :
    ∀ fs : List Field, (∀ f ∈ fs, f ∈ S.fields) →
      (fs.map fun f => f.onWire (g f)).sum +
        8 * fs.countP (·.isCount) = (fs.map g).sum + 8 * fs.countP (·.isRepeated)
  | [], _ => rfl
  | f :: fs, hm => by
    have ih := sum_wire_add_counts wf hg fs (fun g hg => hm g (List.mem_cons_of_mem f hg))
    have hf := hm f List.mem_cons_self
    simp only [List.map_cons, List.sum_cons, List.countP_cons, Field.onWire] at ih ⊢
    cases hc : f.isCount with
    | true =>
      have hr := (wf.count_spec hf hc).2.2.1
      have hs := hg f hf hc
      simp only [hr, hs, if_true, Bool.false_eq_true, if_false]
      omega
    | false =>
      cases hr : f.isRepeated <;> simp only [if_true, Bool.false_eq_true, if_false] <;> omega

/-- Summing the counts with the fields or each with its array comes to the same. -/
theorem sum_wire (wf : S.WellFormed) {g : Field → Nat}
    (hg : ∀ f ∈ S.fields, f.isCount = true → g f = 8) :
    (S.fields.map fun f => f.onWire (g f)).sum = (S.fields.map g).sum := by
  have h := sum_wire_add_counts wf hg S.fields (fun _ hf => hf)
  rw [wf.countP_isCount] at h
  omega

/-- The bytes the fields write add up to the bytes the buffer is sized by. -/
theorem sum_wireSize (wf : S.WellFormed) (blk : Block) :
    E.sumWire S blk S.fields = E.sumSizes S blk S.fields :=
  sum_wire wf fun f hf hc => by rw [count_size wf hf hc]; rfl

theorem sumAllocSizes_slot (wf : S.WellFormed) {h : Heap} {b : Nat} {blk : Block}
    (hl : h.block? b = some blk) (hb : E.Holds S blk) :
    ∀ (fs : List Field) (acc : I64), (∀ f ∈ fs, f ∈ S.fields) →
      E.sumAllocSizes S (.base b) fs acc h =
        .ok (acc + BitVec.ofNat 64 (E.sumSizes S blk fs), h)
  | [], acc, _ => by simp [sumAllocSizes, sumSizes, pure_apply]
  | f :: fs, acc, hm => by
    rw [sumAllocSizes, bind_of_ok (getFieldAllocSize_slot wf hl hb (hm f List.mem_cons_self)),
      sumAllocSizes_slot wf hl hb fs _ (fun g hg => hm g (List.mem_cons_of_mem f hg))]
    congr 2
    apply BitVec.eq_of_toNat_eq
    simp only [sumSizes, List.map_cons, List.sum_cons, BitVec.toNat_add, BitVec.toNat_ofNat]
    omega

/-! ## Field serializers -/

section Field

variable {h g : Heap} {b r : Nat} {blk out : Block} {f : Field} {o : I64}

/-- The serializer of a scalar, writing to block `r`, in either byte order. -/
theorem fieldSerializer_scalar_run (wf : S.WellFormed)
    (hl : h.block? b = some blk) (hb : E.Holds S blk) (hf : f ∈ S.fields)
    (hr : f.isRepeated = false) (hs : f.isStruct = false) (ht : f.type.isPointerTy = false)
    (he : h.Extends g) (hout : g.block? r = some out) {w : Nat}
    (hswap : E.swapBytes f.type (.int (E.intAt S blk f)) g = .ok (.int w, g)) :
    E.fieldSerializer S f (.base b) (.loc r o) g =
      if o.toNat + E.layout.storeSize f.type ≤ out.cells.length then
        .ok (E.wireSize S blk f,
          g.update r (out.overwrite o.toNat (E.encode f.type (.int w))))
      else .error .access := by
  have hl' := he.block?_some hl
  have hv : E.decode f.type (E.slot S blk f) = .int (E.intAt S blk f) := by
    simp only [intAt, decode, ht, Bool.false_eq_true, if_false, Val.asInt]
  rw [fieldSerializer, insertNullCheck_loc]
  rw [bind_of_ok (loadTy_slot wf hl' hb hf), hv]
  simp only [hs, hr, Bool.false_eq_true, if_false]
  rw [bind_of_ok hswap, bind_of_ok (getFieldAllocSize_slot wf hl' hb hf), storeTy]
  split
  · next hfit =>
    rw [bind_of_ok (store_ok hout (by rw [length_encode_int]; exact hfit)), pure_apply]
    simp only [wireSize, hr, Bool.false_eq_true, if_false]
  · next hfit =>
    exact bind_of_error (store_fault hout (by rw [length_encode_int]; omega))

theorem fieldSerializer_scalar (hLE : E.layout.bigEndian = false) (wf : S.WellFormed)
    (hl : h.block? b = some blk) (hb : E.Holds S blk) (hf : f ∈ S.fields)
    (hr : f.isRepeated = false) (hs : f.isStruct = false) (ht : f.type.isPointerTy = false)
    (he : h.Extends g) (hout : g.block? r = some out) :
    E.fieldSerializer S f (.base b) (.loc r o) g =
      if o.toNat + E.layout.storeSize f.type ≤ out.cells.length then
        .ok (E.wireSize S blk f, g.update r (out.overwrite o.toNat (E.wireBytes S h blk f)))
      else .error .access := by
  have hswap : E.swapBytes f.type (.int (E.intAt S blk f)) g = .ok (.int (E.intAt S blk f), g) := by
    simp only [swapBytes, hLE, Bool.not_false, if_true, pure_apply]
  rw [fieldSerializer_scalar_run wf hl hb hf hr hs ht he hout hswap]
  simp only [wireBytes, hr, Bool.false_eq_true, if_false]

/-- The serializer of an array: the count, then the elements as they are, then their bytes are
    swapped in place. -/
theorem fieldSerializer_array_run (wf : S.WellFormed)
    (hl : h.block? b = some blk) (hb : E.Holds S blk) (hf : f ∈ S.fields)
    (hr : f.isRepeated = true)
    (hread : h.Readable (E.ptrAt S blk f) (E.fieldSizeAt S blk f).toNat)
    (he : h.Extends g) (hnext : h.next ≤ r) (hout : g.block? r = some out) :
    E.fieldSerializer S f (.base b) (.loc r o) g =
      if o.toNat + (8 + (E.fieldSizeAt S blk f).toNat) ≤ out.cells.length then
        (do
          E.swapArrayBytes f.elem (.loc r (o + 8)) (E.countAt S blk (S.countOf f))
          pure (E.wireSize S blk f))
        (g.update r (out.overwrite o.toNat
          (E.encodeI64 (E.swapI64 (E.countAt S blk (S.countOf f))) ++ E.arrayBytes S h blk f)))
      else .error .access := by
  obtain ⟨ht, -, hs, -, hd, hcm, hcc, -⟩ := wf.array_spec hf hr
  have hct := wf.countOf_type hf hr
  have hl' := he.block?_some hl
  have hv : (E.decode f.type (E.slot S blk f)).asPtr = E.ptrAt S blk f := rfl
  have hpt := wf.pointee hf hr
  have hn8 : (8 : I64).toNat = 8 := rfl
  rw [fieldSerializer, insertNullCheck_loc]
  rw [bind_of_ok (loadTy_slot wf hl' hb hf), hv]
  simp only [hs, hr, hpt, hd, Bool.false_eq_true, if_false, if_true]
  rw [bind_of_ok (loadI64_slot wf hl' hb hcm hct)]
  set n := E.countAt S blk (S.countOf f) with hn
  set size := E.fieldSizeAt S blk f with hsize
  rw [storeI64]
  by_cases hcount : o.toNat + 8 ≤ out.cells.length
  case neg =>
    rw [if_neg (by omega)]
    exact bind_of_error (store_fault hout (by rw [length_encodeI64]; omega))
  -- the count goes to the buffer, which leaves the struct and the array alone
  rw [bind_of_ok (store_ok hout (by rw [length_encodeI64]; exact hcount))]
  set out₁ := out.overwrite o.toNat (E.encodeI64 (E.swapI64 n)) with hout₁
  have hlen₁ : out₁.cells.length = out.cells.length := by simp [hout₁]
  have he₁ : h.Extends (g.update r out₁) := he.update hnext out₁
  have hbuf₁ := Heap.block?_update_self hout out₁
  have hl₁ := he₁.block?_some hl
  have hsz : E.fieldSizeAt S blk (S.countOf f) = 8 := count_size wf hcm hcc blk
  rw [bind_of_ok (getFieldAllocSize_slot wf hl₁ hb hcm), hsz,
    bind_of_ok (getFieldAllocSize_slot wf hl₁ hb hf)]
  have ho8 : (o + 8).toNat = o.toNat + 8 := by
    have := out.fits
    rw [BitVec.toNat_add, hn8]
    omega
  -- the array is not the buffer: it was there before
  obtain ⟨hread₁, hby₁⟩ := Heap.readable_extend hread he₁.block?_eq
  rw [Ptr.add_loc]
  by_cases hfit : o.toNat + (8 + size.toNat) ≤ out.cells.length
  case neg =>
    have hne : size ≠ 0 := by
      intro h0
      rw [h0] at hfit
      exact hfit hcount
    rw [if_neg hfit]
    exact bind_of_error (memcpy_overflow (n := size) hread₁ hne hbuf₁ (by rw [ho8, hlen₁]; omega))
  have hblk : out₁.overwrite (o.toNat + 8) (h.bytesAt (E.ptrAt S blk f) size.toNat) =
      out.overwrite o.toNat (E.encodeI64 (E.swapI64 n) ++ E.arrayBytes S h blk f) := by
    have hlb := Heap.length_bytesAt hread
    apply Block.ext
    rw [Block.overwrite_cells (by rw [hlen₁, hlb]; omega), hout₁,
      Block.overwrite_cells (by rw [length_encodeI64]; omega), arrayBytes, ← hsize,
      Block.overwrite_cells (by rw [List.length_append, length_encodeI64, hlb]; omega)]
    exact splice_splice_append (length_encodeI64 E _) (by rw [hlb]; omega)
  rw [if_pos hfit, bind_of_ok (memcpy_ok hread₁ hbuf₁ (by rw [ho8, hlen₁]; omega)),
    Heap.update_update, hby₁, ho8, hblk]
  simp only [wireSize, hr, if_true]

theorem fieldSerializer_array (hLE : E.layout.bigEndian = false) (wf : S.WellFormed)
    (hl : h.block? b = some blk) (hb : E.Holds S blk) (hf : f ∈ S.fields)
    (hr : f.isRepeated = true)
    (hread : h.Readable (E.ptrAt S blk f) (E.fieldSizeAt S blk f).toNat)
    (he : h.Extends g) (hnext : h.next ≤ r) (hout : g.block? r = some out) :
    E.fieldSerializer S f (.base b) (.loc r o) g =
      if o.toNat + (8 + (E.fieldSizeAt S blk f).toNat) ≤ out.cells.length then
        .ok (E.wireSize S blk f, g.update r (out.overwrite o.toNat (E.wireBytes S h blk f)))
      else .error .access := by
  have hswap : E.swapI64 (E.countAt S blk (S.countOf f)) = E.countAt S blk (S.countOf f) := by
    simp [swapI64, hLE]
  have hw : E.wireBytes S h blk f =
      E.encodeI64 (E.countAt S blk (S.countOf f)) ++ E.arrayBytes S h blk f := by
    simp only [wireBytes, hr, if_true]
  rw [fieldSerializer_array_run wf hl hb hf hr hread he hnext hout, hswap, hw]
  simp only [swapArrayBytes, hLE, Bool.not_false, if_true]
  rfl

end Field

/-! ## The loop over the fields -/

/-- A struct object whose arrays can be read. -/
def ArraysReadable (E : Env) (S : Struct) (h : Heap) (blk : Block) : Prop :=
  ∀ f ∈ S.fields, f.isRepeated = true →
    h.Readable (E.ptrAt S blk f) (E.fieldSizeAt S blk f).toNat

variable (E S) in
/-- The buffer after the serializers of `fs` have run. -/
def emit (h : Heap) (blk : Block) : List Field → I64 → Block → Block
  | [], _, out => out
  | f :: fs, idx, out =>
    if f.isCount then emit h blk fs idx out
    else emit h blk fs (idx + E.wireSize S blk f)
      (out.overwrite idx.toNat (E.wireBytes S h blk f))

variable (E S) in
/-- Every field of `fs` has its bytes in the buffer, one after the other from `off` on. -/
def Wired (h : Heap) (blk : Block) (out : List Cell) : List Field → Nat → Prop
  | [], _ => True
  | f :: fs, off =>
    if f.isCount then Wired h blk out fs off
    else slice out off (E.wireBytes S h blk f).length = E.wireBytes S h blk f ∧
      Wired h blk out fs (off + E.wireNat S blk f)

section Loop

variable {h : Heap} {b : Nat} {blk : Block}

theorem length_wireBytes (hread : E.ArraysReadable S h blk) {f : Field} (hf : f ∈ S.fields) :
    (E.wireBytes S h blk f).length =
      if f.isRepeated then 8 + (E.fieldSizeAt S blk f).toNat else E.layout.storeSize f.type := by
  cases hr : f.isRepeated with
  | true =>
    simp only [wireBytes, hr, if_true, List.length_append, length_encodeI64, arrayBytes,
      Heap.length_bytesAt (hread f hf hr)]
  | false => simp only [wireBytes, hr, Bool.false_eq_true, if_false, length_encode_int]

/-- Alloc sizes of the members of an object in memory fit 64 bits. -/
theorem toNat_allocSize (wf : S.WellFormed) (hb : E.Holds S blk) {f : Field}
    (hf : f ∈ S.fields) (hr : f.isRepeated = false) :
    (E.fieldSizeAt S blk f).toNat = E.layout.allocSize f.type := by
  have h := fieldOffset_add_le (E := E) wf hf
  have hh : E.layout.structSize S.packed S.elements ≤ blk.cells.length := hb
  have hlt := blk.fits
  simp only [fieldSizeAt, hr, Bool.false_eq_true, if_false, BitVec.toNat_ofNat]
  exact Nat.mod_eq_of_lt (by omega)

/-- What a field writes is not longer than the size it reports. -/
theorem length_wireBytes_le (wf : S.WellFormed) (hb : E.Holds S blk)
    (hread : E.ArraysReadable S h blk) {f : Field} (hf : f ∈ S.fields) (hc : f.isCount = false) :
    (E.wireBytes S h blk f).length ≤ E.wireNat S blk f := by
  rw [length_wireBytes hread hf, wireNat, Field.onWire]
  cases hr : f.isRepeated with
  | true => simp [hc]
  | false =>
    simp only [hc, Bool.false_eq_true, if_false, toNat_allocSize wf hb hf hr]
    exact E.layout.storeSize_le_allocSize f.type

theorem toNat_add_wireSize (blk : Block) {f : Field} (hc : f.isCount = false) (idx : I64)
    (hlt : idx.toNat + E.wireNat S blk f < 2 ^ 64) :
    (idx + E.wireSize S blk f).toNat = idx.toNat + E.wireNat S blk f := by
  have h8 : (8 : I64).toNat = 8 := rfl
  simp only [wireNat, Field.onWire, wireSize, hc, Bool.false_eq_true, if_false] at hlt ⊢
  split at hlt <;> simp_all only [if_true, Bool.false_eq_true, if_false, BitVec.toNat_add] <;> omega

@[simp] theorem sumWire_cons (blk : Block) (f : Field) (fs : List Field) :
    E.sumWire S blk (f :: fs) = E.wireNat S blk f + E.sumWire S blk fs := by
  simp [sumWire]

theorem wireNat_count {f : Field} (hc : f.isCount = true) : E.wireNat S blk f = 0 := by
  simp [wireNat, Field.onWire, hc]

theorem length_emit (fs : List Field) (idx : I64) (out : Block) :
    (E.emit S h blk fs idx out).cells.length = out.cells.length := by
  induction fs generalizing idx out with
  | nil => rfl
  | cons f fs ih =>
    rw [emit]
    split
    · exact ih idx out
    · rw [ih]; exact Block.length_overwrite _ _ _

/-- The unrolled calls of the field serializers. -/
theorem serializeEntries_ok (hLE : E.layout.bigEndian = false) (wf : S.WellFormed)
    (hfun : Resolves E S) (hl : h.block? b = some blk) (hb : E.Holds S blk)
    (hread : E.ArraysReadable S h blk) :
    ∀ (fs : List Field) (idx : I64) (out : Block), (∀ f ∈ fs, f ∈ S.fields ∧ f.isStruct = false) →
      idx.toNat + E.sumWire S blk fs ≤ out.cells.length →
      E.serializeEntries S (.base b) (.base h.next) fs idx (h.push out) =
        .ok (idx + BitVec.ofNat 64 (E.sumWire S blk fs), h.push (E.emit S h blk fs idx out))
  | [], idx, out, _, _ => by simp [serializeEntries, sumWire, emit, pure_apply]
  | f :: fs, idx, out, hm, hfit => by
    obtain ⟨hf, hs⟩ := hm f List.mem_cons_self
    have hm' : ∀ g ∈ fs, g ∈ S.fields ∧ g.isStruct = false :=
      fun g hg => hm g (List.mem_cons_of_mem f hg)
    rw [sumWire_cons] at hfit
    have hlt := out.fits
    cases hc : f.isCount with
    | true =>
      simp only [serializeEntries, emit, hc, if_true, sumWire_cons, wireNat_count hc] at hfit ⊢
      rw [serializeEntries_ok hLE wf hfun hl hb hread fs idx out hm' (by omega)]
      simp
    | false =>
      have hlen := length_wireBytes_le wf hb hread hf hc
      have hstep : E.fieldSerializer S f (.base b) ((Ptr.base h.next).add idx) (h.push out) =
          .ok (E.wireSize S blk f,
            h.push (out.overwrite idx.toNat (E.wireBytes S h blk f))) := by
        have he := (Heap.Extends.refl h).push out
        have hout := Heap.block?_push_self h out
        rw [Ptr.add_loc, show (0 : I64) + idx = idx from BitVec.zero_add idx,
          ← Heap.update_push_next h out (out.overwrite idx.toNat (E.wireBytes S h blk f))]
        rw [length_wireBytes hread hf] at hlen
        cases hr : f.isRepeated with
        | true =>
          simp only [hr, if_true] at hlen
          rw [fieldSerializer_array hLE wf hl hb hf hr (hread f hf hr) he (Nat.le_refl _) hout]
          exact if_pos (by omega)
        | false =>
          simp only [hr, Bool.false_eq_true, if_false] at hlen
          rw [fieldSerializer_scalar hLE wf hl hb hf hr hs (not_pointer wf hf hs hr) he hout]
          exact if_pos (by omega)
      have hidx := toNat_add_wireSize (E := E) (S := S) blk hc idx (by omega)
      simp only [serializeEntries, emit, hc, Bool.false_eq_true, if_false,
        hfun.serializer hf hc, sumWire_cons]
      rw [bind_of_ok hstep, serializeEntries_ok hLE wf hfun hl hb hread fs _ _ hm'
        (by rw [hidx, Block.length_overwrite]; omega)]
      congr 2
      apply BitVec.eq_of_toNat_eq
      rw [BitVec.toNat_add, hidx, BitVec.toNat_add, BitVec.toNat_ofNat, BitVec.toNat_ofNat]
      omega

/-- The serializers of `fs` leave what lies below the running offset alone. -/
theorem slice_emit_below (wf : S.WellFormed) (hb : E.Holds S blk)
    (hread : E.ArraysReadable S h blk) :
    ∀ (fs : List Field) (idx : I64) (out : Block) (o n : Nat), (∀ f ∈ fs, f ∈ S.fields) →
      idx.toNat + E.sumWire S blk fs ≤ out.cells.length → o + n ≤ idx.toNat →
      slice (E.emit S h blk fs idx out).cells o n = slice out.cells o n
  | [], _, _, _, _, _, _, _ => rfl
  | f :: fs, idx, out, o, n, hm, hfit, hbelow => by
    have hm' : ∀ g ∈ fs, g ∈ S.fields := fun g hg => hm g (List.mem_cons_of_mem f hg)
    rw [sumWire_cons] at hfit
    have hlt := out.fits
    rw [emit]
    cases hc : f.isCount with
    | true =>
      rw [wireNat_count hc] at hfit
      exact slice_emit_below wf hb hread fs idx out o n hm' (by omega) hbelow
    | false =>
      have hlen := length_wireBytes_le wf hb hread (hm f List.mem_cons_self) hc
      have hidx := toNat_add_wireSize (E := E) (S := S) blk hc idx (by omega)
      simp only [Bool.false_eq_true, if_false]
      rw [slice_emit_below wf hb hread fs _ _ o n hm'
        (by rw [hidx, Block.length_overwrite]; omega) (by omega),
        Block.overwrite_cells (by omega)]
      exact slice_splice_disjoint (by omega) (Or.inl hbelow)

/-- In the finished buffer every field has its bytes. -/
theorem emit_wired (wf : S.WellFormed) (hb : E.Holds S blk) (hread : E.ArraysReadable S h blk) :
    ∀ (fs : List Field) (idx : I64) (out : Block), (∀ f ∈ fs, f ∈ S.fields) →
      idx.toNat + E.sumWire S blk fs ≤ out.cells.length →
      E.Wired S h blk (E.emit S h blk fs idx out).cells fs idx.toNat
  | [], _, _, _, _ => trivial
  | f :: fs, idx, out, hm, hfit => by
    have hm' : ∀ g ∈ fs, g ∈ S.fields := fun g hg => hm g (List.mem_cons_of_mem f hg)
    rw [sumWire_cons] at hfit
    have hlt := out.fits
    rw [emit, Wired]
    cases hc : f.isCount with
    | true =>
      rw [wireNat_count hc] at hfit
      exact emit_wired wf hb hread fs idx out hm' (by omega)
    | false =>
      have hlen := length_wireBytes_le wf hb hread (hm f List.mem_cons_self) hc
      have hidx := toNat_add_wireSize (E := E) (S := S) blk hc idx (by omega)
      simp only [Bool.false_eq_true, if_false]
      constructor
      · rw [slice_emit_below wf hb hread fs _ _ _ _ hm'
          (by rw [hidx, Block.length_overwrite]; omega) (by omega)]
        exact Block.slice_overwrite_self rfl (by omega)
      · rw [← hidx]
        exact emit_wired wf hb hread fs _ _ hm' (by rw [hidx, Block.length_overwrite]; omega)

variable (E S) in
/-- The buffer `serialize_S` returns. -/
def serialized (h : Heap) (blk : Block) : Block :=
  let size : I64 := BitVec.ofNat 64 (E.serializedSize S blk)
  E.emit S h blk S.fields 8 ((E.alloc.fresh h.calls size).overwrite 0 (E.encodeI64 size))

/-- The accumulator of `serialize_S` ends at the size. -/
theorem ofNat_serializedSize : (8 : I64) + BitVec.ofNat 64 (E.sumSizes S blk S.fields) =
    BitVec.ofNat 64 (E.serializedSize S blk) := by
  rw [serializedSize, BitVec.ofNat_add]
  rfl

/-- `serialize_S` around the calls of the field serializers, in either byte order. -/
theorem serializeWithIDX_run (wf : S.WellFormed) (hl : h.block? b = some blk)
    (hb : E.Holds S blk) (hsize : E.serializedSize S blk < 2 ^ 64)
    (hA : E.alloc.succeeds h.calls (E.serializedSize S blk) = true) {size : I64}
    (hsz : size = BitVec.ofNat 64 (E.serializedSize S blk)) {idx : I64} {out : Block}
    (hentries : E.serializeEntries S (.base b) (.base h.next) S.fields 8
      (h.push ((E.alloc.fresh h.calls size).overwrite 0 (E.encodeI64 (E.swapI64 size)))) =
        .ok (idx, h.push out)) :
    E.serializeWithIDX S (.base b) h = .ok ((.base h.next, idx), h.push out) := by
  have hto : size.toNat = E.serializedSize S blk := by
    rw [hsz, BitVec.toNat_ofNat]; exact Nat.mod_eq_of_lt hsize
  have hge : 8 ≤ E.serializedSize S blk := Nat.le_add_right 8 _
  rw [serializeWithIDX, insertNullCheck_loc,
    bind_of_ok (sumAllocSizes_slot wf hl hb S.fields 8 (fun _ hf => hf)), ofNat_serializedSize,
    ← hsz, bind_of_ok (malloc_ok (by rw [hto]; exact hA)), insertNullCheck_loc, storeI64,
    bind_of_ok (store_ok (Heap.block?_push_self h _) (by
      rw [length_encodeI64, Allocator.length_fresh, hto]; exact hge)), Heap.update_push_next]
  exact (bind_of_ok hentries).trans rfl

/-- `serialize_S` on a struct of scalars and arrays whose size fits 64 bits. -/
theorem serializeWithIDX_ok (hLE : E.layout.bigEndian = false) (wf : S.WellFormed)
    (hfun : Resolves E S) (hs : ∀ f ∈ S.fields, f.isStruct = false)
    (hl : h.block? b = some blk) (hb : E.Holds S blk) (hread : E.ArraysReadable S h blk)
    (hsize : E.serializedSize S blk < 2 ^ 64)
    (hA : E.alloc.succeeds h.calls (E.serializedSize S blk) = true) :
    E.serializeWithIDX S (.base b) h =
      .ok ((.base h.next, BitVec.ofNat 64 (E.serializedSize S blk)),
        h.push (E.serialized S h blk)) := by
  set size : I64 := BitVec.ofNat 64 (E.serializedSize S blk) with hsz
  have hto : size.toNat = E.serializedSize S blk := by
    rw [hsz, BitVec.toNat_ofNat]; exact Nat.mod_eq_of_lt hsize
  have h8 : (8 : I64).toNat = 8 := rfl
  have hsum := sum_wireSize (E := E) wf blk
  have hswap : E.swapI64 size = size := by simp [swapI64, hLE]
  have hentries := serializeEntries_ok hLE wf hfun hl hb hread S.fields 8
    ((E.alloc.fresh h.calls size).overwrite 0 (E.encodeI64 size)) (fun f hf => ⟨hf, hs f hf⟩)
    (by
      rw [Block.length_overwrite, Allocator.length_fresh, hto, hsum, h8]
      exact Nat.le_refl _)
  rw [hsum, ofNat_serializedSize] at hentries
  refine (serializeWithIDX_run wf hl hb hsize hA hsz ?_).trans rfl
  rw [hswap]
  exact hentries

theorem length_serialized (hsize : E.serializedSize S blk < 2 ^ 64) :
    (E.serialized S h blk).cells.length = E.serializedSize S blk := by
  rw [serialized, length_emit, Block.length_overwrite, Allocator.length_fresh, BitVec.toNat_ofNat]
  exact Nat.mod_eq_of_lt hsize

/-- The header of the buffer. -/
theorem header_serialized (wf : S.WellFormed) (hb : E.Holds S blk)
    (hread : E.ArraysReadable S h blk) (hsize : E.serializedSize S blk < 2 ^ 64) :
    slice (E.serialized S h blk).cells 0 8 =
      E.encodeI64 (BitVec.ofNat 64 (E.serializedSize S blk)) := by
  have h8 : (8 : I64).toNat = 8 := rfl
  have hge : 8 ≤ E.serializedSize S blk := Nat.le_add_right 8 _
  have hlen : (E.alloc.fresh h.calls (BitVec.ofNat 64 (E.serializedSize S blk))).cells.length =
      E.serializedSize S blk := by
    rw [Allocator.length_fresh, BitVec.toNat_ofNat]
    exact Nat.mod_eq_of_lt hsize
  rw [serialized, slice_emit_below wf hb hread S.fields 8 _ 0 8 (fun _ hf => hf) (by
      rw [Block.length_overwrite, hlen, sum_wireSize wf, h8]; exact Nat.le_refl _) (by rw [h8])]
  exact Block.slice_overwrite_self (length_encodeI64 E _) (by rw [hlen]; exact hge)

theorem wired_serialized (wf : S.WellFormed) (hb : E.Holds S blk)
    (hread : E.ArraysReadable S h blk) (hsize : E.serializedSize S blk < 2 ^ 64) :
    E.Wired S h blk (E.serialized S h blk).cells S.fields 8 := by
  refine emit_wired wf hb hread S.fields 8 _ (fun _ hf => hf) ?_
  rw [Block.length_overwrite, Allocator.length_fresh, BitVec.toNat_ofNat, sum_wireSize wf,
    Nat.mod_eq_of_lt hsize]
  exact Nat.le_refl _

end Loop

end Env

end Tyr
