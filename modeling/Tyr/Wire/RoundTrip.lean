import Tyr.Wire.Deserialize

/-
  `deserialize_S` undoes `serialize_S`.

  `Valid` is the state of a struct between calls; `IsCopy` says that one struct has the
  fields of another and arrays of its own. On a buffer that `serialize_S` wrote every visit
  finds the bytes its field was written with (`honest_visits`), so a walk whose allocations
  succeed loads a copy (`copy_of_reads`). `deserialize_serialize` is the round trip.
-/

namespace Tyr

open Prog

namespace Env

variable (E : Env) (S : Struct)

/-! ## Struct states -/

/-- Exact size of a field; of an array, its elements. -/
def exactFieldSize (blk : Block) (f : Field) : Nat :=
  if f.isRepeated then E.layout.allocSize f.elem * (E.countAt S blk (S.countOf f)).toNat
  else E.layout.allocSize f.type

/-- Exact size of the serialized struct. -/
def exactSize (blk : Block) : Nat := 8 + (S.fields.map (E.exactFieldSize S blk)).sum

/-- The bytes of an array's elements. -/
def elementsAt (h : Heap) (blk : Block) (f : Field) : List Cell :=
  h.bytesAt (E.ptrAt S blk f) (E.exactFieldSize S blk f)

/-- A struct whose arrays are NULL and empty or point to their elements. -/
structure Valid (h : Heap) (blk : Block) : Prop where
  holds : E.Holds S blk
  arrays : ∀ f ∈ S.fields, f.isRepeated = true →
    E.ptrAt S blk f = .null ∧ E.countAt S blk (S.countOf f) = 0 ∨
      (h.read (E.ptrAt S blk f) (E.exactFieldSize S blk f)).isSome

/-- `obj` has the fields of `blk`, its arrays in blocks of their own that were not there
    in `h`. Counts are among the fields that are not repeated. -/
structure IsCopy (h : Heap) (blk : Block) (h' : Heap) (obj : Block) : Prop where
  field : ∀ f ∈ S.fields, f.isRepeated = false → E.intAt S obj f = E.intAt S blk f
  array : ∀ f ∈ S.fields, f.isRepeated = true → ∃ d arr, E.ptrAt S obj f = .base d ∧
    h.next ≤ d ∧ h'.block? d = some arr ∧ arr.cells = E.elementsAt S h blk f
  apart : ∀ f ∈ S.fields, ∀ g ∈ S.fields, f.isRepeated = true → g.isRepeated = true → f ≠ g →
    E.ptrAt S obj f ≠ E.ptrAt S obj g

variable {E S} {h : Heap} {blk : Block}

theorem exactFieldSize_le (blk : Block) {f : Field} (hf : f ∈ S.fields) :
    8 + E.exactFieldSize S blk f ≤ E.exactSize S blk :=
  Nat.add_le_add_left (List.le_sum_of_mem (List.mem_map_of_mem hf)) 8

/-- Below `2 ^ 64` nothing wraps. -/
theorem fieldSizeAt_toNat (hsize : E.exactSize S blk < 2 ^ 64) {f : Field} (hf : f ∈ S.fields) :
    (E.fieldSizeAt S blk f).toNat = E.exactFieldSize S blk f := by
  have hle := exactFieldSize_le (E := E) blk hf
  have hlt : E.exactFieldSize S blk f < 2 ^ 64 := by omega
  unfold exactFieldSize at hlt ⊢
  unfold fieldSizeAt
  split at hlt
  · next hr =>
    simp only [hr, if_true, BitVec.toNat_mul, BitVec.toNat_ofNat, Nat.mod_mul_mod]
    exact Nat.mod_eq_of_lt hlt
  · next hr =>
    simp only [hr, Bool.false_eq_true, if_false, BitVec.toNat_ofNat]
    exact Nat.mod_eq_of_lt hlt

theorem serializedSize_eq (hsize : E.exactSize S blk < 2 ^ 64) :
    E.serializedSize S blk = E.exactSize S blk := by
  unfold serializedSize exactSize sumSizes
  congr 2
  exact List.map_congr_left fun f hf => fieldSizeAt_toNat hsize hf

theorem arrayBytes_eq (hsize : E.exactSize S blk < 2 ^ 64) {f : Field} (hf : f ∈ S.fields) :
    E.arrayBytes S h blk f = E.elementsAt S h blk f := by
  rw [arrayBytes, elementsAt, fieldSizeAt_toNat hsize hf]

theorem Valid.readable (hv : E.Valid S h blk) (hsize : E.exactSize S blk < 2 ^ 64) :
    E.ArraysReadable S h blk := by
  intro f hf hr
  rcases hv.arrays f hf hr with ⟨-, hc⟩ | hread
  · left
    simp [fieldSizeAt, hr, hc]
  · right
    rwa [fieldSizeAt_toNat hsize hf]

/-! ## Visits of an honest buffer -/

/-- At the visit's offset the buffer holds what the field's serializer wrote. -/
structure Honest (E : Env) (S : Struct) (h : Heap) (blk : Block) (buf : List Cell) (v : Visit) :
    Prop where
  wire : slice buf v.off.toNat (E.wireBytes S h blk v.field).length = E.wireBytes S h blk v.field
  fits : v.off.toNat + E.wireNat S blk v.field ≤ buf.length

section Honest

variable {buf : List Cell} {v : Visit}

theorem Honest.count (hh : E.Honest S h blk buf v) (hr : v.field.isRepeated = true) :
    v.count E buf = E.countAt S blk (S.countOf v.field) := by
  have hw := hh.wire
  simp only [wireBytes, hr, if_true] at hw
  have h8 := congrArg (slice · 0 8) hw
  rw [slice_slice (by simp), Nat.add_zero, slice_append_left (length_encodeI64 E _)] at h8
  rw [Visit.count, h8, decodeI64_encodeI64]

theorem Honest.arraySize (hh : E.Honest S h blk buf v) (hr : v.field.isRepeated = true) :
    v.arraySize E buf = E.fieldSizeAt S blk v.field := by
  simp only [Visit.arraySize, sizeFor, hh.count hr, fieldSizeAt, hr, if_true]

theorem Honest.elements (hh : E.Honest S h blk buf v) (hread : E.ArraysReadable S h blk)
    (hf : v.field ∈ S.fields) (hr : v.field.isRepeated = true) :
    slice buf (v.off.toNat + 8) (v.arraySize E buf).toNat = E.arrayBytes S h blk v.field := by
  have hlen : (E.arrayBytes S h blk v.field).length = (E.fieldSizeAt S blk v.field).toNat :=
    Heap.length_bytesAt (hread _ hf hr)
  have hw := hh.wire
  simp only [wireBytes, hr, if_true] at hw
  have h8 := congrArg (slice · 8 (E.fieldSizeAt S blk v.field).toNat) hw
  rw [slice_slice (by simp [hlen]), ← hlen, slice_append_right (length_encodeI64 E _)] at h8
  rw [hh.arraySize hr, ← hlen, h8]

theorem Honest.scalar (hh : E.Honest S h blk buf v) (hr : v.field.isRepeated = false) :
    slice buf v.off.toNat (E.layout.storeSize v.field.type) =
      E.encode v.field.type (.int (E.intAt S blk v.field)) := by
  have hw := hh.wire
  simpa only [wireBytes, hr, Bool.false_eq_true, if_false, length_encode_int] using hw

theorem Honest.inBounds (hh : E.Honest S h blk buf v) (wf : S.WellFormed) (hb : E.Holds S blk)
    (hf : v.field ∈ S.fields) (hc : v.field.isCount = false) : v.InBounds E buf := by
  have hfit := hh.fits
  simp only [wireNat, Field.onWire, hc, Bool.false_eq_true, if_false] at hfit
  rw [Visit.InBounds]
  cases hr : v.field.isRepeated with
  | true =>
    simp only [hr, if_true] at hfit ⊢
    rw [hh.arraySize hr]
    exact ⟨by omega, fun _ _ => by omega⟩
  | false =>
    simp only [hr, Bool.false_eq_true, if_false] at hfit ⊢
    rw [toNat_allocSize wf hb hf hr] at hfit
    have := E.layout.storeSize_le_allocSize v.field.type
    omega

theorem Honest.size (hh : E.Honest S h blk buf v) (wf : S.WellFormed) (hb : E.Holds S blk)
    (hf : v.field ∈ S.fields) (hc : v.field.isCount = false) :
    v.size E buf = E.wireNat S blk v.field := by
  rw [Visit.size, wireNat, Field.onWire]
  cases hr : v.field.isRepeated with
  | true => simp only [hc, hh.arraySize hr, if_true, Bool.false_eq_true, if_false]
  | false => simp only [hc, toNat_allocSize wf hb hf hr, Bool.false_eq_true, if_false]

end Honest

/-- Once every allocation succeeds, no visit of a serialized struct is off its field. -/
theorem honest_visits (hread : E.ArraysReadable S h blk) {buf : List Cell}
    (hlt : buf.length < 2 ^ 64) :
    ∀ (fs : List Field) (off : I64) (call block : Nat), (∀ f ∈ fs, f ∈ S.fields) →
      E.Wired S h blk buf fs off.toNat → off.toNat + E.sumWire S blk fs ≤ buf.length →
      (∀ v ∈ E.visits buf fs off call block, v.field.isRepeated = true →
        v.allocated E buf = true) →
      ∀ v ∈ E.visits buf fs off call block, E.Honest S h blk buf v
  | [], _, _, _, _, _, _, _ => fun v hv => nomatch hv
  | f :: fs, off, call, block, hm, hw, hfit, hal => by
    have hm' : ∀ g ∈ fs, g ∈ S.fields := fun g hg => hm g (List.mem_cons_of_mem f hg)
    rw [Wired] at hw
    rw [sumWire_cons] at hfit
    rw [visits] at hal ⊢
    cases hc : f.isCount with
    | true =>
      simp only [hc, if_true] at hw hal ⊢
      rw [wireNat_count hc] at hfit
      exact honest_visits hread hlt fs off call block hm' hw (by omega) hal
    | false =>
      simp only [hc, Bool.false_eq_true, if_false] at hw hal ⊢
      obtain ⟨hhead, htail⟩ := hw
      have hh : E.Honest S h blk buf ⟨f, off, call, block⟩ := ⟨hhead, by dsimp only; omega⟩
      -- the visit advances by what the serializer wrote
      have hadv : (Visit.mk f off call block).advance E buf = E.wireSize S blk f := by
        rw [Visit.advance, wireSize]
        cases hr : f.isRepeated with
        | true =>
          simp only [if_true, hal _ List.mem_cons_self hr, hh.arraySize hr]
        | false => simp only [Bool.false_eq_true, if_false, fieldSizeAt, hr]
      have hidx := toNat_add_wireSize (E := E) (S := S) blk hc off (by omega)
      intro v hv
      rcases List.mem_cons.mp hv with rfl | hv
      · exact hh
      · rw [hadv] at hv hal
        refine honest_visits hread hlt fs _ _ _ hm' (by rwa [hidx]) (by rw [hidx]; omega)
          (fun w hw => hal w (List.mem_cons_of_mem _ hw)) v hv

/-- Stored integers are within their type. -/
theorem intAt_lt (blk : Block) {f : Field} (ht : f.type.isPointerTy = false) :
    E.intAt S blk f < 2 ^ E.layout.getTypeSizeInBits f.type := by
  simp only [intAt, decode, ht, Bool.false_eq_true, if_false, Val.asInt]
  exact Nat.mod_lt _ (Nat.two_pow_pos _)

theorem intAt_count (blk : Block) {f : Field} (ht : f.type = .int 64) :
    E.intAt S blk f = (E.countAt S blk f).toNat := by
  rw [intAt, ht, decode_i64]
  rfl

theorem elementsAt_push (hv : E.Valid S h blk) (out : Block) {f : Field} (hf : f ∈ S.fields)
    (hr : f.isRepeated = true) : E.elementsAt S (h.push out) blk f = E.elementsAt S h blk f := by
  refine (Heap.readable_push ?_ out).2
  rcases hv.arrays f hf hr with ⟨-, hc⟩ | hread
  · left
    simp [exactFieldSize, hr, hc]
  · exact Or.inr hread

/-- A walk over an honest buffer loads a copy. -/
theorem copy_of_reads (wf : S.WellFormed) (hs : ∀ f ∈ S.fields, f.isStruct = false)
    (hv : E.Valid S h blk) (hsize : E.exactSize S blk < 2 ^ 64) (out : Block) {buf : List Cell}
    {s : Nat} {h₁ h' : Heap} {obj₀ obj : Block} {call block : Nat} (hblock : h.next < block)
    (hhon : ∀ v ∈ E.visits buf S.fields 8 call block, E.Honest S h blk buf v)
    (hal : ∀ v ∈ E.visits buf S.fields 8 call block, v.field.isRepeated = true →
      v.allocated E buf = true)
    (hreads : E.Reads S buf s S.fields (E.visits buf S.fields 8 call block) h₁ h' obj₀ obj) :
    E.IsCopy S (h.push out) blk h' obj where
  field f hf hr := by
    cases hc : f.isCount with
    | true =>
      -- a count was stored by the visit of its array
      obtain ⟨ht, -, -, r, hrm, hrr, -, hco⟩ := wf.count_spec hf hc
      obtain ⟨v, hvm, hvf⟩ := exists_visit E buf 8 call block hrm (wf.array_spec hrm hrr).2.2.2.1
      have hvr : v.field.isRepeated = true := by rw [hvf]; exact hrr
      have h1 := (hreads.loaded v hvm).count hvr
      rw [(hhon v hvm).count hvr, hvf, hco] at h1
      rw [intAt_count _ ht, intAt_count _ ht, h1]
    | false =>
      obtain ⟨v, hvm, rfl⟩ := exists_visit E buf 8 call block hf hc
      have ht := not_pointer wf hf (hs _ hf) hr
      have h1 := (hreads.loaded v hvm).scalar hr
      rw [(hhon v hvm).scalar hr, decode_encode_int E ht, Nat.mod_eq_of_lt (intAt_lt _ ht)] at h1
      rw [intAt, h1, decode_encode_int E ht, Nat.mod_eq_of_lt (intAt_lt _ ht)]
      rfl
  array f hf hr := by
    obtain ⟨v, hvm, rfl⟩ := exists_visit E buf 8 call block hf (wf.array_spec hf hr).2.2.2.1
    obtain ⟨hp, arr, harr, hcells⟩ := (hreads.loaded v hvm).array hr (hal v hvm hr)
    refine ⟨v.block, arr, hp, ?_, harr, ?_⟩
    · have := block_le_of_mem_visits hvm
      rw [Heap.next_push]
      omega
    · rw [hcells, (hhon v hvm).elements (hv.readable hsize) hf hr, arrayBytes_eq hsize hf,
        elementsAt_push hv out hf hr]
  apart f hf g hg hrf hrg hne := by
    obtain ⟨v, hvm, rfl⟩ := exists_visit E buf 8 call block hf (wf.array_spec hf hrf).2.2.2.1
    obtain ⟨w, hwm, rfl⟩ := exists_visit E buf 8 call block hg (wf.array_spec hg hrg).2.2.2.1
    rw [((hreads.loaded v hvm).array hrf (hal v hvm hrf)).1,
      ((hreads.loaded w hwm).array hrg (hal w hwm hrg)).1]
    intro he
    injection he with he
    exact visits_block_ne hvm hwm hrf hrg (hal v hvm hrf) (hal w hwm hrg) hne he

/-- On a valid struct whose size fits 64 bits, `serialize_S` allocates a block of exactly that
    size and writes nothing else. -/
theorem getSerializer_ok (hLE : E.layout.bigEndian = false) (wf : S.WellFormed)
    (hfun : Resolves E S) (hs : ∀ f ∈ S.fields, f.isStruct = false) {b : Nat}
    (hl : h.block? b = some blk) (hv : E.Valid S h blk) (hsize : E.exactSize S blk < 2 ^ 64)
    (hA : E.alloc.succeeds h.calls (E.exactSize S blk) = true) :
    E.getSerializer S (.base b) h = .ok (.base h.next, h.push (E.serialized S h blk)) := by
  have heq := serializedSize_eq hsize
  rw [getSerializer, bind_of_ok (serializeWithIDX_ok hLE wf hfun hs hl hv.holds
    (hv.readable hsize) (by rwa [heq]) (by rwa [heq]))]
  rfl

theorem length_serialized_exact (hsize : E.exactSize S blk < 2 ^ 64) :
    (E.serialized S h blk).cells.length = E.exactSize S blk := by
  have heq := serializedSize_eq hsize
  rw [length_serialized (by rwa [heq]), heq]

theorem headerIn_serialized (wf : S.WellFormed) (hv : E.Valid S h blk)
    (hsize : E.exactSize S blk < 2 ^ 64) :
    E.headerIn (E.serialized S h blk).cells = BitVec.ofNat 64 (E.exactSize S blk) := by
  have heq := serializedSize_eq hsize
  rw [headerIn, header_serialized wf hv.holds (hv.readable hsize) (by rwa [heq]),
    decodeI64_encodeI64, heq]

/-- A walk over a serialized struct whose allocations all succeed. -/
theorem honest_walk (wf : S.WellFormed) (hv : E.Valid S h blk) (hsize : E.exactSize S blk < 2 ^ 64)
    (call block : Nat)
    (hal : ∀ v ∈ E.visits (E.serialized S h blk).cells S.fields 8 call block,
      v.field.isRepeated = true → v.allocated E (E.serialized S h blk).cells = true) :
    ∀ v ∈ E.visits (E.serialized S h blk).cells S.fields 8 call block,
      E.Honest S h blk (E.serialized S h blk).cells v := by
  have heq := serializedSize_eq hsize
  have h8 : (8 : I64).toNat = 8 := rfl
  refine honest_visits (hv.readable hsize) (Block.fits _) S.fields 8 call block (fun _ hf => hf)
    ?_ ?_ hal
  · exact wired_serialized wf hv.holds (hv.readable hsize) (by rwa [heq])
  · rw [length_serialized (by rwa [heq]), h8, sum_wireSize wf]
    exact Nat.le_refl _

/-- An honest walk adds up to the size of the struct. -/
theorem walkSize_honest (wf : S.WellFormed) (hv : E.Valid S h blk) {buf : List Cell}
    (hsize : E.exactSize S blk < 2 ^ 64) (call block : Nat)
    (hhon : ∀ v ∈ E.visits buf S.fields 8 call block, E.Honest S h blk buf v) :
    E.walkSize buf (E.visits buf S.fields 8 call block) = E.exactSize S blk := by
  have hsum := sumWire_visits wf hv.holds 8 call block
    (fun v hv' hr => ((hhon v hv').count hr).symm)
  rw [walkSize, ← hsum, sum_wireSize wf, ← serializedSize_eq hsize]
  rfl

end Env

open Env

/-- Serializing a struct and reading the buffer back gives a copy. The first run adds one
    block, whose size is in its header; the second stays inside that block and changes no
    block that was there. -/
theorem deserialize_serialize {A : Allocator} {DL : DataLayout} {S : Struct}
    (hLE : DL.bigEndian = false) (flat : S.IsFlat) (hn : S.DistinctNames)
    (hA : ∀ t n, A.succeeds t n = true) {h : Heap} {b : Nat} {s : Block}
    (hl : h.block? b = some s) (hv : (Env.ofStruct A DL S).Valid S h s)
    (hsize : (Env.ofStruct A DL S).exactSize S s < 2 ^ 64) :
    ∃ buf h₂ r obj,
      (Env.ofStruct A DL S).getSerializer S (.base b) h = .ok (.base h.next, h.push buf) ∧
      buf.cells.length = (Env.ofStruct A DL S).exactSize S s ∧
      ((Env.ofStruct A DL S).headerIn buf.cells).toNat = buf.cells.length ∧
      (Env.ofStruct A DL S).getDeserializer S (.base h.next) (h.push buf) = .ok (.base r, h₂) ∧
      (h.push buf).next ≤ r ∧ h₂.block? r = some obj ∧
      (Env.ofStruct A DL S).IsCopy S (h.push buf) s h₂ obj ∧
      ∀ d < (h.push buf).next, h₂.block? d = (h.push buf).block? d := by
  set E := Env.ofStruct A DL S with hE
  have wf := flat.toWellFormed
  have hfun := resolves_ofStruct A DL hn
  have heq := serializedSize_eq hsize
  set buf := E.serialized S h s with hbuf
  have hlen : buf.cells.length = E.exactSize S s := length_serialized_exact hsize
  have hhead := headerIn_serialized wf hv hsize
  have hal : ∀ v ∈ E.walk S buf.cells (h.push buf), v.field.isRepeated = true →
      v.allocated E buf.cells = true := fun v _ _ => hA _ _
  have hhon : ∀ v ∈ E.walk S buf.cells (h.push buf), E.Honest S h s buf.cells v :=
    honest_walk wf hv hsize _ _ hal
  have hstruct : E.layout.structSize S.packed S.elements < 2 ^ 64 :=
    Nat.lt_of_le_of_lt hv.holds s.fits
  obtain ⟨h₂, obj, hrun, hobj, hreads⟩ := getDeserializer_ok hLE wf hfun flat.isStruct hstruct
    (Heap.block?_push_self h buf) (by rw [hlen]; exact Nat.le_add_right 8 _) (hA _ _)
    (fun v hv' => (hhon v hv').inBounds wf hv.holds (mem_visits hv').1 (mem_visits hv').2)
  rw [hhead, walk, walkSize_honest wf hv hsize _ _ hhon, if_pos rfl] at hrun
  refine ⟨buf, h₂, (h.push buf).next, obj,
    getSerializer_ok hLE wf hfun flat.isStruct hl hv hsize (hA _ _), hlen, ?_, hrun,
    Nat.le_refl _, hreads.block, ?_, fun d hd => ?_⟩
  · rw [hhead, hlen, BitVec.toNat_ofNat]
    exact Nat.mod_eq_of_lt hsize
  · exact copy_of_reads wf flat.isStruct hv hsize buf
      (by rw [Heap.next_push]; omega) hhon hal hreads
  · rw [hreads.other d (by rw [Heap.next_push]; omega) (Nat.ne_of_lt hd),
      Heap.block?_push_of_lt hd]

/-- A `path` with `idx = 7`, one `x` and no `y`; the `x` is block 1. -/
def pathBlock : Block where
  cells := encodeInt false 4 7 ++ encodeInt false 8 1 ++ encodePtr 8 (.base 1) ++
    encodeInt false 8 0 ++ encodePtr 8 .null
  fits := by decide

theorem float_fits : (encodeInt false 4 0x3f800000).length < 2 ^ 64 := by decide

def pathHeap : Heap where
  blocks := [some pathBlock, some ⟨encodeInt false 4 0x3f800000, float_fits⟩]
  calls := 2

theorem pathBlock_valid :
    (Env.ofStruct .calloc .default pathStruct).Valid pathStruct pathHeap pathBlock where
  holds := by decide
  arrays := by decide

theorem deserialize_serialize_path :
    ∃ buf h₂ r obj,
      (Env.ofStruct .calloc .default pathStruct).getSerializer pathStruct (.base 0) pathHeap =
        .ok (.base 2, pathHeap.push buf) ∧
      buf.cells.length = (Env.ofStruct .calloc .default pathStruct).exactSize pathStruct pathBlock ∧
      ((Env.ofStruct .calloc .default pathStruct).headerIn buf.cells).toNat = buf.cells.length ∧
      (Env.ofStruct .calloc .default pathStruct).getDeserializer pathStruct (.base 2)
        (pathHeap.push buf) = .ok (.base r, h₂) ∧
      (pathHeap.push buf).next ≤ r ∧ h₂.block? r = some obj ∧
      (Env.ofStruct .calloc .default pathStruct).IsCopy pathStruct (pathHeap.push buf) pathBlock
        h₂ obj ∧
      ∀ d < (pathHeap.push buf).next, h₂.block? d = (pathHeap.push buf).block? d :=
  deserialize_serialize rfl pathStruct_isFlat pathStruct_distinctNames (fun _ _ => rfl) (b := 0)
    rfl pathBlock_valid (by decide)

end Tyr
