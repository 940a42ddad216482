import Tyr.Wire.RoundTrip

/-
  The round trip when allocations fail.

  A field deserializer whose `malloc` fails returns 0, and the struct deserializer adds that
  to its running offset like any size, so the fields after it are read from the wrong place.
  Nothing stops the run. `AllOrNothing` is what a caller may hope for;
  `allOrNothing_iff` says for which patterns of outcomes it holds.
-/

namespace Tyr

open Prog Env

/-- A pointer loaded from plain bytes does not point into a block. -/
theorem decodePtr_ne_loc {size : Nat} {cs : List Cell} (hcs : ∀ c ∈ cs, ∃ b, c = .byte b)
    (d : Nat) (o : I64) : decodePtr size cs ≠ .loc d o := by
  unfold decodePtr
  split
  · exact fun h => Ptr.noConfusion h
  · split
    · next b' o' i cs' _ =>
      obtain ⟨b, hb⟩ := hcs _ List.mem_cons_self
      cases hb
    · exact fun h => Ptr.noConfusion h

namespace Env

variable (E : Env) (S : Struct)

/-- `deserialize_S(serialize_S(s))` -/
def serializeDeserialize (Self : Ptr) : Prog Ptr := do
  let SerializedSelf ← E.getSerializer S Self
  E.getDeserializer S SerializedSelf

/-- The round trip of struct `b` returns NULL or a copy. Every array of a copy is a block that
    the run allocated, so no pointer in it was left unassigned. -/
def AllOrNothing (h : Heap) (b : Nat) (s : Block) : Prop :=
  ∃ r h', E.serializeDeserialize S (.base b) h = .ok (r, h') ∧
    (r = .null ∨ ∃ i obj, r = .base i ∧ h'.block? i = some obj ∧ E.IsCopy S h s h' obj)

/-- The walk of the round trip over what struct `s` was serialized to. -/
def roundTripWalk (h : Heap) (s : Block) : List Visit :=
  E.walk S (E.serialized S h s).cells (h.push (E.serialized S h s))

variable {E S} {h : Heap} {b : Nat} {s : Block}

theorem IsCopy.of_push {out obj : Block} {h' : Heap} (hv : E.Valid S h s)
    (hc : E.IsCopy S (h.push out) s h' obj) : E.IsCopy S h s h' obj where
  field := hc.field
  array f hf hr := by
    obtain ⟨d, arr, hp, hd, harr, hcells⟩ := hc.array f hf hr
    rw [elementsAt_push hv out hf hr] at hcells
    rw [Heap.next_push] at hd
    exact ⟨d, arr, hp, by omega, harr, hcells⟩
  apart := hc.apart

/-- A struct fresh from `malloc` holds no pointer to a block. -/
theorem ptrAt_fresh (A : Allocator) (t : Nat) (n : I64) (f : Field) (d : Nat) (o : I64) :
    E.ptrAt S (A.fresh t n) f ≠ .loc d o := by
  have hbytes : ∀ c ∈ E.slot S (A.fresh t n) f, ∃ b, c = .byte b := by
    intro c hc
    have hm : c ∈ (A.fresh t n).cells := List.mem_of_mem_drop (List.mem_of_mem_take hc)
    obtain ⟨i, -, rfl⟩ := List.mem_map.mp hm
    exact ⟨_, rfl⟩
  unfold ptrAt decode
  split
  · exact decodePtr_ne_loc hbytes d o
  · exact fun h => Ptr.noConfusion h

/-- Nothing is serialized when the buffer cannot be allocated. -/
theorem getSerializer_null (wf : S.WellFormed) (hl : h.block? b = some s) (hv : E.Valid S h s)
    (hsize : E.exactSize S s < 2 ^ 64) (hA : E.alloc.succeeds h.calls (E.exactSize S s) = false) :
    E.getSerializer S (.base b) h = .ok (.null, h.tick) := by
  have heq := serializedSize_eq hsize
  have hacc : (8 : I64) + BitVec.ofNat 64 (E.sumSizes S s S.fields) =
      BitVec.ofNat 64 (E.exactSize S s) := by
    rw [ofNat_serializedSize, heq]
  have hA' : E.alloc.succeeds h.calls (BitVec.ofNat 64 (E.exactSize S s)).toNat = false := by
    rw [BitVec.toNat_ofNat, Nat.mod_eq_of_lt hsize]
    exact hA
  have hrun : E.serializeWithIDX S (.base b) h = .ok ((.null, 0), h.tick) := by
    rw [serializeWithIDX, insertNullCheck_loc,
      bind_of_ok (sumAllocSizes_slot wf hl hv.holds S.fields 8 (fun _ hf => hf)), hacc,
      bind_of_ok (malloc_null hA'), insertNullCheck_null, pure_apply]
  rw [getSerializer, bind_of_ok hrun]
  rfl

/-- The header is compared with the size that the walk finds. -/
theorem headerIn_eq_iff (wf : S.WellFormed) (hv : E.Valid S h s) (hsize : E.exactSize S s < 2 ^ 64)
    {n : Nat} : E.headerIn (E.serialized S h s).cells = BitVec.ofNat 64 n ↔
      n % 2 ^ 64 = E.exactSize S s := by
  rw [headerIn_serialized wf hv hsize, ← BitVec.toNat_inj, BitVec.toNat_ofNat, BitVec.toNat_ofNat,
    Nat.mod_eq_of_lt hsize, eq_comm]

/-- `deserialize_S(NULL)` loads the header first. -/
theorem not_allOrNothing_null (wf : S.WellFormed) (hl : h.block? b = some s)
    (hv : E.Valid S h s) (hsize : E.exactSize S s < 2 ^ 64)
    (hA : E.alloc.succeeds h.calls (E.exactSize S s) = false) : ¬ E.AllOrNothing S h b s := by
  intro hall
  obtain ⟨r, h', hrun, -⟩ := hall
  rw [serializeDeserialize, bind_of_ok (getSerializer_null wf hl hv hsize hA),
    getDeserializer_of_null] at hrun
  cases hrun

/-! ## With a buffer -/

section Buffer

variable (hLE : E.layout.bigEndian = false) (flat : S.IsFlat) (hfun : Resolves E S)
  (hl : h.block? b = some s) (hv : E.Valid S h s) (hsize : E.exactSize S s < 2 ^ 64)
  (hA₀ : E.alloc.succeeds h.calls (E.exactSize S s) = true)
include hLE flat hfun hl hv hsize hA₀

theorem serializeDeserialize_eq : E.serializeDeserialize S (.base b) h =
    E.getDeserializer S (.base h.next) (h.push (E.serialized S h s)) := by
  rw [serializeDeserialize,
    bind_of_ok (getSerializer_ok hLE flat.toWellFormed hfun flat.isStruct hl hv hsize hA₀)]

theorem allOrNothing_of_unallocated
    (hA₁ : E.alloc.succeeds (h.calls + 1) (E.layout.structSize S.packed S.elements) = false) :
    E.AllOrNothing S h b s := by
  have hstruct : E.layout.structSize S.packed S.elements < 2 ^ 64 :=
    Nat.lt_of_le_of_lt hv.holds s.fits
  have hlen := length_serialized_exact (h := h) hsize
  refine ⟨.null, (h.push (E.serialized S h s)).tick, ?_, Or.inl rfl⟩
  rw [serializeDeserialize_eq hLE flat hfun hl hv hsize hA₀]
  refine getDeserializer_null (Heap.block?_push_self h _) ?_ ?_
  · rw [hlen]
    exact Nat.le_add_right 8 _
  · rw [structAllocSize_toNat hstruct]
    exact hA₁

variable (hA₁ : E.alloc.succeeds (h.calls + 1) (E.layout.structSize S.packed S.elements) = true)
include hA₁

/-- In bounds the walk comes to its end, and a struct comes back if the sizes agree. -/
theorem roundTrip_reads (hin : ∀ v ∈ E.roundTripWalk S h s,
      v.InBounds E (E.serialized S h s).cells) :
    ∃ h' obj, E.serializeDeserialize S (.base b) h =
        .ok (if E.walkSize (E.serialized S h s).cells (E.roundTripWalk S h s) % 2 ^ 64 =
            E.exactSize S s then .base (h.push (E.serialized S h s)).next else .null, h') ∧
      E.Reads S (E.serialized S h s).cells (h.push (E.serialized S h s)).next S.fields
        (E.roundTripWalk S h s) ((h.push (E.serialized S h s)).push
          (E.alloc.fresh (h.calls + 1) (E.getStructAllocSize S))) h'
        (E.alloc.fresh (h.calls + 1) (E.getStructAllocSize S)) obj := by
  have wf := flat.toWellFormed
  have hstruct : E.layout.structSize S.packed S.elements < 2 ^ 64 :=
    Nat.lt_of_le_of_lt hv.holds s.fits
  obtain ⟨h', obj, hrun, -, hreads⟩ := getDeserializer_ok hLE wf hfun flat.isStruct hstruct
    (Heap.block?_push_self h (E.serialized S h s))
    (by rw [length_serialized_exact hsize]; exact Nat.le_add_right 8 _)
    (by rw [structAllocSize_toNat hstruct]; exact hA₁) hin
  rw [← serializeDeserialize_eq hLE flat hfun hl hv hsize hA₀] at hrun
  simp only [headerIn_eq_iff wf hv hsize] at hrun
  exact ⟨h', obj, hrun, hreads⟩

theorem roundTrip_fault (hout : ¬ ∀ v ∈ E.roundTripWalk S h s,
      v.InBounds E (E.serialized S h s).cells) : ¬ E.AllOrNothing S h b s := by
  intro hall
  obtain ⟨r, h', hrun, -⟩ := hall
  have hstruct : E.layout.structSize S.packed S.elements < 2 ^ 64 :=
    Nat.lt_of_le_of_lt hv.holds s.fits
  rw [serializeDeserialize_eq hLE flat hfun hl hv hsize hA₀,
    getDeserializer_fault hLE flat.toWellFormed hfun flat.isStruct hstruct
      (Heap.block?_push_self h (E.serialized S h s))
      (by rw [length_serialized_exact hsize]; exact Nat.le_add_right 8 _)
      (by rw [structAllocSize_toNat hstruct]; exact hA₁) hout] at hrun
  cases hrun

/-- The pointer of an array that was not allocated is what `malloc` left there. -/
theorem allocated_of_allOrNothing (hall : E.AllOrNothing S h b s)
    (hin : ∀ v ∈ E.roundTripWalk S h s, v.InBounds E (E.serialized S h s).cells)
    (hmod : E.walkSize (E.serialized S h s).cells (E.roundTripWalk S h s) % 2 ^ 64 =
      E.exactSize S s) :
    ∀ v ∈ E.roundTripWalk S h s, v.field.isRepeated = true →
      v.allocated E (E.serialized S h s).cells = true := by
  obtain ⟨r, h', hrun, hres⟩ := hall
  obtain ⟨h₂, obj, hrun₂, hreads⟩ := roundTrip_reads hLE flat hfun hl hv hsize hA₀ hA₁ hin
  rw [if_pos hmod, hrun] at hrun₂
  obtain ⟨rfl, rfl⟩ := Prod.mk.inj (Except.ok.inj hrun₂)
  rcases hres with hnull | ⟨i, obj', hi, hobj', hcopy⟩
  · cases hnull
  · obtain rfl := (Ptr.loc.inj hi).1
    obtain rfl : obj = obj' := Option.some.inj (hreads.block.symm.trans hobj')
    intro v hv' hr
    by_contra hna
    rw [Bool.not_eq_true] at hna
    obtain ⟨d, arr, hp, -⟩ := hcopy.array v.field (mem_visits hv').1 hr
    rw [ptrAt, (hreads.loaded v hv').failed hr hna] at hp
    exact ptrAt_fresh E.alloc _ _ v.field d 0 hp

/-- With every array allocated the walk is the one of the struct that went in. -/
theorem allOrNothing_of_allocated (hal : ∀ v ∈ E.roundTripWalk S h s,
      v.field.isRepeated = true → v.allocated E (E.serialized S h s).cells = true) :
    E.AllOrNothing S h b s := by
  have wf := flat.toWellFormed
  have hhon : ∀ v ∈ E.roundTripWalk S h s, E.Honest S h s (E.serialized S h s).cells v :=
    honest_walk wf hv hsize _ _ hal
  have hwalk : E.walkSize (E.serialized S h s).cells (E.roundTripWalk S h s) = E.exactSize S s :=
    walkSize_honest wf hv hsize _ _ hhon
  obtain ⟨h₂, obj, hrun, hreads⟩ := roundTrip_reads hLE flat hfun hl hv hsize hA₀ hA₁
    fun v hv' => (hhon v hv').inBounds wf hv.holds (mem_visits hv').1 (mem_visits hv').2
  rw [hwalk, if_pos (Nat.mod_eq_of_lt hsize)] at hrun
  refine ⟨_, h₂, hrun, Or.inr ⟨_, obj, rfl, hreads.block, ?_⟩⟩
  exact (copy_of_reads wf flat.isStruct hv hsize (E.serialized S h s)
    (by rw [Heap.next_push]; omega) hhon hal hreads).of_push hv

theorem allOrNothing_of_rejected
    (hin : ∀ v ∈ E.roundTripWalk S h s, v.InBounds E (E.serialized S h s).cells)
    (hne : E.walkSize (E.serialized S h s).cells (E.roundTripWalk S h s) % 2 ^ 64 ≠
      E.exactSize S s) : E.AllOrNothing S h b s := by
  obtain ⟨h₂, obj, hrun, -⟩ := roundTrip_reads hLE flat hfun hl hv hsize hA₀ hA₁ hin
  exact ⟨_, h₂, hrun, Or.inl (if_neg hne)⟩

end Buffer

end Env

/-- For every pattern of allocation outcomes the round trip is all or nothing if and only if
    the buffer is allocated and either the struct is not, or every array is, or else the walk
    with the failed arrays skipped stays in the buffer and ends with another size than the
    header's. -/
theorem allOrNothing_iff {A : Allocator} {DL : DataLayout} {S : Struct}
    (hLE : DL.bigEndian = false) (flat : S.IsFlat) (hn : S.DistinctNames) {h : Heap} {b : Nat}
    {s : Block} (hl : h.block? b = some s) (hv : (Env.ofStruct A DL S).Valid S h s)
    (hsize : (Env.ofStruct A DL S).exactSize S s < 2 ^ 64) :
    (Env.ofStruct A DL S).AllOrNothing S h b s ↔
      A.succeeds h.calls ((Env.ofStruct A DL S).exactSize S s) = true ∧
      (A.succeeds (h.calls + 1) (DL.structSize S.packed S.elements) = false ∨
        (∀ v ∈ (Env.ofStruct A DL S).roundTripWalk S h s, v.field.isRepeated = true →
          v.allocated (Env.ofStruct A DL S) ((Env.ofStruct A DL S).serialized S h s).cells =
            true) ∨
        ((∀ v ∈ (Env.ofStruct A DL S).roundTripWalk S h s,
            v.InBounds (Env.ofStruct A DL S) ((Env.ofStruct A DL S).serialized S h s).cells) ∧
          (Env.ofStruct A DL S).walkSize ((Env.ofStruct A DL S).serialized S h s).cells
            ((Env.ofStruct A DL S).roundTripWalk S h s) % 2 ^ 64 ≠
            (Env.ofStruct A DL S).exactSize S s)) := by
  set E := Env.ofStruct A DL S with hE
  have wf := flat.toWellFormed
  have hfun : Resolves E S := resolves_ofStruct A DL hn
  cases hA₀ : A.succeeds h.calls (E.exactSize S s) with
  | false =>
    refine ⟨fun hall => absurd hall (not_allOrNothing_null wf hl hv hsize hA₀), ?_⟩
    intro hc
    cases hc.1
  | true =>
    cases hA₁ : A.succeeds (h.calls + 1) (DL.structSize S.packed S.elements) with
    | false =>
      exact ⟨fun _ => ⟨rfl, Or.inl rfl⟩, fun _ =>
        allOrNothing_of_unallocated hLE flat hfun hl hv hsize hA₀ hA₁⟩
    | true =>
      constructor
      · intro hall
        refine ⟨rfl, Or.inr ?_⟩
        by_cases hin : ∀ v ∈ E.roundTripWalk S h s, v.InBounds E (E.serialized S h s).cells
        · by_cases hmod : E.walkSize (E.serialized S h s).cells (E.roundTripWalk S h s) % 2 ^ 64 =
              E.exactSize S s
          · exact Or.inl
              (allocated_of_allOrNothing hLE flat hfun hl hv hsize hA₀ hA₁ hall hin hmod)
          · exact Or.inr ⟨hin, hmod⟩
        · exact absurd hall (roundTrip_fault hLE flat hfun hl hv hsize hA₀ hA₁ hin)
      · intro hcase
        rcases hcase.2 with hfail | hal | ⟨hin, hne⟩
        · cases hfail
        · exact allOrNothing_of_allocated hLE flat hfun hl hv hsize hA₀ hA₁ hal
        · exact allOrNothing_of_rejected hLE flat hfun hl hv hsize hA₀ hA₁ hin hne

/-- `malloc(0)` returns NULL. -/
def noEmptyBlocks : Allocator where
  succeeds _ n := decide (0 < n)
  fill _ _ := 0xa5
  addr b := BitVec.ofNat 64 (4096 * (b + 1))

/-- A `path` without `y` comes back with whatever `malloc` left in the pointer `y`. -/
theorem roundTrip_unassigned :
    ¬ (Env.ofStruct noEmptyBlocks .default pathStruct).AllOrNothing pathStruct pathHeap 0
      pathBlock := by
  set E := Env.ofStruct noEmptyBlocks .default pathStruct with hE
  -- the struct returned is block 3, and its `y` is neither NULL nor a block
  have hrun : ((E.serializeDeserialize pathStruct (.base 0) pathHeap).toOption.map fun p =>
      (p.1, (p.2.block? 3).map fun obj => E.ptrAt pathStruct obj pathY)) =
      some (.base 3, some (.wild (List.replicate 8 (.byte 0xa5)))) := by
    rw [hE]
    decide
  rintro ⟨r, h', hok, hres⟩
  rw [hok] at hrun
  simp only [Except.toOption, Option.map_some, Option.some.injEq, Prod.mk.injEq] at hrun
  obtain ⟨rfl, hptr⟩ := hrun
  rcases hres with hnull | ⟨i, obj, hi, hobj, hcopy⟩
  · cases hnull
  · obtain rfl := (Ptr.loc.inj hi).1
    rw [hobj, Option.map_some, Option.some.injEq] at hptr
    obtain ⟨d, arr, hp, -⟩ := hcopy.array pathY (by decide) rfl
    rw [hptr] at hp
    cases hp

theorem allOrNothing_iff_path :
    (Env.ofStruct .calloc .default pathStruct).AllOrNothing pathStruct pathHeap 0 pathBlock ↔
      Allocator.calloc.succeeds pathHeap.calls
        ((Env.ofStruct .calloc .default pathStruct).exactSize pathStruct pathBlock) = true ∧
      (Allocator.calloc.succeeds (pathHeap.calls + 1)
          (DataLayout.default.structSize pathStruct.packed pathStruct.elements) = false ∨
        (∀ v ∈ (Env.ofStruct .calloc .default pathStruct).roundTripWalk pathStruct pathHeap
            pathBlock, v.field.isRepeated = true →
          v.allocated (Env.ofStruct .calloc .default pathStruct)
            ((Env.ofStruct .calloc .default pathStruct).serialized pathStruct pathHeap
              pathBlock).cells = true) ∨
        ((∀ v ∈ (Env.ofStruct .calloc .default pathStruct).roundTripWalk pathStruct pathHeap
              pathBlock,
            v.InBounds (Env.ofStruct .calloc .default pathStruct)
              ((Env.ofStruct .calloc .default pathStruct).serialized pathStruct pathHeap
                pathBlock).cells) ∧
          (Env.ofStruct .calloc .default pathStruct).walkSize
            ((Env.ofStruct .calloc .default pathStruct).serialized pathStruct pathHeap
              pathBlock).cells
            ((Env.ofStruct .calloc .default pathStruct).roundTripWalk pathStruct pathHeap
              pathBlock) % 2 ^ 64 ≠
            (Env.ofStruct .calloc .default pathStruct).exactSize pathStruct pathBlock)) :=
  allOrNothing_iff rfl pathStruct_isFlat pathStruct_distinctNames rfl pathBlock_valid (by decide)

end Tyr
