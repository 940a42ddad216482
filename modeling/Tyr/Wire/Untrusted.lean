import Tyr.Wire.RoundTrip

/-
  `deserialize_S` on bytes from anywhere.

  The header is compared with the recomputed size only after every field has been read and
  copied, and the recomputed size is taken modulo `2 ^ 64`. `Guarded` is what the caller may
  hope for. `deserializer_guarded_iff`: the buffers on which it holds are those whose walk
  stays in bounds and whose exact size does not wrap around to the header.
-/

namespace Tyr

open Prog Env

namespace Env

variable (E : Env) (S : Struct)

/-- `deserialize_S` reads nothing outside the buffer at `a`, and the struct it returns, if any,
    has exact size `n` and arrays as long as their counts say. -/
def Guarded (h : Heap) (a n : Nat) : Prop :=
  ∃ r h', E.getDeserializer S (.base a) h = .ok (r, h') ∧
    (r ≠ .null → ∃ s obj, r = .base s ∧ h'.block? s = some obj ∧ E.exactSize S obj = n ∧
      ∀ f ∈ S.fields, f.isRepeated = true → ∃ d arr, E.ptrAt S obj f = .base d ∧
        h'.block? d = some arr ∧ E.exactFieldSize S obj f ≤ arr.cells.length)

variable {E S} {buf : List Cell}

/-- Sizes modulo `2 ^ 64` and exact sizes add up to the same modulo `2 ^ 64`. -/
theorem walkSize_eq_exact (vs : List Visit) :
    BitVec.ofNat 64 (E.walkSize buf vs) = BitVec.ofNat 64 (E.exactWalkSize buf vs) := by
  have hv : ∀ v : Visit, BitVec.ofNat 64 (v.size E buf) = BitVec.ofNat 64 (v.exactSize E buf) := by
    intro v
    unfold Visit.size Visit.exactSize
    split
    · rw [BitVec.ofNat_add, BitVec.ofNat_add, BitVec.ofNat_mul, BitVec.ofNat_toNat,
        BitVec.ofNat_toNat, BitVec.setWidth_eq, BitVec.setWidth_eq, Visit.arraySize, sizeFor]
    · rfl
  have hsum : BitVec.ofNat 64 (vs.map (Visit.size E buf)).sum =
      BitVec.ofNat 64 (vs.map (Visit.exactSize E buf)).sum := by
    induction vs with
    | nil => rfl
    | cons v vs ih =>
      rw [List.map_cons, List.map_cons, List.sum_cons, List.sum_cons, BitVec.ofNat_add,
        BitVec.ofNat_add, ih, hv]
  rw [walkSize, exactWalkSize, BitVec.ofNat_add, BitVec.ofNat_add, hsum]

/-- The exact size of a loaded struct is that of the walk. -/
theorem exactSize_visits (wf : S.WellFormed) (obj : Block) (off : I64) (call block : Nat)
    (hcnt : ∀ v ∈ E.visits buf S.fields off call block, v.field.isRepeated = true →
      E.countAt S obj (S.countOf v.field) = v.count E buf) :
    E.exactSize S obj = E.exactWalkSize buf (E.visits buf S.fields off call block) := by
  have hcount : ∀ f ∈ S.fields, f.isCount = true → E.exactFieldSize S obj f = 8 := by
    intro f hf hc
    obtain ⟨ht, -, hr, -⟩ := wf.count_spec hf hc
    simp [exactFieldSize, hr, ht]
  rw [exactSize, exactWalkSize, ← sum_wire wf hcount,
    sum_visits (E := E) (fun f => f.onWire (E.exactFieldSize S obj f))
      (fun f hc => by simp [Field.onWire, hc]) buf S.fields off call block]
  congr 2
  refine List.map_congr_left fun v hv => ?_
  rw [Visit.exactSize, Field.onWire, if_neg (by simp [(mem_visits hv).2])]
  cases hr : v.field.isRepeated with
  | false => simp only [Bool.false_eq_true, if_false, exactFieldSize, hr]
  | true => simp only [if_true, exactFieldSize, hr, hcnt v hv hr]

theorem exactSize_le_walk (E : Env) (buf : List Cell) {vs : List Visit} {v : Visit} (hv : v ∈ vs) :
    v.exactSize E buf ≤ E.exactWalkSize buf vs :=
  Nat.le_trans (List.le_sum_of_mem (List.mem_map_of_mem hv)) (Nat.le_add_left _ 8)

/-- A product that does not wrap. -/
theorem arraySize_toNat {v : Visit} (hr : v.field.isRepeated = true)
    (hlt : v.exactSize E buf < 2 ^ 64) :
    (v.arraySize E buf).toNat = E.layout.allocSize v.field.elem * (v.count E buf).toNat := by
  simp only [Visit.exactSize, hr, if_true] at hlt
  exact sizeFor_toNat (by rw [exactSizeFor]; omega)

end Env

/-- With every allocation succeeding, `deserialize_S` handles a buffer whose header is its
    length properly if and only if every field it reads, at offsets computed modulo `2 ^ 64`,
    lies in the buffer, and the exact size announced by the counts does not reach `2 ^ 64`
    unless it disagrees with the header even modulo `2 ^ 64`. -/
theorem deserializer_guarded_iff {A : Allocator} {DL : DataLayout} {S : Struct}
    (hLE : DL.bigEndian = false) (flat : S.IsFlat) (hn : S.DistinctNames)
    (hA : ∀ t n, A.succeeds t n = true) (hstruct : DL.structSize S.packed S.elements < 2 ^ 64)
    {h : Heap} {a : Nat} {buf : Block} (ha : h.block? a = some buf) (hn8 : 8 ≤ buf.cells.length)
    (hhead : ((Env.ofStruct A DL S).headerIn buf.cells).toNat = buf.cells.length) :
    (Env.ofStruct A DL S).Guarded S h a buf.cells.length ↔
      (∀ v ∈ (Env.ofStruct A DL S).walk S buf.cells h,
        v.InBounds (Env.ofStruct A DL S) buf.cells) ∧
      ((Env.ofStruct A DL S).exactWalkSize buf.cells
          ((Env.ofStruct A DL S).walk S buf.cells h) % 2 ^ 64 = buf.cells.length →
        (Env.ofStruct A DL S).exactWalkSize buf.cells
          ((Env.ofStruct A DL S).walk S buf.cells h) < 2 ^ 64) := by
  set E := Env.ofStruct A DL S with hE
  have wf := flat.toWellFormed
  have hfun := resolves_ofStruct A DL hn
  set vs := E.walk S buf.cells h with hvs
  -- the header agrees with the recomputed size exactly when the exact size does modulo 2 ^ 64
  have haccept : E.headerIn buf.cells = BitVec.ofNat 64 (E.walkSize buf.cells vs) ↔
      E.exactWalkSize buf.cells vs % 2 ^ 64 = buf.cells.length := by
    rw [walkSize_eq_exact, ← BitVec.toNat_inj, hhead, BitVec.toNat_ofNat, eq_comm]
  constructor
  · rintro ⟨r, h', hrun, hcons⟩
    by_cases hin : ∀ v ∈ vs, v.InBounds E buf.cells
    · refine ⟨hin, fun hmod => ?_⟩
      obtain ⟨h₂, obj, hrun₂, -, hreads⟩ :=
        getDeserializer_ok hLE wf hfun flat.isStruct hstruct ha hn8 (hA _ _) hin
      rw [if_pos (haccept.mpr hmod), hrun] at hrun₂
      obtain ⟨rfl, rfl⟩ := Prod.mk.inj (Except.ok.inj hrun₂)
      obtain ⟨s, obj', hs, hobj', hsize, -⟩ := hcons (by simp)
      obtain rfl := (Ptr.loc.inj hs).1
      obtain rfl : obj = obj' := Option.some.inj (hreads.block.symm.trans hobj')
      rw [exactSize_visits wf _ _ _ _ fun v hv hr => (hreads.loaded v hv).count hr] at hsize
      rw [hvs, walk, hsize]
      exact buf.fits
    · rw [getDeserializer_fault hLE wf hfun flat.isStruct hstruct ha hn8 (hA _ _) hin] at hrun
      cases hrun
  · rintro ⟨hin, hwrap⟩
    obtain ⟨h₂, obj, hrun, -, hreads⟩ :=
      getDeserializer_ok hLE wf hfun flat.isStruct hstruct ha hn8 (hA _ _) hin
    refine ⟨_, h₂, hrun, fun hr => ?_⟩
    split at hr
    · next hacc =>
      have hmod := haccept.mp hacc
      have hlt := hwrap hmod
      have hobj := exactSize_visits wf obj _ _ _ fun v hv hr =>
        (hreads.loaded v hv).count hr
      refine ⟨_, obj, if_pos hacc, hreads.block, ?_, fun f hf hrep => ?_⟩
      · rw [hobj, ← hmod]
        exact (Nat.mod_eq_of_lt hlt).symm
      · obtain ⟨v, hv, rfl⟩ := exists_visit E buf.cells 8 (h.calls + 1) (h.next + 1) hf
          (wf.array_spec hf hrep).2.2.2.1
        obtain ⟨hp, arr, harr, hcells⟩ := (hreads.loaded v hv).array hrep (hA _ _)
        have hvlt := Nat.lt_of_le_of_lt (exactSize_le_walk E buf.cells hv) hlt
        have hsz := arraySize_toNat hrep hvlt
        refine ⟨v.block, arr, hp, harr, ?_⟩
        rw [exactFieldSize, if_pos hrep, (hreads.loaded v hv).count hrep, ← hsz, hcells]
        by_cases hz : v.arraySize E buf.cells = 0
        · rw [hz]
          exact Nat.zero_le _
        · have hb := hin v hv
          rw [Visit.InBounds, if_pos hrep] at hb
          rw [length_slice (hb.2 (hA _ _) hz)]
    · exact absurd rfl hr

/-- A buffer of 28 bytes for `path` that announces one `y` and ends there. -/
def shortBuffer : Heap where
  blocks := [some ⟨encodeInt false 8 28 ++ encodeInt false 4 7 ++ encodeInt false 8 0 ++
    encodeInt false 8 1, by decide⟩]
  calls := 0

theorem deserializer_overread :
    ¬ (Env.ofStruct .calloc .default pathStruct).Guarded pathStruct shortBuffer 0 28 := by
  have hrun : (Env.ofStruct .calloc .default pathStruct).getDeserializer pathStruct (.base 0)
      shortBuffer = .error .access := by rfl
  rintro ⟨r, h', hok, -⟩
  rw [hrun] at hok
  cases hok

/-- The same struct with no `y`. -/
def emptyBuffer : Block where
  cells := encodeInt false 8 28 ++ encodeInt false 4 7 ++ encodeInt false 8 0 ++ encodeInt false 8 0
  fits := by decide

theorem deserializer_guarded_iff_path :
    (Env.ofStruct .calloc .default pathStruct).Guarded pathStruct ⟨[some emptyBuffer], 0⟩ 0 28 ↔
      (∀ v ∈ (Env.ofStruct .calloc .default pathStruct).walk pathStruct emptyBuffer.cells
          ⟨[some emptyBuffer], 0⟩,
        v.InBounds (Env.ofStruct .calloc .default pathStruct) emptyBuffer.cells) ∧
      ((Env.ofStruct .calloc .default pathStruct).exactWalkSize emptyBuffer.cells
          ((Env.ofStruct .calloc .default pathStruct).walk pathStruct emptyBuffer.cells
            ⟨[some emptyBuffer], 0⟩) % 2 ^ 64 = 28 →
        (Env.ofStruct .calloc .default pathStruct).exactWalkSize emptyBuffer.cells
          ((Env.ofStruct .calloc .default pathStruct).walk pathStruct emptyBuffer.cells
            ⟨[some emptyBuffer], 0⟩) < 2 ^ 64) :=
  deserializer_guarded_iff rfl pathStruct_isFlat pathStruct_distinctNames (fun _ _ => rfl)
    (by decide) (a := 0) (h := ⟨[some emptyBuffer], 0⟩) rfl (by decide) (by decide)

end Tyr
