import Tyr.Wire.Determined
import Tyr.Wire.Untrusted

/-
  `serialize_S` undoes `deserialize_S`: the round trip the other way.

  A buffer from anywhere, whose header is its length and which `deserialize_S` accepts, is
  what `serialize_S` makes of the struct that was read from it. The step is one visit
  (`honest_of_loaded`): the bytes it consumed are the bytes the field's serializer writes for
  what the visit left in the struct. `wired_of_visits` puts the visits one after the other, and
  in a dense struct nothing else is in the buffer (`cells_of_walk`, `serialized_cells`).

  A scalar with padding after it breaks this, since the padding is not read. The types here
  have none unless a layout aligns one beyond its size: `reserializes`,
  `padding_not_given_back`.
-/

namespace Tyr

open Prog

/-! ## Types and layouts without padding -/

/-- An integer of 8, 16, 32 or 64 bits, a float or a double. -/
def Ty.IsWhole : Ty → Prop
  | int n => n = 8 ∨ n = 16 ∨ n = 32 ∨ n = 64
  | float => True
  | double => True
  | _ => False

instance : DecidablePred Ty.IsWhole
  | .int n => inferInstanceAs (Decidable (n = 8 ∨ n = 16 ∨ n = 32 ∨ n = 64))
  | .float => inferInstanceAs (Decidable True)
  | .double => inferInstanceAs (Decidable True)
  | .struct _ _ => inferInstanceAs (Decidable False)
  | .ptr _ => inferInstanceAs (Decidable False)

/-- None of these types is aligned beyond its size. -/
def DataLayout.Natural (DL : DataLayout) : Prop :=
  ∀ t : Ty, t.IsWhole → DL.getABITypeAlignment t ≤ DL.storeSize t

/-- The fields, or their elements, have such types. -/
def Struct.IsWhole (S : Struct) : Prop :=
  ∀ f ∈ S.fields, if f.isRepeated then f.elem.IsWhole else f.type.IsWhole

instance (S : Struct) : Decidable S.IsWhole := by
  unfold Struct.IsWhole
  infer_instance

namespace Ty.IsWhole

variable {t : Ty}

theorem not_pointer (ht : t.IsWhole) : t.isPointerTy = false := by
  cases t with
  | ptr t => exact ht.elim
  | int n => rfl
  | float => rfl
  | double => rfl
  | struct i n => rfl

theorem bits (ht : t.IsWhole) (DL : DataLayout) : ∃ k, DL.getTypeSizeInBits t = 8 * 2 ^ k := by
  cases t with
  | int n =>
    rcases ht with rfl | rfl | rfl | rfl
    · exact ⟨0, rfl⟩
    · exact ⟨1, rfl⟩
    · exact ⟨2, rfl⟩
    · exact ⟨3, rfl⟩
  | float => exact ⟨2, rfl⟩
  | double => exact ⟨3, rfl⟩
  | ptr t => exact ht.elim
  | struct i n => exact ht.elim

/-- The type takes whole bytes, and a power of two of them. -/
theorem size (ht : t.IsWhole) (DL : DataLayout) :
    DL.getTypeSizeInBits t = 8 * DL.storeSize t ∧ (DL.storeSize t).isPowerOfTwo := by
  obtain ⟨k, hk⟩ := ht.bits DL
  have hsize : DL.storeSize t = 2 ^ k := by
    unfold DataLayout.storeSize
    rw [hk]
    omega
  exact ⟨by rw [hk, hsize], k, hsize⟩

theorem storeSize_eq {DL : DataLayout} (hnat : DL.Natural) (ht : t.IsWhole) :
    DL.storeSize t = DL.allocSize t := by
  have ha := DL.getABITypeAlignment_pow2 t
  unfold DataLayout.allocSize
  exact (alignTo_of_dvd (Nat.pos_of_isPowerOfTwo ha)
    (dvd_of_isPowerOfTwo ha (ht.size DL).2 (hnat t ht))).symm

end Ty.IsWhole

theorem Struct.IsWhole.dense {S : Struct} {DL : DataLayout} (hwhole : S.IsWhole)
    (hnat : DL.Natural) : Dense DL S where
  field f hf hr := by
    have ht := hwhole f hf
    rw [if_neg (by simp [hr])] at ht
    exact ht.storeSize_eq hnat
  element f hf hr := by
    have ht := hwhole f hf
    rw [if_pos hr] at ht
    exact ⟨ht.not_pointer, ht.storeSize_eq hnat ▸ (ht.size DL).1⟩

/-! ## Plain bytes -/

/-- Cells that hold no part of a pointer. -/
def Plain (cs : List Cell) : Prop := ∃ bs : List Byte, cs = bs.map .byte

theorem Plain.slice {cs : List Cell} (hp : Plain cs) (o n : Nat) : Plain (slice cs o n) := by
  obtain ⟨bs, rfl⟩ := hp
  exact ⟨Tyr.slice bs o n, by rw [slice_map]⟩

theorem encodeInt_decodeInt {ptrBytes : Nat → I64 → List Byte} {be : Bool} {cs : List Cell}
    (hp : Plain cs) : encodeInt be cs.length (decodeInt ptrBytes be cs) = cs := by
  obtain ⟨bs, rfl⟩ := hp
  have hlen : (bs.map Cell.byte).length = (inOrder be bs).length := by simp
  rw [decodeInt, map_toByte_byte, encodeInt, hlen, toLE_ofLE, inOrder_inOrder]

namespace Env

variable {E : Env} {S : Struct} {cs : List Cell}

theorem encodeI64_decodeI64 (hp : Plain cs) (hlen : cs.length = 8) :
    E.encodeI64 (E.decodeI64 cs) = cs := by
  have hlt : decodeInt E.ptrBytes E.layout.bigEndian cs < 2 ^ 64 := by
    unfold decodeInt
    refine Nat.lt_of_lt_of_le (ofLE_lt _) ?_
    rw [length_inOrder, List.length_map, hlen]
    norm_num
  unfold encodeI64 decodeI64
  rw [BitVec.toNat_ofNat, Nat.mod_eq_of_lt hlt, ← hlen]
  exact encodeInt_decodeInt hp

theorem encode_decode {t : Ty} (ht : t.IsWhole) (hp : Plain cs)
    (hlen : cs.length = E.layout.storeSize t) : E.encode t (E.decode t cs) = cs := by
  have hbits := (ht.size E.layout).1
  have hlt : decodeInt E.ptrBytes E.layout.bigEndian cs < 2 ^ E.layout.getTypeSizeInBits t := by
    unfold decodeInt
    refine Nat.lt_of_lt_of_le (ofLE_lt _) ?_
    rw [length_inOrder, List.length_map, hlen, hbits, Nat.pow_mul]
  unfold decode
  rw [if_neg (by rw [ht.not_pointer]; decide), encode, Nat.mod_mod, Nat.mod_eq_of_lt hlt, ← hlen]
  exact encodeInt_decodeInt hp

/-! ## One visit -/

section Visit

variable {h h' : Heap} {buf : List Cell} {obj obj₀ : Block} {v : Visit}

/-- A visit of an array consumes the count and all elements. -/
theorem array_fits (hr : v.field.isRepeated = true) (hin : v.InBounds E buf)
    (hal : v.allocated E buf = true) :
    v.off.toNat + 8 + (v.arraySize E buf).toNat ≤ buf.length := by
  rw [Visit.InBounds, if_pos hr] at hin
  by_cases hz : v.arraySize E buf = 0
  · rw [hz]
    exact hin.1
  · exact hin.2 hal hz

/-- What a visit has read is what the serializer of its field writes. -/
theorem honest_of_loaded (hwhole : S.IsWhole) (hd : Dense E.layout S) (hb : E.Holds S obj)
    (hp : Plain buf) (hf : v.field ∈ S.fields) (hc : v.field.isCount = false)
    (wf : S.WellFormed) (hin : v.InBounds E buf) (hal : v.allocated E buf = true)
    (hv : E.Loaded S buf h' obj₀ obj v) : E.Honest S h' obj buf v := by
  cases hr : v.field.isRepeated with
  | false =>
    rw [Visit.InBounds, if_neg (by simp [hr])] at hin
    have ht := hwhole _ hf
    rw [if_neg (by simp [hr])] at ht
    have hlen := length_slice (l := buf) hin
    have hslot := hv.scalar hr
    rw [encode_decode ht (hp.slice _ _) hlen] at hslot
    have hwire : E.wireBytes S h' obj v.field =
        slice buf v.off.toNat (E.layout.storeSize v.field.type) := by
      have hint : E.decode v.field.type (E.slot S obj v.field) =
          .int (E.intAt S obj v.field) := by
        unfold intAt decode
        rw [if_neg (by rw [ht.not_pointer]; decide)]
        rfl
      rw [wireBytes, if_neg (by simp [hr]), ← hint, hslot, encode_decode ht (hp.slice _ _) hlen]
    refine ⟨by rw [hwire, hlen], ?_⟩
    rw [wireNat, Field.onWire, if_neg (by simp [hc]), if_neg (by simp [hr]),
      toNat_allocSize wf hb hf hr, ← hd.field _ hf hr]
    exact hin
  | true =>
    have hfit := array_fits hr hin hal
    obtain ⟨hptr, arr, harr, hcells⟩ := hv.array hr hal
    have hsize : E.fieldSizeAt S obj v.field = v.arraySize E buf := by
      rw [fieldSizeAt_array hr, hv.count hr]
      rfl
    have hlen := length_slice (l := buf) hfit
    have hbytes : E.arrayBytes S h' obj v.field =
        slice buf (v.off.toNat + 8) (v.arraySize E buf).toNat := by
      have hread : h'.read (.base v.block) (v.arraySize E buf).toNat =
          some (slice arr.cells 0 (v.arraySize E buf).toNat) := by
        refine Heap.read_loc harr ?_
        rw [hcells, hlen]
        exact Nat.le_of_eq (Nat.zero_add _)
      rw [arrayBytes, hsize, hptr, Heap.bytesAt, hread, Option.getD_some, hcells,
        slice_slice (by omega), Nat.add_zero]
    have hwire : E.wireBytes S h' obj v.field =
        slice buf v.off.toNat (8 + (v.arraySize E buf).toNat) := by
      rw [wireBytes, if_pos hr, hv.count hr, Visit.count,
        encodeI64_decodeI64 (hp.slice _ _) (length_slice (by omega)), hbytes, slice_append]
    refine ⟨by rw [hwire, length_slice (by omega)], ?_⟩
    rw [wireNat, Field.onWire, if_neg (by simp [hc]), if_pos hr, hsize]
    omega

/-- Visits that found what the serializers write lie one after the other in the buffer. -/
theorem wired_of_visits (hlt : buf.length < 2 ^ 64) :
    ∀ (fs : List Field) (off : I64) (call block : Nat),
      (∀ v ∈ E.visits buf fs off call block, v.field.isRepeated = true →
        v.allocated E buf = true) →
      (∀ v ∈ E.visits buf fs off call block, E.Honest S h obj buf v) →
      E.Wired S h obj buf fs off.toNat
  | [], _, _, _, _, _ => trivial
  | f :: fs, off, call, block, hal, hhon => by
    rw [visits] at hal hhon
    rw [Wired]
    cases hc : f.isCount with
    | true =>
      simp only [hc, if_true] at hal hhon ⊢
      exact wired_of_visits hlt fs off call block hal hhon
    | false =>
      simp only [hc, Bool.false_eq_true, if_false] at hal hhon ⊢
      have hh := hhon _ List.mem_cons_self
      have hadv : (Visit.mk f off call block).advance E buf = E.wireSize S obj f := by
        rw [Visit.advance, wireSize]
        cases hr : f.isRepeated with
        | true => simp only [if_true, hal _ List.mem_cons_self hr, hh.arraySize hr]
        | false => simp only [Bool.false_eq_true, if_false, fieldSizeAt, hr]
      have hfits : off.toNat + E.wireNat S obj f ≤ buf.length := hh.fits
      have hidx := toNat_add_wireSize (E := E) (S := S) obj hc off (by omega)
      refine ⟨hh.wire, ?_⟩
      rw [← hidx]
      rw [hadv] at hal hhon
      exact wired_of_visits hlt fs _ _ _ (fun v hv => hal v (List.mem_cons_of_mem _ hv))
        fun v hv => hhon v (List.mem_cons_of_mem _ hv)

end Visit

/-! ## The whole buffer -/

variable (E S) in
/-- Plain bytes, as many as the header says, whose counts add up to a size below `2 ^ 64`. -/
structure Sized (h : Heap) (buf : Block) : Prop where
  plain : Plain buf.cells
  header : (E.headerIn buf.cells).toNat = buf.cells.length
  noWrap : E.exactWalkSize buf.cells (E.walk S buf.cells h) < 2 ^ 64

variable (E S) in
/-- What `serialize_S` makes of whatever `deserialize_S` returns for the buffer at `a`. -/
def GivesBack (h : Heap) (a : Nat) (buf : Block) : Prop :=
  ∀ r h', E.getDeserializer S (.base a) h = .ok (r, h') → r ≠ .null →
    ∃ out, E.getSerializer S r h' = .ok (.base h'.next, h'.push out) ∧ out.cells = buf.cells

section Run

variable {h h' : Heap} {a : Nat} {buf : Block} {r : Ptr} {obj obj₀ : Block}

/-- A struct whose arrays were all read is valid. -/
theorem valid_of_reads (wf : S.WellFormed) (hb : E.Holds S obj)
    (hA : ∀ t n, E.alloc.succeeds t n = true)
    (hlt : E.exactWalkSize buf.cells (E.walk S buf.cells h) < 2 ^ 64)
    (hin : ∀ v ∈ E.walk S buf.cells h, v.InBounds E buf.cells)
    (hv : ∀ v ∈ E.walk S buf.cells h, E.Loaded S buf.cells h' obj₀ obj v) :
    E.Valid S h' obj := by
  refine ⟨hb, fun f hf hr => Or.inr ?_⟩
  obtain ⟨v, hvm, rfl⟩ := exists_visit E buf.cells 8 (h.calls + 1) (h.next + 1) hf
    (wf.array_spec hf hr).2.2.2.1
  obtain ⟨hptr, arr, harr, hcells⟩ := (hv v hvm).array hr (hA _ _)
  have hsize := arraySize_toNat hr
    (Nat.lt_of_le_of_lt (exactSize_le_walk E buf.cells hvm) hlt)
  have hfield : E.exactFieldSize S obj v.field = (v.arraySize E buf.cells).toNat := by
    rw [exactFieldSize, if_pos hr, (hv v hvm).count hr, hsize]
  have hread := Heap.read_loc (o := 0) (n := (v.arraySize E buf.cells).toNat) harr (by
    rw [hcells, length_slice (array_fits hr (hin v hvm) (hA _ _))]
    exact Nat.le_of_eq (Nat.zero_add _))
  rw [hptr, hfield, hread]
  rfl

/-- A buffer that lies as a dense struct's serializers would write it. -/
theorem cells_of_wired (wf : S.WellFormed) (hd : Dense E.layout S) (hb : E.Holds S obj)
    (hread : E.ArraysReadable S h obj) (hw : E.Wired S h obj buf.cells S.fields 8)
    (hlen : buf.cells.length = E.serializedSize S obj)
    (hhead : slice buf.cells 0 8 = E.encodeI64 (BitVec.ofNat 64 (E.serializedSize S obj))) :
    buf.cells = E.encodeI64 (BitVec.ofNat 64 (E.serializedSize S obj)) ++
      S.fields.flatMap fun f => if f.isCount then [] else E.wireBytes S h obj f := by
  have hfields := hw.slice_eq fun f hf hc => by
    rw [length_wireBytes hread hf, wireNat, Field.onWire, hc]
    cases hr : f.isRepeated with
    | true => rfl
    | false =>
      rw [toNat_allocSize wf hb hf hr]
      exact hd.field f hf hr
  have hsum : 8 + E.sumWire S obj S.fields = buf.cells.length := by
    rw [hlen, sum_wireSize wf]
    rfl
  rw [← hhead, ← hfields]
  conv_lhs => rw [← slice_self buf.cells, ← hsum, ← slice_append]

/-- What an accepting run of `deserialize_S` has read. -/
theorem reads_of_accepted (hLE : E.layout.bigEndian = false) (flat : S.IsFlat)
    (hfun : Resolves E S) (hA : ∀ t n, E.alloc.succeeds t n = true)
    (hstruct : E.layout.structSize S.packed S.elements < 2 ^ 64) (ha : h.block? a = some buf)
    (hrun : E.getDeserializer S (.base a) h = .ok (r, h')) (hr : r ≠ .null) :
    8 ≤ buf.cells.length ∧ (∀ v ∈ E.walk S buf.cells h, v.InBounds E buf.cells) ∧
      E.headerIn buf.cells =
        BitVec.ofNat 64 (E.walkSize buf.cells (E.walk S buf.cells h)) ∧
      ∃ obj, r = .base h.next ∧ h'.block? h.next = some obj ∧ E.Holds S obj ∧
        ∀ v ∈ E.walk S buf.cells h, E.Loaded S buf.cells h'
          (E.alloc.fresh h.calls (E.getStructAllocSize S)) obj v := by
  have wf := flat.toWellFormed
  have hn : 8 ≤ buf.cells.length := by
    by_contra hlt
    have hzero : (0 : I64).toNat = 0 := rfl
    have hfault : E.loadI64 (.base a) h = .error .access :=
      loadI64_fault ha (by rw [hzero]; omega)
    rw [getDeserializer, bind_of_error hfault] at hrun
    cases hrun
  have hin : ∀ v ∈ E.walk S buf.cells h, v.InBounds E buf.cells := by
    by_contra hno
    rw [getDeserializer_fault hLE wf hfun flat.isStruct hstruct ha hn (hA _ _) hno] at hrun
    cases hrun
  obtain ⟨h₂, obj, hrun₂, hb, hreads⟩ :=
    getDeserializer_ok hLE wf hfun flat.isStruct hstruct ha hn (hA _ _) hin
  rw [hrun] at hrun₂
  obtain ⟨hret, rfl⟩ := Prod.mk.inj (Except.ok.inj hrun₂)
  have hcheck : E.headerIn buf.cells =
      BitVec.ofNat 64 (E.walkSize buf.cells (E.walk S buf.cells h)) := by
    by_contra hne
    rw [if_neg hne] at hret
    exact hr hret
  rw [if_pos hcheck] at hret
  exact ⟨hn, hin, hcheck, obj, hret, hreads.block, hb, hreads.loaded⟩

/-- The struct read from an accepted buffer, with the buffer as its serialized form. -/
theorem accepted_cells (hLE : E.layout.bigEndian = false) (flat : S.IsFlat) (hfun : Resolves E S)
    (hA : ∀ t n, E.alloc.succeeds t n = true) (hwhole : S.IsWhole) (hd : Dense E.layout S)
    (hstruct : E.layout.structSize S.packed S.elements < 2 ^ 64) (ha : h.block? a = some buf)
    (hsz : E.Sized S h buf) (hrun : E.getDeserializer S (.base a) h = .ok (r, h'))
    (hr : r ≠ .null) :
    ∃ obj, r = .base h.next ∧ h'.block? h.next = some obj ∧ E.Valid S h' obj ∧
      E.exactSize S obj < 2 ^ 64 ∧
      buf.cells = E.encodeI64 (BitVec.ofNat 64 (E.serializedSize S obj)) ++
        S.fields.flatMap fun f => if f.isCount then [] else E.wireBytes S h' obj f := by
  have wf := flat.toWellFormed
  obtain ⟨hn, hin, hcheck, obj, hret, hobj, hb, hv⟩ :=
    reads_of_accepted hLE flat hfun hA hstruct ha hrun hr
  -- the exact size of the struct is the length of the buffer
  have hexact : E.exactSize S obj = E.exactWalkSize buf.cells (E.walk S buf.cells h) :=
    exactSize_visits wf obj _ _ _ fun v hvm hrep => (hv v hvm).count hrep
  have hlt : E.exactSize S obj < 2 ^ 64 := by
    rw [hexact]
    exact hsz.noWrap
  have hlen : buf.cells.length = E.serializedSize S obj := by
    rw [serializedSize_eq hlt, ← hsz.header, hcheck, walkSize_eq_exact, ← hexact,
      BitVec.toNat_ofNat]
    exact Nat.mod_eq_of_lt hlt
  have hhead : slice buf.cells 0 8 = E.encodeI64 (BitVec.ofNat 64 (E.serializedSize S obj)) := by
    rw [← encodeI64_decodeI64 (hsz.plain.slice 0 8) (length_slice hn), serializedSize_eq hlt,
      hexact, ← walkSize_eq_exact, ← hcheck]
    rfl
  have hvalid := valid_of_reads wf hb hA hsz.noWrap hin hv
  have hhon : ∀ v ∈ E.walk S buf.cells h, E.Honest S h' obj buf.cells v := fun v hvm =>
    honest_of_loaded hwhole hd hb hsz.plain (mem_visits hvm).1 (mem_visits hvm).2 wf (hin v hvm)
      (hA _ _) (hv v hvm)
  have hwired := wired_of_visits buf.fits S.fields 8 (h.calls + 1) (h.next + 1)
    (fun _ _ _ => hA _ _) hhon
  exact ⟨obj, hret, hobj, hvalid, hlt,
    cells_of_wired wf hd hb (hvalid.readable hlt) hwired hlen hhead⟩

theorem givesBack (hLE : E.layout.bigEndian = false) (flat : S.IsFlat) (hfun : Resolves E S)
    (hA : ∀ t n, E.alloc.succeeds t n = true) (hwhole : S.IsWhole) (hd : Dense E.layout S)
    (hstruct : E.layout.structSize S.packed S.elements < 2 ^ 64) (ha : h.block? a = some buf)
    (hsz : E.Sized S h buf) : E.GivesBack S h a buf := by
  intro r h' hrun hr
  obtain ⟨obj, rfl, hobj, hv, hlt, hcells⟩ :=
    accepted_cells hLE flat hfun hA hwhole hd hstruct ha hsz hrun hr
  have wf := flat.toWellFormed
  refine ⟨_, getSerializer_ok hLE wf hfun flat.isStruct hobj hv hlt (hA _ _), ?_⟩
  rw [serialized_cells wf hv.holds (hv.readable hlt) (by rwa [serializedSize_eq hlt]) hd]
  exact hcells.symm

end Run

/-! ## Equal structs -/

variable (E S) in
/-- Equal scalars, counts among them, and arrays of equal bytes. -/
structure SameContents (h₁ h₂ : Heap) (s₁ s₂ : Block) : Prop where
  field : ∀ f ∈ S.fields, f.isRepeated = false → E.intAt S s₁ f = E.intAt S s₂ f
  array : ∀ f ∈ S.fields, f.isRepeated = true →
    E.elementsAt S h₁ s₁ f = E.elementsAt S h₂ s₂ f

variable (E S) in
/-- An accepted buffer and the struct that was read from it. -/
def DecodesTo (h : Heap) (buf : Block) (h' : Heap) (s : Block) : Prop :=
  ∃ a b, h.block? a = some buf ∧ E.Sized S h buf ∧
    E.getDeserializer S (.base a) h = .ok (.base b, h') ∧ h'.block? b = some s

section Same

variable {h₁ h₂ : Heap} {s₁ s₂ : Block} {f : Field}

theorem SameContents.count (hs : E.SameContents S h₁ h₂ s₁ s₂) (hf : f ∈ S.fields)
    (ht : f.type = .int 64) (hr : f.isRepeated = false) : E.countAt S s₁ f = E.countAt S s₂ f := by
  have h := hs.field f hf hr
  rw [intAt_count _ ht, intAt_count _ ht] at h
  exact BitVec.eq_of_toNat_eq h

theorem SameContents.exactSize (wf : S.WellFormed) (hs : E.SameContents S h₁ h₂ s₁ s₂) :
    E.exactSize S s₁ = E.exactSize S s₂ := by
  unfold Env.exactSize
  congr 2
  refine List.map_congr_left fun f hf => ?_
  unfold exactFieldSize
  cases hr : f.isRepeated with
  | true =>
    have hc := wf.countOf_mem hf hr
    have hcr := (wf.count_spec hc (wf.array_spec hf hr).2.2.2.2.2.2.1).2.2.1
    rw [hs.count hc (wf.countOf_type hf hr) hcr]
  | false => rfl

theorem SameContents.wireBytes (wf : S.WellFormed) (hs : E.SameContents S h₁ h₂ s₁ s₂)
    (hlt₁ : E.exactSize S s₁ < 2 ^ 64) (hlt₂ : E.exactSize S s₂ < 2 ^ 64) (hf : f ∈ S.fields) :
    E.wireBytes S h₁ s₁ f = E.wireBytes S h₂ s₂ f := by
  unfold Env.wireBytes
  cases hr : f.isRepeated with
  | true =>
    have hc := wf.countOf_mem hf hr
    have hcr := (wf.count_spec hc (wf.array_spec hf hr).2.2.2.2.2.2.1).2.2.1
    rw [if_pos rfl, if_pos rfl, arrayBytes_eq hlt₁ hf, arrayBytes_eq hlt₂ hf, hs.array f hf hr,
      hs.count hc (wf.countOf_type hf hr) hcr]
  | false => rw [if_neg (by decide), if_neg (by decide), hs.field f hf hr]

end Same

/-- Accepted buffers that decode to equal structs are equal. -/
theorem cells_of_same (hLE : E.layout.bigEndian = false) (flat : S.IsFlat) (hfun : Resolves E S)
    (hA : ∀ t n, E.alloc.succeeds t n = true) (hwhole : S.IsWhole) (hd : Dense E.layout S)
    (hstruct : E.layout.structSize S.packed S.elements < 2 ^ 64) {h₁ h₂ h₁' h₂' : Heap}
    {buf₁ buf₂ s₁ s₂ : Block} (hdec₁ : E.DecodesTo S h₁ buf₁ h₁' s₁)
    (hdec₂ : E.DecodesTo S h₂ buf₂ h₂' s₂) (hsame : E.SameContents S h₁' h₂' s₁ s₂) :
    buf₁.cells = buf₂.cells := by
  have wf := flat.toWellFormed
  obtain ⟨a₁, b₁, ha₁, hsz₁, hrun₁, hs₁⟩ := hdec₁
  obtain ⟨a₂, b₂, ha₂, hsz₂, hrun₂, hs₂⟩ := hdec₂
  obtain ⟨obj₁, hb₁, hobj₁, hv₁, hlt₁, hcells₁⟩ :=
    accepted_cells hLE flat hfun hA hwhole hd hstruct ha₁ hsz₁ hrun₁ (by simp)
  obtain ⟨obj₂, hb₂, hobj₂, hv₂, hlt₂, hcells₂⟩ :=
    accepted_cells hLE flat hfun hA hwhole hd hstruct ha₂ hsz₂ hrun₂ (by simp)
  obtain rfl := (Ptr.loc.inj hb₁).1
  obtain rfl := (Ptr.loc.inj hb₂).1
  obtain rfl : s₁ = obj₁ := Option.some.inj (hs₁.symm.trans hobj₁)
  obtain rfl : s₂ = obj₂ := Option.some.inj (hs₂.symm.trans hobj₂)
  rw [hcells₁, hcells₂, serializedSize_eq hlt₁, serializedSize_eq hlt₂, hsame.exactSize wf]
  congr 1
  refine List.flatMap_congr fun f hf => ?_
  rw [hsame.wireBytes wf hlt₁ hlt₂ hf]

end Env

/-! ## Main result -/

/-- Re-serializing what was read from an accepted buffer gives the buffer, so that no two
    accepted buffers decode to equal structs. -/
theorem reserializes {A : Allocator} {DL : DataLayout} {S : Struct} (hLE : DL.bigEndian = false)
    (hnat : DL.Natural) (flat : S.IsFlat) (hn : S.DistinctNames) (hwhole : S.IsWhole)
    (hA : ∀ t n, A.succeeds t n = true) (hstruct : DL.structSize S.packed S.elements < 2 ^ 64) :
    (∀ h a buf, h.block? a = some buf → (Env.ofStruct A DL S).Sized S h buf →
      (Env.ofStruct A DL S).GivesBack S h a buf) ∧
    ∀ h₁ h₂ buf₁ buf₂ h₁' h₂' s₁ s₂, (Env.ofStruct A DL S).DecodesTo S h₁ buf₁ h₁' s₁ →
      (Env.ofStruct A DL S).DecodesTo S h₂ buf₂ h₂' s₂ →
      (Env.ofStruct A DL S).SameContents S h₁' h₂' s₁ s₂ → buf₁.cells = buf₂.cells := by
  have hfun := Env.resolves_ofStruct A DL hn
  have hd : Dense (Env.ofStruct A DL S).layout S := hwhole.dense hnat
  refine ⟨fun h a buf ha hsz => ?_, fun h₁ h₂ buf₁ buf₂ h₁' h₂' s₁ s₂ hdec₁ hdec₂ hsame => ?_⟩
  · exact Env.givesBack hLE flat hfun hA hwhole hd hstruct ha hsz
  · exact Env.cells_of_same hLE flat hfun hA hwhole hd hstruct hdec₁ hdec₂ hsame

theorem DataLayout.natural_default : DataLayout.default.Natural := by
  intro t ht
  cases t with
  | int n => rcases ht with rfl | rfl | rfl | rfl <;> decide
  | float => decide
  | double => decide
  | ptr t => exact ht.elim
  | struct i n => exact ht.elim

/-- A `path` with one `x`, as a peer would send it. -/
def oneBuffer : Block where
  cells := encodeInt false 8 32 ++ encodeInt false 4 7 ++ encodeInt false 8 1 ++
    encodeInt false 4 0x3f800000 ++ encodeInt false 8 0
  fits := by decide

theorem oneBuffer_sized :
    (Env.ofStruct .calloc .default pathStruct).Sized pathStruct ⟨[some oneBuffer], 0⟩
      oneBuffer where
  plain := ⟨toLE 8 32 ++ toLE 4 7 ++ toLE 8 1 ++ toLE 4 0x3f800000 ++ toLE 8 0, by decide⟩
  header := by decide
  noWrap := by decide

theorem reserializes_path :
    (Env.ofStruct .calloc .default pathStruct).GivesBack pathStruct ⟨[some oneBuffer], 0⟩ 0
      oneBuffer ∧
    ∀ h' s h₂ buf₂ h₂' s₂,
      (Env.ofStruct .calloc .default pathStruct).DecodesTo pathStruct ⟨[some oneBuffer], 0⟩
        oneBuffer h' s →
      (Env.ofStruct .calloc .default pathStruct).DecodesTo pathStruct h₂ buf₂ h₂' s₂ →
      (Env.ofStruct .calloc .default pathStruct).SameContents pathStruct h' h₂' s s₂ →
      oneBuffer.cells = buf₂.cells := by
  have hsize : DataLayout.default.structSize pathStruct.packed pathStruct.elements < 2 ^ 64 := by
    decide
  have h := reserializes (A := .calloc) rfl DataLayout.natural_default
    pathStruct_isFlat pathStruct_distinctNames (by decide) (fun _ _ => rfl) hsize
  exact ⟨h.1 _ 0 oneBuffer rfl oneBuffer_sized, fun h' s h₂ buf₂ h₂' s₂ => h.2 _ h₂ _ _ h' h₂' s s₂⟩

/-- The buffer is accepted. -/
example : (((Env.ofStruct .calloc .default pathStruct).getDeserializer pathStruct (.base 0)
    ⟨[some oneBuffer], 0⟩).toOption.map Prod.fst) = some (.base 1) := by decide

/-! ## A layout that pads -/

/-- Floats take four bytes and are placed at multiples of eight. -/
def DataLayout.wideFloat : DataLayout :=
  { DataLayout.default with floatAlign := 8, floatAlign_pow2 := isPowerOfTwo_eight }

/-- `struct s { mutable float x }` -/
def floatStruct : Struct where
  name := "s"
  packed := false
  type := some (.struct 0 "s")
  fields :=
    [{ id := 0, name := "x", type := .float, isMutable := true, isStruct := false
       isRepeated := false, isCount := false, countField := none, countsFor := none
       parentType := some (.struct 0 "s"), offset := 0 }]

theorem floatStruct_isFlat : floatStruct.IsFlat where
  offset_eq := by decide
  ids_nodup := by decide
  parentType_eq := by decide
  isSome_type := rfl
  kind f hf := by
    obtain rfl := List.mem_singleton.mp hf
    exact .plain rfl rfl rfl trivial
  scalar := by decide
  element f hf t hr ht := by
    obtain rfl := List.mem_singleton.mp hf
    cases hr

/-- 1.0 and four bytes of padding, which are not zero. -/
def paddedBuffer : Block where
  cells := encodeInt false 8 16 ++ encodeInt false 4 0x3f800000 ++ encodeInt false 4 1
  fits := by decide

/-- The bytes of the block a run returns. -/
def Env.returned (x : Prog Ptr) (h : Heap) : Option (List Cell) :=
  (x h).toOption.bind fun p => match p.1 with
    | .loc d _ => (p.2.block? d).map Block.cells
    | _ => none

/-- The padding is not read, and `serialize_s` leaves what `malloc` left there. -/
theorem padding_not_given_back :
    DataLayout.wideFloat.bigEndian = false ∧ DataLayout.wideFloat.pointerSize = 8 ∧
    floatStruct.IsFlat ∧ floatStruct.DistinctNames ∧ floatStruct.IsWhole ∧
    (Env.ofStruct .calloc .wideFloat floatStruct).Sized floatStruct ⟨[some paddedBuffer], 0⟩
      paddedBuffer ∧
    ¬ (Env.ofStruct .calloc .wideFloat floatStruct).GivesBack floatStruct
      ⟨[some paddedBuffer], 0⟩ 0 paddedBuffer := by
  have hplain : Plain paddedBuffer.cells :=
    ⟨toLE 8 16 ++ toLE 4 0x3f800000 ++ toLE 4 1, by decide⟩
  refine ⟨rfl, rfl, floatStruct_isFlat, by unfold Struct.DistinctNames; decide, by decide,
    ⟨hplain, by decide, by decide⟩, fun hback => ?_⟩
  set E := Env.ofStruct .calloc .wideFloat floatStruct with hE
  have hread : ((E.getDeserializer floatStruct (.base 0) ⟨[some paddedBuffer], 0⟩).toOption.map
      Prod.fst) = some (.base 1) := by
    rw [hE]
    decide
  have hwritten : Env.returned (E.getDeserializer floatStruct (.base 0) >>=
      E.getSerializer floatStruct) ⟨[some paddedBuffer], 0⟩ =
        some (encodeInt false 8 16 ++ encodeInt false 4 0x3f800000 ++ encodeInt false 4 0) := by
    rw [hE]
    decide
  cases hx : E.getDeserializer floatStruct (.base 0) ⟨[some paddedBuffer], 0⟩ with
  | error e =>
    rw [hx] at hread
    cases hread
  | ok p =>
    obtain ⟨r, h'⟩ := p
    rw [hx] at hread
    obtain rfl : r = .base 1 := Option.some.inj hread
    obtain ⟨out, hrun, hcells⟩ := hback _ _ hx (by decide)
    unfold Env.returned at hwritten
    rw [bind_of_ok hx, hrun] at hwritten
    have hout : (h'.push out).block? h'.next = some out := Heap.block?_push_self h' out
    simp only [Except.toOption, Option.bind_some, hout, Option.map_some, hcells] at hwritten
    exact absurd (Option.some.inj hwritten) (by decide)

end Tyr
