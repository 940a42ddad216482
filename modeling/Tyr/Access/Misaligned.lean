import Tyr.Access.Alignment
import Tyr.Wire.Determined

/-
  Where the accessors claim more than they keep.

  The converse of `Alignment`. Two allocators, both with blocks at multiples of 16, lay their
  blocks 16 bytes apart (`shifted`): an alignment that holds at one offset with either of them
  divides 16 and the offset (`dvd_of_shifted`). `met_getConstructor` and so on list the accesses
  that a function reaches in some call; they are all that `AlignedWhen` speaks of.
-/

namespace Tyr

open Prog Traced

/-! ## Two allocators -/

/-- An allocator that never fails and clears memory. -/
def Allocator.shifted (k : Nat) : Allocator where
  succeeds _ _ := true
  fill _ _ := 0
  addr b := BitVec.ofNat 64 (4096 * (b + 1) + 16 * k)

theorem Allocator.shifted_aligned (k : Nat) : (Allocator.shifted k).Aligned := by
  intro b
  rw [shifted, dvd_toNat_ofNat (Nat.dvd_refl 16)]
  exact Nat.dvd_add (Dvd.dvd.mul_right (by decide) _) (Nat.dvd_mul_right 16 k)

/-- A power of two and 16. -/
theorem dvd_or_dvd_of_pow2 {a : Nat} (ha : a.isPowerOfTwo) : a ∣ 16 ∨ 32 ∣ a := by
  obtain ⟨k, rfl⟩ := ha
  rcases Nat.lt_or_ge 4 k with hk | hk
  · exact Or.inr (Nat.pow_dvd_pow 2 hk)
  · exact Or.inl (Nat.pow_dvd_pow 2 hk)

/-- An alignment that is kept whether the blocks are 16 bytes further on or not. -/
theorem dvd_of_shifted {a : Nat} (ha : a.isPowerOfTwo) {o : I64}
    (hall : ∀ k, ∃ b, a ∣ ((Allocator.shifted k).addr b + o).toNat) : a ∣ 16 ∧ a ∣ o.toNat := by
  obtain ⟨b, hb⟩ := hall 0
  obtain ⟨c, hc⟩ := hall 1
  have h16 : a ∣ 16 := by
    refine (dvd_or_dvd_of_pow2 ha).resolve_right fun h32 => ?_
    have hb32 := Nat.dvd_trans h32 hb
    have hc32 := Nat.dvd_trans h32 hc
    simp only [Allocator.shifted, BitVec.toNat_add, BitVec.toNat_ofNat] at hb32 hc32
    omega
  exact ⟨h16, (dvd_toNat_add h16 (Allocator.shifted_aligned 0 b) o).mp hb⟩

namespace Env

variable {E : Env} {S : Struct} {f : Field} {h : Heap} {b : Nat} {blk : Block}

/-! ## What is met -/

theorem meets_iff {t : Ty} {p : Ptr} :
    E.Meets ⟨p, E.layout.getABITypeAlignment t⟩ ↔ E.AlignedFor t p :=
  or_iff_right (Nat.ne_of_gt (E.layout.getABITypeAlignment_pos t))

variable (E S) in
/-- The slot of `f` is aligned in some struct. -/
def SlotMet (f : Field) : Prop :=
  ∃ b, E.Meets ⟨E.structGEP S (.base b) f, E.layout.getABITypeAlignment f.type⟩

variable (E) in
/-- A memcpy from the caller's array is aligned because its elements are. -/
def CopyMet (f : Field) : Prop :=
  ∀ src, E.AlignedFor f.elem src → E.Meets ⟨src, E.layout.getABITypeAlignment f.type⟩

section Shifted

variable {DL : DataLayout} {t : Ty} {o : I64}

theorem dvd_of_meets
    (hall : ∀ k, ∃ b, (ofStruct (.shifted k) DL S).Meets ⟨.loc b o, DL.getABITypeAlignment t⟩) :
    DL.getABITypeAlignment t ∣ 16 ∧ DL.getABITypeAlignment t ∣ o.toNat := by
  refine dvd_of_shifted (DL.getABITypeAlignment_pow2 t) fun k => ?_
  obtain ⟨b, hb⟩ := hall k
  exact ⟨b, meets_iff.mp hb⟩

theorem slotAligned_of_met (hall : ∀ k, (ofStruct (.shifted k) DL S).SlotMet S f) :
    DL.SlotAligned S f := by
  obtain ⟨h16, ho⟩ := dvd_of_meets (t := f.type)
    (o := 0 + BitVec.ofNat 64 (DL.structOffset S.packed S.elements f.offset)) hall
  have h0 : 16 ∣ (0 : I64).toNat := Nat.dvd_zero 16
  exact ⟨h16, (dvd_toNat_ofNat h16 _).mp ((dvd_toNat_add h16 h0 _).mp ho)⟩

/-- A pointer into a block, as far in as the alignment of the elements. -/
theorem dvd_of_copyMet (h16 : DL.getABITypeAlignment f.type ∣ 16)
    (hcopy : (ofStruct (.shifted 0) DL S).CopyMet f) :
    DL.getABITypeAlignment f.type ∣ DL.getABITypeAlignment f.elem := by
  have hloc := @dvd_address_loc (ofStruct (.shifted 0) DL S)
  have hA := Allocator.shifted_aligned 0
  rcases dvd_or_dvd_of_pow2 (DL.getABITypeAlignment_pow2 f.elem) with he | he
  · have hsrc := hcopy (.loc 0 (BitVec.ofNat 64 (DL.getABITypeAlignment f.elem)))
      ((hloc hA he 0 _).mpr ((dvd_toNat_ofNat he _).mpr (Nat.dvd_refl _)))
    exact (dvd_toNat_ofNat h16 _).mp ((hloc hA h16 0 _).mp (meets_iff.mp hsrc))
  · exact Nat.dvd_trans h16 (Nat.dvd_trans (Nat.dvd_mul_left 16 2) he)

end Shifted

/-! ## A struct without arrays -/

section Zeros

variable (wf : S.WellFormed)
include wf

/-- In a struct of zeros all pointers are NULL. -/
theorem no_arrays {n : Nat} (hz : blk.cells = List.replicate n (.byte 0)) (hb : E.Holds S blk)
    (hf : f ∈ S.fields) (hr : f.isRepeated = true) :
    E.ptrAt S blk f = .null ∧ E.countAt S blk (S.countOf f) = 0 := by
  obtain ⟨ht, -⟩ := wf.array_spec hf hr
  have hslot : ∀ g ∈ S.fields,
      E.slot S blk g = List.replicate (E.layout.storeSize g.type) (.byte 0) := by
    intro g hg
    have hle := fieldOffset_lt wf hb hg
    rw [hz, List.length_replicate] at hle
    rw [slot, hz]
    exact slice_replicate _ hle
  constructor
  · rw [ptrAt, hslot f hf, ht, DataLayout.storeSize_ptr]
    exact congrArg Val.asPtr (E.decode_encode_null f.elem f.elem)
  · rw [countAt, hslot _ (wf.countOf_mem hf hr), wf.countOf_type hf hr, DataLayout.storeSize_i64,
      ← encodeInt_zero E.layout.bigEndian]
    exact E.decodeI64_encodeI64 0

theorem exists_empty (hstruct : E.layout.structSize S.packed S.elements < 2 ^ 64) :
    ∃ (h : Heap) (blk : Block), h.block? 0 = some blk ∧ E.Holds S blk ∧
      ∀ f ∈ S.fields, f.isRepeated = true →
        E.ptrAt S blk f = .null ∧ E.countAt S blk (S.countOf f) = 0 := by
  set n := E.layout.structSize S.packed S.elements with hn
  have hlen : (List.replicate n (Cell.byte 0)).length = n := List.length_replicate
  set blk : Block := ⟨List.replicate n (.byte 0), by rwa [hlen]⟩ with hblk
  exact ⟨⟨[some blk], 0⟩, blk, rfl, hlen.ge, fun f => no_arrays wf rfl hlen.ge⟩

end Zeros

/-! ## Accessors -/

section Accessors

variable (flat : S.IsFlat) (hf : f ∈ S.fields)

theorem sizeOf_slot (wf : S.WellFormed) (hl : h.block? b = some blk) (hb : E.Holds S blk)
    (hf : f ∈ S.fields) : (Emitted.getFieldAllocSize E S f (.base b)).erase h =
      .ok (E.fieldSizeAt S blk f, h) := by
  rw [Emitted.erase_getFieldAllocSize]
  exact getFieldAllocSize_slot wf hl hb hf

include flat hf

/-- `get_S_f` loads the slot, and to copy an array its size. -/
theorem met_getGetter (hstruct : E.layout.structSize S.packed S.elements < 2 ^ 64)
    (hall : E.AlwaysAligned S (.get f)) :
    E.SlotMet S f ∧ (f.isRepeated = true → f.isMutable = false → E.SlotMet S (S.countOf f)) := by
  have wf := flat.toWellFormed
  obtain ⟨h, blk, hl, hb, hempty⟩ := exists_empty (E := E) wf hstruct
  have hget := hall h 0 .null ⟨blk, hl, hb, fun g hg hr => Or.inl (hempty g hg hr)⟩
    (Nat.dvd_zero _)
  unfold Emitted.getGetter at hget
  rw [Emitted.insertNullCheck_loc, every_bind] at hget
  obtain ⟨hslot, hget⟩ := hget
  refine ⟨⟨0, Emitted.every_loadTy.mp hslot⟩, fun hr hm => ⟨0, ?_⟩⟩
  have hrest := hget _ h (loadTy_slot wf hl hb hf)
  rw [if_neg (by simp [flat.isStruct f hf]), if_pos (by simp [hr, hm]), every_bind] at hrest
  rw [wf.countOf_type hf hr]
  exact (Emitted.every_getFieldAllocSize wf hf).mp hrest.1 hr

/-- What the array setter copies. -/
theorem met_sizeIsRight (hr : f.isRepeated = true) (hl : h.block? b = some blk)
    (hb : E.Holds S blk) {src q : Ptr} {n : I64}
    (hall : Every E.Meets (Emitted.sizeIsRight E S f (S.countOf f) (.base b) src n q) h) :
    E.Meets ⟨src, E.layout.getABITypeAlignment f.type⟩ := by
  have wf := flat.toWellFormed
  have hl₁ := Heap.block?_update_self hl (E.putCount S blk f n)
  have hb₁ := holds_putCount (f := f) hb n
  unfold Emitted.sizeIsRight at hall
  have hsize := hall.after (storeCount_slot wf hl hb hf hr n)
  have hcopy := hsize.after (sizeOf_slot wf hl₁ hb₁ hf)
  exact (Emitted.every_memcpy.mp (every_bind.mp hcopy).1).2

/-- `set_S_f` of an array: no elements for a struct that has none. -/
theorem met_setArray (hA : ∀ t n, E.alloc.succeeds t n = true)
    (hstruct : E.layout.structSize S.packed S.elements < 2 ^ 64)
    (hall : E.AlwaysAligned S (.set f)) (hr : f.isRepeated = true) :
    E.SlotMet S f ∧ E.SlotMet S (S.countOf f) ∧ E.CopyMet f := by
  have wf := flat.toWellFormed
  obtain ⟨-, -, -, -, hd, hcm, -⟩ := wf.array_spec hf hr
  have htc := wf.countOf_type hf hr
  obtain ⟨h, blk, hl, hb, hempty⟩ := exists_empty (E := E) wf hstruct
  have hnull : (E.decode f.type (E.slot S blk f)).asPtr = .null := (hempty f hf hr).1
  have hl₁ := Heap.block?_update_self hl (E.putCount S blk f 0)
  have hb₁ := holds_putCount (f := f) hb 0
  have hset : ∀ src, E.AlignedFor f.elem src →
      E.Meets ⟨E.structGEP S (.base 0) f, E.layout.getABITypeAlignment f.type⟩ ∧
      E.Meets ⟨E.structGEP S (.base 0) (S.countOf f), E.layout.getABITypeAlignment (.int 64)⟩ ∧
      E.Meets ⟨src, E.layout.getABITypeAlignment f.type⟩ := by
    intro src hsrc
    have hrun := hall h 0 (.ptr src) 0 ⟨blk, hl, hb, fun g hg hr => Or.inl (hempty g hg hr)⟩
      fun _ => ⟨hsrc, Or.inl exactSizeFor_zero⟩
    unfold Emitted.getSetter at hrun
    rw [Emitted.insertNullCheck_loc, if_neg (by simp [flat.isStruct f hf]), if_pos hr, hd] at hrun
    unfold Emitted.setRepeated at hrun
    have hstore := hrun.after (loadTy_slot wf hl hb hf)
    rw [hnull, if_neg (by simp)] at hstore
    have hsize := hstore.after (storeCount_slot wf hl hb hf hr 0)
    have hmalloc := hsize.after (sizeOf_slot wf hl₁ hb₁ hf)
    have hlast := every_quiet_bind.mp hmalloc _ _ (malloc_ok (hA _ _))
    rw [Emitted.insertNullCheck_loc] at hlast
    exact ⟨Emitted.every_loadTy.mp (every_bind.mp hrun).1,
      Emitted.every_storeI64.mp (every_bind.mp hstore).1,
      met_sizeIsRight flat hf hr (Heap.block?_push_of_some hl₁ _) hb₁ hlast⟩
  obtain ⟨hslot, hcount, -⟩ := hset .null (Nat.dvd_zero _)
  exact ⟨⟨0, hslot⟩, ⟨0, by rwa [htc]⟩, fun src hsrc => (hset src hsrc).2.2⟩

/-- `set_S_f` of a count -/
theorem met_setCount (hstruct : E.layout.structSize S.packed S.elements < 2 ^ 64)
    (hr : f.isRepeated = true) (hall : E.AlwaysAligned S (.set (S.countOf f))) :
    E.SlotMet S (S.countOf f) ∧ E.SlotMet S f := by
  have wf := flat.toWellFormed
  obtain ⟨-, -, -, -, -, hcm, hcc, hfor, -⟩ := wf.array_spec hf hr
  have htc := wf.countOf_type hf hr
  obtain ⟨h, blk, hl, hb, hempty⟩ := exists_empty (E := E) wf hstruct
  have hnr : (S.countOf f).isRepeated = false := (wf.count_spec hcm hcc).2.2.1
  have hrun := hall h 0 (.int 1) 0 ⟨blk, hl, hb, fun g hg hr => Or.inl (hempty g hg hr)⟩
    fun hr' => absurd (hnr.symm.trans hr') Bool.noConfusion
  unfold Emitted.getSetter at hrun
  rw [Emitted.insertNullCheck_loc, if_neg (by simp [flat.isStruct _ hcm]), if_neg (by simp [hnr]),
    if_pos hcc, hfor, wf.deref_id hf] at hrun
  have hset : Every E.Meets (Emitted.setCount E S (S.countOf f) f (.base 0) 1) h := hrun
  unfold Emitted.setCount at hset
  rw [if_neg (by decide)] at hset
  have hstore := hset.after (loadI64_slot wf hl hb hcm htc)
  have hload := hstore.after (storeCount_slot wf hl hb hf hr 1)
  refine ⟨⟨0, ?_⟩, 0, Emitted.every_loadTy.mp (every_bind.mp hload).1⟩
  rw [htc]
  exact Emitted.every_loadI64.mp (every_bind.mp hset).1

/-- `set_S_f` -/
theorem met_setScalar (hstruct : E.layout.structSize S.packed S.elements < 2 ^ 64)
    (hr : f.isRepeated = false) (hc : f.isCount = false) (hall : E.AlwaysAligned S (.set f)) :
    E.SlotMet S f := by
  have wf := flat.toWellFormed
  obtain ⟨h, blk, hl, hb, hempty⟩ := exists_empty (E := E) wf hstruct
  have hrun := hall h 0 (.int 0) 0 ⟨blk, hl, hb, fun g hg hr => Or.inl (hempty g hg hr)⟩
    fun hr' => absurd (hr.symm.trans hr') Bool.noConfusion
  unfold Emitted.getSetter at hrun
  rw [Emitted.insertNullCheck_loc, if_neg (by simp [flat.isStruct f hf]), if_neg (by simp [hr]),
    if_neg (by simp [hc])] at hrun
  exact ⟨0, Emitted.every_storeTy.mp (every_bind.mp hrun).1⟩

end Accessors

/-! ## Items -/

section Items

theorem itemGEP_zero (t : Ty) (d : Nat) (o : I64) : E.itemGEP t (.loc d o) 0 = .loc d o := by
  have h0 : (0 : I64) * BitVec.ofNat 64 (E.layout.allocSize t) = 0 := BitVec.zero_mul
  rw [itemGEP, h0, Ptr.add_loc]
  exact congrArg _ (BitVec.add_zero o)

variable (wf : S.WellFormed) (hf : f ∈ S.fields) (hr : f.isRepeated = true)
  (hl : h.block? b = some blk) (hb : E.Holds S blk)
  (harrays : ∀ g ∈ S.fields, g.isRepeated = true → E.ArrayOk S h blk g)
  (hone : 0 < E.countAt S blk (S.countOf f))
include wf hf hr hl hb harrays hone

/-- What both item functions do up to the first item, at which `X` goes on. -/
theorem met_firstItem {X : Val → Traced Access Bool} (hrun : Every E.Meets (do
      let FieldLoad ← Emitted.loadTy E f.type (E.structGEP S (.base b) f)
      let Count ← Emitted.loadI64 E (E.structGEP S (.base b) (S.countOf f))
      if 0 < Count then X FieldLoad else pure false) h) :
    E.SlotMet S f ∧ E.SlotMet S (S.countOf f) ∧
      ∃ v d, v.asPtr = .base d ∧ Every E.Meets (X v) h := by
  obtain ⟨-, -, -, -, -, hcm, -⟩ := wf.array_spec hf hr
  have htc := wf.countOf_type hf hr
  obtain ⟨d, hp⟩ := (harrays f hf hr).base_of_lt hone
  have hcount := hrun.after (loadTy_slot wf hl hb hf)
  have hitem := hcount.after (loadI64_slot wf hl hb hcm htc)
  rw [if_pos hone] at hitem
  refine ⟨⟨b, Emitted.every_loadTy.mp (every_bind.mp hrun).1⟩, ⟨b, ?_⟩, _, d, hp, hitem⟩
  rw [htc]
  exact Emitted.every_loadI64.mp (every_bind.mp hcount).1

/-- `get_S_f_item` of the first item -/
theorem met_getItemGetter (hall : E.AlwaysAligned S (.getItem f)) :
    E.SlotMet S f ∧ E.SlotMet S (S.countOf f) ∧
      ∃ d, E.Meets ⟨.base d, E.layout.getABITypeAlignment f.elem⟩ := by
  obtain ⟨-, -, -, -, hd, -⟩ := wf.array_spec hf hr
  have hrun := hall h b 0 .null ⟨blk, hl, hb, harrays⟩ (Nat.dvd_zero _)
  unfold Emitted.getItemGetter at hrun
  rw [wf.pointee hf hr, hd] at hrun
  simp only [Emitted.insertNullCheck_loc] at hrun
  obtain ⟨hslot, hcount, v, d, hv, hitem⟩ := met_firstItem wf hf hr hl hb harrays hone hrun
  rw [hv, itemGEP_zero] at hitem
  exact ⟨hslot, hcount, d, Emitted.every_loadTy.mp (every_bind.mp hitem).1⟩

/-- `set_S_f_item` of the first item -/
theorem met_getItemSetter (hall : E.AlwaysAligned S (.setItem f)) :
    E.SlotMet S f ∧ E.SlotMet S (S.countOf f) ∧
      ∃ d, E.Meets ⟨.base d, E.layout.getABITypeAlignment f.elem⟩ := by
  obtain ⟨-, -, -, -, hd, -⟩ := wf.array_spec hf hr
  have hrun := hall h b 0 (.int 0) ⟨blk, hl, hb, harrays⟩
  unfold Emitted.getItemSetter at hrun
  rw [wf.pointee hf hr, hd] at hrun
  simp only [Emitted.insertNullCheck_loc] at hrun
  obtain ⟨hslot, hcount, v, d, hv, hitem⟩ := met_firstItem wf hf hr hl hb harrays hone hrun
  rw [hv, itemGEP_zero] at hitem
  exact ⟨hslot, hcount, d, Emitted.every_storeTy.mp (every_bind.mp hitem).1⟩

end Items

/-! ## The constructor -/

section Create

variable {P : Access → Prop} {h' : Heap} {n : Nat} {Self : Ptr} {Next : Traced Access Ptr}

/-- A call that returns a block has got past the checks. -/
theorem every_of_insertNullCheck {p : Ptr} {X : Traced Access Ptr}
    (hall : Every P (Emitted.insertNullCheck [p] .null X) h)
    (hok : (Emitted.insertNullCheck [p] .null X).erase h = .ok (.base n, h')) :
    Every P X h ∧ X.erase h = .ok (.base n, h') := by
  cases p with
  | null => cases hok
  | loc d o => exact ⟨hall, hok⟩
  | wild raw => exact ⟨hall, hok⟩

/-- One field of a call that ends normally. -/
theorem met_initField {Arg : Val} (hall : Every P (Emitted.initField E S f Self Arg Next) h)
    (hok : (Emitted.initField E S f Self Arg Next).erase h = .ok (.base n, h')) :
    P ⟨E.structGEP S Self f, E.layout.getABITypeAlignment f.type⟩ ∧
      (f.isMutable = false → f.type.isPointerTy = true →
        P ⟨Arg.asPtr, E.layout.getABITypeAlignment f.type⟩) ∧
      ∃ h₁, Every P Next h₁ ∧ Next.erase h₁ = .ok (.base n, h') := by
  unfold Emitted.initField at hall hok
  split at hall
  · next hm =>
    rw [if_pos hm] at hok
    obtain ⟨u, h₁, -, hstore, hnext, hok⟩ := hall.next hok
    refine ⟨Emitted.every_storeTy.mp hstore, fun hm' => ?_, h₁, hnext, hok⟩
    rw [hm] at hm'
    cases hm'
  · next hm =>
    rw [if_neg hm] at hok
    split at hall
    · next hp =>
      rw [if_pos hp] at hok
      obtain ⟨size, h₁, -, -, hall, hok⟩ := hall.next hok
      obtain ⟨q, h₂, -, -, hall, hok⟩ := hall.next hok
      obtain ⟨hall, hok⟩ := every_of_insertNullCheck hall hok
      obtain ⟨u, h₃, -, hcopy, hall, hok⟩ := hall.next hok
      obtain ⟨u, h₄, -, hstore, hnext, hok⟩ := hall.next hok
      exact ⟨Emitted.every_storeTy.mp hstore, fun _ _ => (Emitted.every_memcpy.mp hcopy).2, h₄,
        hnext, hok⟩
    · next hp =>
      rw [if_neg hp] at hok
      obtain ⟨u, h₁, -, hstore, hnext, hok⟩ := hall.next hok
      exact ⟨Emitted.every_storeTy.mp hstore, fun _ hp' => absurd hp' hp, h₁, hnext, hok⟩

theorem met_initFields {arg : Field → Val} : ∀ (fs : List Field) (h : Heap),
    Every P (Emitted.initFields E S Self fs ((fs.filter (! ·.isMutable)).map arg)) h →
    (Emitted.initFields E S Self fs ((fs.filter (! ·.isMutable)).map arg)).erase h =
      .ok (.base n, h') →
    ∀ f ∈ fs, P ⟨E.structGEP S Self f, E.layout.getABITypeAlignment f.type⟩ ∧
      (f.isMutable = false → f.type.isPointerTy = true →
        P ⟨(arg f).asPtr, E.layout.getABITypeAlignment f.type⟩) := by
  intro fs
  induction fs with
  | nil => exact fun _ _ _ f hf => nomatch hf
  | cons g fs ih =>
    intro h hall hok f hf
    rw [Emitted.initFields_cons] at hall hok
    obtain ⟨hslot, hcopy, h₁, hnext, hok⟩ := met_initField hall hok
    rcases List.mem_cons.mp hf with rfl | hf
    · refine ⟨hslot, fun hm hp => ?_⟩
      have hsrc := hcopy hm hp
      rwa [hm, if_neg Bool.false_ne_true] at hsrc
    · exact ih h₁ hnext hok f hf

/-- Zeros for the scalars, `src` for array `f`, NULL for the others. -/
def argsFor (f : Field) (src : Ptr) (g : Field) : Val :=
  if g.isRepeated then .ptr (if g = f then src else .null) else .int 0

section Args

variable (wf : S.WellFormed) (src : Ptr)
include wf

theorem countArg_argsFor {g : Field} (hg : g ∈ S.fields) (hr : g.isRepeated = true) :
    S.countArg (argsFor f src) g = 0 := by
  obtain ⟨-, -, -, -, -, hcm, hcc, -⟩ := wf.array_spec hg hr
  have hnr : (S.countOf g).isRepeated = false := (wf.count_spec hcm hcc).2.2.1
  unfold Struct.countArg argsFor
  rw [if_neg (by simp [hnr])]
  rfl

theorem createArgs_argsFor (h : Heap) : E.CreateArgs S h (argsFor f src) where
  scalar g _ _ hr := ⟨0, if_neg (by simp [hr])⟩
  array g hg _ hr := by
    rw [countArg_argsFor wf src hg hr, exactSizeFor_zero]
    exact ⟨by decide, Or.inl rfl⟩

/-- An array of no elements, in a struct that `malloc` has cleared. -/
theorem sizeSeen_argsFor {g : Field} (hg : g ∈ S.fields) (hr : g.isRepeated = true) {n : Nat}
    (hz : blk.cells = List.replicate n (.byte 0)) (hb : E.Holds S blk) :
    E.sizeSeen S blk (argsFor f src) g = 0 := by
  have hseen : E.countSeen S blk (argsFor f src) g = 0 := by
    unfold countSeen
    split
    · exact countArg_argsFor wf src hg hr
    · exact (no_arrays wf hz hb hg hr).2
  rw [sizeSeen, hseen]
  exact BitVec.mul_zero

end Args

/-- `create_S` stores all fields and copies what array `f` is given. -/
theorem met_getConstructor (flat : S.IsFlat) (hA : ∀ t n, E.alloc.succeeds t n = true)
    (hfill : ∀ t i, E.alloc.fill t i = 0)
    (hstruct : E.layout.structSize S.packed S.elements < 2 ^ 64)
    (hall : E.AlwaysAligned S .create) (hf : f ∈ S.fields) :
    E.SlotMet S f ∧ (f.isMutable = false → f.isRepeated = true → E.CopyMet f) := by
  have wf := flat.toWellFormed
  set h₀ : Heap := ⟨[], 0⟩ with hh₀
  have hz : (E.newStruct S h₀).cells =
      List.replicate (E.getStructAllocSize S).toNat (.byte 0) := by
    unfold newStruct Allocator.fresh
    simp only [hfill, List.map_const', List.length_range]
  have hcreate : ∀ src, E.AlignedFor f.elem src →
      E.Meets ⟨E.structGEP S (.base h₀.next) f, E.layout.getABITypeAlignment f.type⟩ ∧
      (f.isMutable = false → f.type.isPointerTy = true →
        E.Meets ⟨(argsFor f src f).asPtr, E.layout.getABITypeAlignment f.type⟩) := by
    intro src hsrc
    have hstart : E.Constructed S h₀ (E.newStruct S h₀) (argsFor f src) []
        (h₀.push (E.newStruct S h₀)) (E.newStruct S h₀) := .start hstruct
    have hargs : E.CreateArgs S h₀ (argsFor f src) := createArgs_argsFor wf src h₀
    have haligned : ∀ g ∈ S.fields, g.isMutable = false → g.isRepeated = true →
        E.AlignedFor g.elem (argsFor f src g).asPtr := by
      intro g hg hm hr
      unfold argsFor
      rw [if_pos hr]
      split
      · next he => rwa [he]
      · exact Nat.dvd_zero _
    have hrun := hall h₀ (argsFor f src) hargs haligned
    unfold Emitted.getConstructor at hrun
    have hfields := every_quiet_bind.mp hrun _ _ (malloc_ok (hA _ _))
    rw [Emitted.insertNullCheck_loc] at hfields
    -- every array is allocated with 0 bytes
    obtain ⟨h', blk', hok, -⟩ := initFields_made flat hargs.scalar hA
      (fun g hg hr _ => Or.inl (by rw [sizeSeen_argsFor wf src hg hr hz hstart.holds]; rfl))
      S.fields [] _ _ rfl hstart
    rw [← Emitted.erase_initFields] at hok
    exact met_initFields S.fields _ hfields hok f hf
  refine ⟨⟨h₀.next, (hcreate .null (Nat.dvd_zero _)).1⟩, fun hm hr src hsrc => ?_⟩
  have hp : f.type.isPointerTy = true := by
    rw [(wf.array_spec hf hr).1]
    rfl
  have hmet := (hcreate src hsrc).2 hm hp
  unfold argsFor at hmet
  rwa [if_pos hr, if_pos rfl] at hmet

end Create

end Env

end Tyr
