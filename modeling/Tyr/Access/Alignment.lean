import Tyr.CodeGen.Emitted
import Tyr.Access.Constructor
import Tyr.Access.Spec

/-
  Alignment of the accesses of `create_S` and the accessors.

  A heap whose blocks are at multiples of 16 and a caller whose arrays are aligned for their
  elements: is every load, store and memcpy at an address with the alignment that it carries?
  `Env.AlwaysAligned` says so of one function of a struct. It needs offsets that are multiples of
  the alignments, and that nothing is copied from the caller with the alignment of a pointer
  when its elements have less.
  This module shows the condition to be enough for the accessors (`aligned_getSetter` and so on).
-/

namespace Tyr

open Prog Traced

/-! ## When a function is aligned -/

/-- `malloc` and `realloc` return multiples of 16. -/
def Allocator.Aligned (A : Allocator) : Prop := ∀ b, 16 ∣ (A.addr b).toNat

/-- The functions of a struct that a caller calls. The field functions run inside `serialize` and
    `deserialize`. -/
inductive Operation where
  | create
  | get (f : Field)
  | getItem (f : Field)
  | set (f : Field)
  | setItem (f : Field)
  | serialize
  | deserialize
  deriving DecidableEq

/-- What is generated for `S`. -/
def Struct.HasOperation (S : Struct) : Operation → Prop
  | .get f => f ∈ S.fields
  | .set f => f ∈ S.fields ∧ f.isMutable = true
  | .getItem f => f ∈ S.fields ∧ f.isRepeated = true
  | .setItem f => f ∈ S.fields ∧ f.isRepeated = true
  | _ => True

instance (S : Struct) : DecidablePred S.HasOperation := fun e => by
  cases e <;> unfold Struct.HasOperation <;> infer_instance

namespace Env

variable (E : Env) (S : Struct)

/-- Block `b` is a struct object with its arrays. -/
def IsObject (h : Heap) (b : Nat) : Prop :=
  ∃ blk, h.block? b = some blk ∧ E.Holds S blk ∧
    ∀ f ∈ S.fields, f.isRepeated = true → E.ArrayOk S h blk f

/-- `p` is aligned for values of type `t`. -/
def AlignedFor (t : Ty) (p : Ptr) : Prop := E.layout.getABITypeAlignment t ∣ E.address p

instance (t : Ty) (p : Ptr) : Decidable (E.AlignedFor t p) :=
  inferInstanceAs (Decidable (_ ∣ _))

/-- In every call every access is as aligned as it claims. Output parameters and the arrays of
    the caller are aligned for their types, a buffer may be anywhere. -/
def AlwaysAligned : Operation → Prop
  | .create => ∀ h arg, E.CreateArgs S h arg →
      (∀ f ∈ S.fields, f.isMutable = false → f.isRepeated = true →
        E.AlignedFor f.elem (arg f).asPtr) →
      Every E.Meets (Emitted.getConstructor E S ((S.fields.filter (! ·.isMutable)).map arg)) h
  | .get f => ∀ h b OutVal, E.IsObject S h b → E.AlignedFor f.type OutVal →
      Every E.Meets (Emitted.getGetter E S f (.base b) OutVal) h
  | .getItem f => ∀ h b IDX OutVal, E.IsObject S h b → E.AlignedFor f.elem OutVal →
      Every E.Meets (Emitted.getItemGetter E S f (.base b) IDX OutVal) h
  | .set f => ∀ h b ToInsert NumElts, E.IsObject S h b →
      (f.isRepeated = true → E.AlignedFor f.elem ToInsert.asPtr ∧
        h.Readable ToInsert.asPtr (E.exactSizeFor f NumElts)) →
      Every E.Meets (Emitted.getSetter E S f (.base b) ToInsert NumElts) h
  | .setItem f => ∀ h b IDX ValToSet, E.IsObject S h b →
      Every E.Meets (Emitted.getItemSetter E S f (.base b) IDX ValToSet) h
  | .serialize => ∀ h b, E.IsObject S h b → Every E.Meets (Emitted.getSerializer E S (.base b)) h
  | .deserialize => ∀ h SerializedSelf, Every E.Meets (Emitted.getDeserializer E S SerializedSelf) h

end Env

namespace DataLayout

variable (DL : DataLayout) (S : Struct)

/-- A load or store of the field is aligned wherever the struct lies. -/
def SlotAligned (f : Field) : Prop :=
  DL.getABITypeAlignment f.type ∣ 16 ∧
    DL.getABITypeAlignment f.type ∣ DL.structOffset S.packed S.elements f.offset

instance : DecidablePred (DL.SlotAligned S) := fun _ =>
  inferInstanceAs (Decidable (_ ∧ _))

end DataLayout

/-! ## Addresses -/

theorem dvd_toNat_add {a : Nat} (ha : a ∣ 16) {x : I64} (hx : 16 ∣ x.toNat) (o : I64) :
    a ∣ (x + o).toNat ↔ a ∣ o.toNat := by
  have h64 : a ∣ 2 ^ 64 := Nat.dvd_trans ha (by decide)
  rw [BitVec.toNat_add, Nat.dvd_mod_iff h64]
  exact Nat.dvd_add_right (Nat.dvd_trans ha hx)

theorem dvd_toNat_ofNat {a : Nat} (ha : a ∣ 16) (n : Nat) :
    a ∣ (BitVec.ofNat 64 n).toNat ↔ a ∣ n := by
  have h64 : a ∣ 2 ^ 64 := Nat.dvd_trans ha (by decide)
  rw [BitVec.toNat_ofNat, Nat.dvd_mod_iff h64]

/-- NULL or the start of a block, as the allocation functions return it. -/
def Ptr.IsStart (p : Ptr) : Prop := p = .null ∨ ∃ b, p = .base b

theorem malloc_isStart {A : Allocator} {n : I64} {h h' : Heap} {q : Ptr}
    (hrun : malloc A n h = .ok (q, h')) : q.IsStart := by
  cases hs : A.succeeds h.calls n.toNat with
  | true =>
    rw [malloc_ok hs] at hrun
    cases hrun
    exact Or.inr ⟨h.next, rfl⟩
  | false =>
    rw [malloc_null hs] at hrun
    cases hrun
    exact Or.inl rfl

theorem realloc_isStart {A : Allocator} {p : Ptr} {n : I64} {h h' : Heap} {q : Ptr}
    (hrun : realloc A p n h = .ok (q, h')) : q.IsStart := by
  rcases realloc_cases hrun with ⟨rfl, -⟩ | ⟨rfl, -⟩ | rfl
  · exact Or.inl rfl
  · exact Or.inl rfl
  · exact Or.inr ⟨h.next, rfl⟩

namespace Env

variable {E : Env} {S : Struct} {f : Field} {a b : Nat} {o : I64} {h : Heap} {p : Ptr}

section Addresses

variable (hA : E.alloc.Aligned) (ha : a ∣ 16)
include hA ha

theorem dvd_address_loc (b : Nat) (o : I64) : a ∣ E.address (.loc b o) ↔ a ∣ o.toNat :=
  dvd_toNat_add ha (hA b) o

theorem meets_loc (ho : a ∣ o.toNat) : E.Meets ⟨.loc b o, a⟩ :=
  Or.inr ((dvd_address_loc hA ha b o).mpr ho)

theorem meets_start (hp : p.IsStart) : E.Meets ⟨p, a⟩ := by
  rcases hp with rfl | ⟨b, rfl⟩
  · exact Or.inr (Nat.dvd_zero a)
  · exact meets_loc hA ha (Nat.dvd_zero a)

end Addresses

section Slots

variable (hA : E.alloc.Aligned) (b)
include hA

theorem meets_slot (hs : E.layout.SlotAligned S f) :
    E.Meets ⟨E.structGEP S (.base b) f, E.layout.getABITypeAlignment f.type⟩ := by
  have h0 : 16 ∣ (0 : I64).toNat := Nat.dvd_zero 16
  refine meets_loc hA hs.1 ?_
  rw [dvd_toNat_add hs.1 h0, dvd_toNat_ofNat hs.1]
  exact hs.2

theorem meets_i64 (ht : f.type = .int 64) (hs : E.layout.SlotAligned S f) :
    E.Meets ⟨E.structGEP S (.base b) f, E.layout.getABITypeAlignment (.int 64)⟩ := by
  have hslot := meets_slot b hA hs
  rwa [ht] at hslot

theorem meets_item {t : Ty} (ht : E.layout.getABITypeAlignment t ∣ 16) (idx : I64) :
    E.Meets ⟨E.itemGEP t (.base b) idx, E.layout.getABITypeAlignment t⟩ := by
  have hsize : E.layout.getABITypeAlignment t ∣ E.layout.allocSize t := dvd_alignTo _ _
  have h0 : 16 ∣ (0 : I64).toNat := Nat.dvd_zero 16
  refine meets_loc hA ht ?_
  rw [dvd_toNat_add ht h0, BitVec.toNat_mul,
    Nat.dvd_mod_iff (Nat.dvd_trans ht (by decide))]
  exact Dvd.dvd.mul_left ((dvd_toNat_ofNat ht _).mpr hsize) _

end Slots

/-- An array's pointer is the start of a block. -/
theorem ArrayOk.isStart {blk : Block} (harr : E.ArrayOk S h blk f) : (E.ptrAt S blk f).IsStart := by
  rcases harr with ⟨hp, -⟩ | ⟨d, -, hp, -⟩
  · exact Or.inl hp
  · exact Or.inr ⟨d, hp⟩

/-- An index that passes the check comes with an array. -/
theorem ArrayOk.base_of_lt {blk : Block} {idx : I64} (harr : E.ArrayOk S h blk f)
    (hidx : idx < E.countAt S blk (S.countOf f)) : ∃ d, E.ptrAt S blk f = .base d := by
  rcases harr with ⟨-, hc⟩ | ⟨d, -, hp, -⟩
  · rw [hc] at hidx
    exact absurd hidx (Nat.not_lt_zero _)
  · exact ⟨d, hp⟩

/-! ## The constructor -/

section Functions

variable (wf : S.WellFormed) (hA : E.alloc.Aligned)
include wf hA

theorem every_sizeOf (hf : f ∈ S.fields)
    (hs : f.isRepeated = true → E.layout.SlotAligned S (S.countOf f)) :
    Every E.Meets (Emitted.getFieldAllocSize E S f (.base b)) h := by
  rw [Emitted.every_getFieldAllocSize wf hf]
  exact fun hr => meets_i64 b hA (wf.countOf_type hf hr) (hs hr)

/-- One field of the constructor. -/
theorem aligned_initField (hf : f ∈ S.fields) (hslot : ∀ g ∈ S.fields, E.layout.SlotAligned S g)
    {Arg : Val} (harg : f.isMutable = false → f.type.isPointerTy = true →
      E.Meets ⟨Arg.asPtr, E.layout.getABITypeAlignment f.type⟩) {Next : Traced Access Ptr}
    (hnext : ∀ h, Every E.Meets Next h) :
    Every E.Meets (Emitted.initField E S f (.base b) Arg Next) h := by
  have hstore := meets_slot b hA (hslot f hf)
  unfold Emitted.initField
  split
  · exact every_bind.mpr ⟨Emitted.every_storeTy.mpr hstore, fun _ h' _ => hnext h'⟩
  · next hm =>
    split
    · next hp =>
      have hsize := every_sizeOf (b := b) (h := h) wf hA hf fun hr => hslot _ (wf.countOf_mem hf hr)
      refine every_bind.mpr ⟨hsize, fun n h₁ _ => ?_⟩
      refine every_quiet_bind.mpr fun q h₂ hmalloc => ?_
      refine Emitted.every_insertNullCheck (every_bind.mpr ⟨?_, fun _ h₃ _ => ?_⟩)
      · rw [Emitted.every_memcpy]
        exact ⟨meets_start hA (hslot f hf).1 (malloc_isStart hmalloc),
          harg (Bool.eq_false_iff.mpr hm) hp⟩
      · exact every_bind.mpr ⟨Emitted.every_storeTy.mpr hstore, fun _ h' _ => hnext h'⟩
    · exact every_bind.mpr ⟨Emitted.every_storeTy.mpr hstore, fun _ h' _ => hnext h'⟩

/-- The fields of the constructor. -/
theorem aligned_initFields (hslot : ∀ g ∈ S.fields, E.layout.SlotAligned S g)
    {arg : Field → Val} (harg : ∀ f ∈ S.fields, f.isMutable = false → f.type.isPointerTy = true →
      E.Meets ⟨(arg f).asPtr, E.layout.getABITypeAlignment f.type⟩) :
    ∀ (fs : List Field) (h : Heap), (∀ f ∈ fs, f ∈ S.fields) → Every E.Meets
      (Emitted.initFields E S (.base b) fs ((fs.filter (! ·.isMutable)).map arg)) h := by
  intro fs
  induction fs with
  | nil => exact fun h _ => every_pure _
  | cons f fs ih =>
    intro h hm
    have hf := hm f List.mem_cons_self
    have hnext := fun h => ih h fun g hg => hm g (List.mem_cons_of_mem f hg)
    rw [Emitted.initFields_cons]
    refine aligned_initField wf hA hf hslot (fun hmut hp => ?_) hnext
    rw [hmut, if_neg Bool.false_ne_true]
    exact harg f hf hmut hp

/-- `create_S` -/
theorem aligned_getConstructor (flat : S.IsFlat) (hslot : ∀ g ∈ S.fields, E.layout.SlotAligned S g)
    (helem : ∀ f ∈ S.fields, f.isMutable = false → f.isRepeated = true →
      E.layout.getABITypeAlignment f.type ∣ E.layout.getABITypeAlignment f.elem) :
    E.AlwaysAligned S .create := by
  intro h arg _ haligned
  unfold Emitted.getConstructor
  refine every_quiet_bind.mpr fun q h₁ hmalloc => ?_
  rcases malloc_isStart hmalloc with rfl | ⟨b, rfl⟩
  · exact every_pure _
  refine Emitted.every_insertNullCheck
    (aligned_initFields wf hA hslot (fun f hf hm hp => ?_) S.fields h₁ fun _ hf => hf)
  have hr : f.isRepeated = true := by
    by_contra hr
    rw [not_pointer wf hf (flat.isStruct f hf) (Bool.eq_false_iff.mpr hr)] at hp
    cases hp
  exact Or.inr (Nat.dvd_trans (helem f hf hm hr) (haligned f hf hm hr))

/-! ## Getters -/

/-- `get_S_f` -/
theorem aligned_getGetter (hf : f ∈ S.fields) (hns : f.isStruct = false)
    (hslot : E.layout.SlotAligned S f)
    (hcount : f.isRepeated = true → f.isMutable = false → E.layout.SlotAligned S (S.countOf f)) :
    E.AlwaysAligned S (.get f) := by
  rintro h b OutVal ⟨blk, hl, hb, harrays⟩ hout
  unfold Emitted.getGetter
  refine Emitted.every_insertNullCheck (every_bind.mpr ⟨?_, fun v h₁ hload => ?_⟩)
  · exact Emitted.every_loadTy.mpr (meets_slot b hA hslot)
  obtain ⟨rfl, rfl⟩ := Prod.mk.inj (Except.ok.inj ((loadTy_slot wf hl hb hf).symm.trans hload))
  rw [if_neg (by simp [hns])]
  split
  · next hrm =>
    obtain ⟨hr, hm⟩ := Bool.and_eq_true_iff.mp hrm
    have hsize := every_sizeOf (b := b) (h := h) wf hA hf fun _ => hcount hr (by simpa using hm)
    refine every_bind.mpr ⟨hsize, fun n h₂ _ => every_quiet_bind.mpr fun q h₃ hmalloc => ?_⟩
    refine Emitted.every_insertNullCheck (every_bind.mpr ⟨?_, fun _ h₄ _ => ?_⟩)
    · rw [Emitted.every_memcpy]
      exact ⟨meets_start hA hslot.1 (malloc_isStart hmalloc),
        meets_start hA hslot.1 (harrays f hf hr).isStart⟩
    · exact every_bind.mpr ⟨Emitted.every_storeTy.mpr (Or.inr hout), fun _ _ _ => every_pure _⟩
  · exact every_bind.mpr ⟨Emitted.every_storeTy.mpr (Or.inr hout), fun _ _ _ => every_pure _⟩

/-- `get_S_f_item` -/
theorem aligned_getItemGetter (hf : f ∈ S.fields) (hr : f.isRepeated = true)
    (hslot : E.layout.SlotAligned S f) (hcount : E.layout.SlotAligned S (S.countOf f))
    (helem : E.layout.getABITypeAlignment f.elem ∣ 16) : E.AlwaysAligned S (.getItem f) := by
  rintro h b idx OutVal ⟨blk, hl, hb, harrays⟩ hout
  obtain ⟨ht, -, -, -, hd, hc, -⟩ := wf.array_spec hf hr
  have hpt := wf.pointee hf hr
  have htc := wf.countOf_type hf hr
  unfold Emitted.getItemGetter
  rw [hpt, hd]
  refine Emitted.every_insertNullCheck (every_bind.mpr ⟨?_, fun v h₁ hload => ?_⟩)
  · exact Emitted.every_loadTy.mpr (meets_slot b hA hslot)
  obtain ⟨rfl, rfl⟩ := Prod.mk.inj (Except.ok.inj ((loadTy_slot wf hl hb hf).symm.trans hload))
  refine every_bind.mpr ⟨Emitted.every_loadI64.mpr (meets_i64 b hA htc hcount), fun n h₂ hn => ?_⟩
  obtain ⟨rfl, rfl⟩ := Prod.mk.inj (Except.ok.inj ((loadI64_slot wf hl hb hc htc).symm.trans hn))
  split
  · next hidx =>
    obtain ⟨d, hp⟩ := (harrays f hf hr).base_of_lt hidx
    have hitem := meets_item (b := d) hA helem idx
    rw [← hp] at hitem
    exact every_bind.mpr ⟨Emitted.every_loadTy.mpr hitem, fun _ h₃ _ =>
      every_bind.mpr ⟨Emitted.every_storeTy.mpr (Or.inr hout), fun _ _ _ => every_pure _⟩⟩
  · exact every_pure _

/-- `set_S_f_item` -/
theorem aligned_getItemSetter (hf : f ∈ S.fields) (hr : f.isRepeated = true)
    (hslot : E.layout.SlotAligned S f) (hcount : E.layout.SlotAligned S (S.countOf f))
    (helem : E.layout.getABITypeAlignment f.elem ∣ 16) : E.AlwaysAligned S (.setItem f) := by
  rintro h b idx ValToSet ⟨blk, hl, hb, harrays⟩
  obtain ⟨ht, -, -, -, hd, hc, -⟩ := wf.array_spec hf hr
  have hpt := wf.pointee hf hr
  have htc := wf.countOf_type hf hr
  unfold Emitted.getItemSetter
  rw [hpt, hd]
  refine Emitted.every_insertNullCheck (every_bind.mpr ⟨?_, fun v h₁ hload => ?_⟩)
  · exact Emitted.every_loadTy.mpr (meets_slot b hA hslot)
  obtain ⟨rfl, rfl⟩ := Prod.mk.inj (Except.ok.inj ((loadTy_slot wf hl hb hf).symm.trans hload))
  refine every_bind.mpr ⟨Emitted.every_loadI64.mpr (meets_i64 b hA htc hcount), fun n h₂ hn => ?_⟩
  obtain ⟨rfl, rfl⟩ := Prod.mk.inj (Except.ok.inj ((loadI64_slot wf hl hb hc htc).symm.trans hn))
  split
  · next hidx =>
    obtain ⟨d, hp⟩ := (harrays f hf hr).base_of_lt hidx
    have hitem := meets_item (b := d) hA helem idx
    rw [← hp] at hitem
    exact every_bind.mpr ⟨Emitted.every_storeTy.mpr hitem, fun _ _ _ => every_pure _⟩
  · exact every_pure _

/-! ## Setters -/

/-- The end of the array setter. -/
theorem aligned_sizeIsRight (hf : f ∈ S.fields) (hr : f.isRepeated = true)
    (hslot : E.layout.SlotAligned S f) (hcount : E.layout.SlotAligned S (S.countOf f))
    {src q : Ptr} (hsrc : E.Meets ⟨src, E.layout.getABITypeAlignment f.type⟩) (hq : q.IsStart)
    (n : I64) : Every E.Meets (Emitted.sizeIsRight E S f (S.countOf f) (.base b) src n q) h := by
  have htc := wf.countOf_type hf hr
  unfold Emitted.sizeIsRight
  refine every_bind.mpr ⟨Emitted.every_storeI64.mpr (meets_i64 b hA htc hcount), fun _ h₁ _ => ?_⟩
  refine every_bind.mpr ⟨every_sizeOf wf hA hf fun _ => hcount, fun size h₂ _ => ?_⟩
  refine every_bind.mpr ⟨?_, fun _ h₃ _ => ?_⟩
  · exact Emitted.every_memcpy.mpr ⟨meets_start hA hslot.1 hq, hsrc⟩
  · exact every_bind.mpr ⟨Emitted.every_storeTy.mpr (meets_slot b hA hslot),
      fun _ _ _ => every_pure _⟩

/-- `set_S_f` of an array -/
theorem aligned_setRepeated (hf : f ∈ S.fields) (hr : f.isRepeated = true) {blk : Block}
    (hl : h.block? b = some blk) (hb : E.Holds S blk) (harr : E.ArrayOk S h blk f)
    (hslot : E.layout.SlotAligned S f) (hcount : E.layout.SlotAligned S (S.countOf f))
    {src : Ptr} (hsrc : E.Meets ⟨src, E.layout.getABITypeAlignment f.type⟩) (n : I64) :
    Every E.Meets (Emitted.setRepeated E S f (S.countOf f) (.base b) src n) h := by
  have htc := wf.countOf_type hf hr
  have hlast : ∀ {q : Ptr} {h' : Heap}, q.IsStart → Every E.Meets
      (Emitted.sizeIsRight E S f (S.countOf f) (.base b) src n q) h' := fun hq =>
    aligned_sizeIsRight wf hA hf hr hslot hcount hsrc hq n
  unfold Emitted.setRepeated
  refine every_bind.mpr ⟨Emitted.every_loadTy.mpr (meets_slot b hA hslot), fun v h₁ hload => ?_⟩
  obtain ⟨rfl, rfl⟩ := Prod.mk.inj (Except.ok.inj ((loadTy_slot wf hl hb hf).symm.trans hload))
  split
  · refine every_bind.mpr ⟨Emitted.every_loadI64.mpr (meets_i64 b hA htc hcount), fun m h₂ _ => ?_⟩
    split
    · exact hlast harr.isStart
    · refine every_bind.mpr
        ⟨Emitted.every_storeI64.mpr (meets_i64 b hA htc hcount), fun _ h₃ _ => ?_⟩
      refine every_bind.mpr ⟨every_sizeOf wf hA hf fun _ => hcount, fun size h₄ _ => ?_⟩
      exact every_quiet_bind.mpr fun q h₅ hq =>
        Emitted.every_insertNullCheck (hlast (realloc_isStart hq))
  · refine every_bind.mpr
      ⟨Emitted.every_storeI64.mpr (meets_i64 b hA htc hcount), fun _ h₃ _ => ?_⟩
    refine every_bind.mpr ⟨every_sizeOf wf hA hf fun _ => hcount, fun size h₄ _ => ?_⟩
    exact every_quiet_bind.mpr fun q h₅ hq =>
      Emitted.every_insertNullCheck (hlast (malloc_isStart hq))

/-- `set_S_f` of a count -/
theorem aligned_setCount (hf : f ∈ S.fields) (hr : f.isRepeated = true)
    (hslot : E.layout.SlotAligned S f) (hcount : E.layout.SlotAligned S (S.countOf f)) (n : I64) :
    Every E.Meets (Emitted.setCount E S (S.countOf f) f (.base b) n) h := by
  have hword := meets_i64 b hA (wf.countOf_type hf hr) hcount
  unfold Emitted.setCount
  split
  · exact every_pure _
  refine every_bind.mpr ⟨Emitted.every_loadI64.mpr hword, fun old h₁ _ => ?_⟩
  refine every_bind.mpr ⟨Emitted.every_storeI64.mpr hword, fun _ h₂ _ => ?_⟩
  refine every_bind.mpr ⟨Emitted.every_loadTy.mpr (meets_slot b hA hslot), fun v h₃ _ => ?_⟩
  refine every_bind.mpr ⟨every_sizeOf wf hA hf fun _ => hcount, fun size h₄ _ => ?_⟩
  refine every_quiet_bind.mpr fun q h₅ _ => ?_
  refine every_bind.mpr ⟨Emitted.every_storeI64.mpr hword, fun _ h₆ _ => ?_⟩
  refine Emitted.every_insertNullCheck (every_bind.mpr ⟨?_, fun _ h₇ _ => ?_⟩)
  · exact Emitted.every_storeTy.mpr (meets_slot b hA hslot)
  · exact every_bind.mpr ⟨Emitted.every_storeI64.mpr hword, fun _ _ _ => every_pure _⟩

/-- `set_S_f` -/
theorem aligned_getSetter (hf : f ∈ S.fields) (hns : f.isStruct = false)
    (hslot : E.layout.SlotAligned S f)
    (harray : f.isRepeated = true → E.layout.SlotAligned S (S.countOf f) ∧
      E.layout.getABITypeAlignment f.type ∣ E.layout.getABITypeAlignment f.elem)
    (hcounts : ∀ r ∈ S.fields, r.isRepeated = true → S.countOf r = f → E.layout.SlotAligned S r) :
    E.AlwaysAligned S (.set f) := by
  rintro h b ToInsert n ⟨blk, hl, hb, harrays⟩ hsrc
  unfold Emitted.getSetter
  refine Emitted.every_insertNullCheck ?_
  rw [if_neg (by simp [hns])]
  split
  · next hr =>
    obtain ⟨-, -, -, -, hd, -⟩ := wf.array_spec hf hr
    obtain ⟨hcount, helem⟩ := harray hr
    rw [hd]
    exact aligned_setRepeated wf hA hf hr hl hb (harrays f hf hr) hslot hcount
      (Or.inr (Nat.dvd_trans helem (hsrc hr).1)) n
  · split
    · next hc =>
      obtain ⟨-, -, -, r, hrm, hr, hd, hco⟩ := wf.count_spec hf hc
      rw [hd, ← hco]
      exact aligned_setCount wf hA hrm hr (hcounts r hrm hr hco) (hco ▸ hslot) _
    · exact every_bind.mpr ⟨Emitted.every_storeTy.mpr (meets_slot b hA hslot),
        fun _ _ _ => every_pure _⟩

end Functions

end Env

end Tyr
