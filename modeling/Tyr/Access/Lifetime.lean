import Tyr.Access.Spec

/-
  `create_S` and `destroy_S`.

  `Initialised`: the constructor has given the fields it has come to their first values, each
  immutable array in a block of its own. It reads an array's size from the count stored in
  the struct, so an immutable array must not come before its count (`CountsFirst`).
  `getConstructor_ok`: the struct is complete, or an allocation failed and NULL is returned.
  `getDestructor_ok`: destroying a struct frees its arrays and itself and nothing else.
-/

namespace Tyr

open Prog

/-- Every immutable array comes after its count. -/
def Struct.CountsFirst (S : Struct) : Prop :=
  ∀ f ∈ S.fields, f.isRepeated = true → f.isMutable = false →
    (S.countOf f).offset < f.offset

instance (S : Struct) : Decidable S.CountsFirst := by
  unfold Struct.CountsFirst
  infer_instance

namespace Struct.WellFormed

variable {S : Struct} {f g : Field} {done rest : List Field}

/-- The fields before `f` are those with a smaller offset. -/
theorem mem_of_offset_lt (wf : S.WellFormed) (hs : S.fields = done ++ f :: rest)
    (hg : g ∈ S.fields) (hlt : g.offset < f.offset) : g ∈ done := by
  have hf : f.offset = done.length := by
    have hi : done.length < S.fields.length := by rw [hs]; simp
    have he : S.fields[done.length] = f := by simp [hs]
    rw [← he]
    exact wf.offset_eq _ hi
  obtain ⟨hi, he⟩ := wf.getElem_offset hg
  rw [hf] at hlt
  have he' : S.fields[g.offset]? = some g := by rw [List.getElem?_eq_getElem hi, he]
  rw [hs, List.getElem?_append_left hlt] at he'
  exact List.mem_of_getElem? he'

end Struct.WellFormed

/-- The count passed to the constructor for array `f`. -/
def Struct.countArg (S : Struct) (arg : Field → Val) (f : Field) : I64 :=
  BitVec.ofNat 64 (arg (S.countOf f)).asInt

namespace Env

variable (E : Env) (S : Struct)

/-- Proper arguments of the constructor: numbers for the scalars, and for each array memory
    that holds the elements announced. -/
structure CreateArgs (h : Heap) (arg : Field → Val) : Prop where
  scalar : ∀ f ∈ S.fields, f.isMutable = false → f.isRepeated = false → ∃ v, arg f = .int v
  array : ∀ f ∈ S.fields, f.isMutable = false → f.isRepeated = true →
    E.exactSizeFor f (S.countArg arg f) < 2 ^ 64 ∧
      h.Readable (arg f).asPtr (E.exactSizeFor f (S.countArg arg f))

/-- The constructor, which was called in heap `h₀`, has given the fields in `done` their first
    values. The struct is its first allocation. -/
structure Initialised (h₀ : Heap) (arg : Field → Val) (done : List Field) (h : Heap)
    (blk : Block) : Prop where
  block : h.block? h₀.next = some blk
  holds : E.Holds S blk
  scalar : ∀ f ∈ done, f.isRepeated = false →
    E.slot S blk f = E.encode f.type (if f.isMutable then .int 0 else arg f)
  null : ∀ f ∈ done, f.isRepeated = true → f.isMutable = true → E.ptrAt S blk f = .null
  array : ∀ f ∈ done, f.isRepeated = true → f.isMutable = false → ∃ d arr,
    E.ptrAt S blk f = .base d ∧ h₀.next < d ∧ h.block? d = some arr ∧
      arr.cells = h₀.bytesAt (arg f).asPtr (E.exactSizeFor f (S.countArg arg f))
  apart : ∀ f ∈ done, ∀ g ∈ done, f.isRepeated = true → g.isRepeated = true → f ≠ g →
    ∀ d, E.ptrAt S blk f = .base d → E.ptrAt S blk g ≠ .base d
  other : ∀ x < h₀.next, h.block? x = h₀.block? x

variable {E S} {h₀ h h' : Heap} {arg : Field → Val} {done rest : List Field} {blk : Block}
  {f : Field}

theorem ptrAt_congr {blk' : Block} (he : E.slot S blk' f = E.slot S blk f) :
    E.ptrAt S blk' f = E.ptrAt S blk f := by rw [ptrAt, ptrAt, he]

theorem countAt_congr {blk' : Block} (he : E.slot S blk' f = E.slot S blk f) :
    E.countAt S blk' f = E.countAt S blk f := by rw [countAt, countAt, he]

section Step

variable (wf : S.WellFormed) (hi : E.Initialised S h₀ arg done h blk)
  (hsub : ∀ g ∈ done, g ∈ S.fields) (hf : f ∈ S.fields) (hnew : f ∉ done)
include wf hi hsub hf hnew

/-- The fields initialised before `f` keep their values when `f` is stored. -/
theorem Initialised.put {w : List Cell} (hw : w.length = E.layout.storeSize f.type)
    (hl : h'.block? h₀.next = some (E.put S blk f w))
    (hother : ∀ x < h.next, x ≠ h₀.next → h'.block? x = h.block? x) :
    E.Initialised S h₀ arg done h' (E.put S blk f w) := by
  have hslot : ∀ g ∈ done, E.slot S (E.put S blk f w) g = E.slot S blk g := fun g hg =>
    slot_put_ne wf hi.holds hf (hsub g hg) (fun he => hnew (he ▸ hg)) hw
  exact {
    block := hl
    holds := holds_put hi.holds
    scalar := fun g hg hr => by rw [hslot g hg]; exact hi.scalar g hg hr
    null := fun g hg hr hm => by rw [ptrAt_congr (hslot g hg)]; exact hi.null g hg hr hm
    array := fun g hg hr hm => by
      obtain ⟨d, arr, hp, hlt, hd, hcells⟩ := hi.array g hg hr hm
      refine ⟨d, arr, by rw [ptrAt_congr (hslot g hg), hp], hlt, ?_, hcells⟩
      rw [hother d (Heap.lt_next hd) (Nat.ne_of_gt hlt), hd]
    apart := fun g hg g' hg' hr hr' hne d hp => by
      rw [ptrAt_congr (hslot g' hg')]
      exact hi.apart g hg g' hg' hr hr' hne d (by rwa [ptrAt_congr (hslot g hg)] at hp)
    other := fun x hx => by
      have hlt := Heap.lt_next hi.block
      rw [hother x (by omega) (by omega), hi.other x hx] }

/-- A field of scalar type is initialised. -/
theorem Initialised.snoc_scalar (hs : f.isStruct = false) (hr : f.isRepeated = false)
    {v : Nat} (hv : (if f.isMutable then .int 0 else arg f) = Val.int v) :
    E.Initialised S h₀ arg (done ++ [f])
      (h.update h₀.next (E.put S blk f (E.encode f.type (.int v))))
      (E.put S blk f (E.encode f.type (.int v))) := by
  have hlen : (E.encode f.type (.int v)).length = E.layout.storeSize f.type :=
    length_encode_int E _ _
  have h₁ := hi.put wf hsub hf hnew hlen (Heap.block?_update_self hi.block _)
    (fun x _ hx => Heap.block?_update_ne h hx _)
  have hcase : ∀ {g}, g ∈ done ++ [f] → g.isRepeated = true → g ∈ done := by
    intro g hg hrg
    rcases List.mem_append.mp hg with hg | hg
    · exact hg
    · rw [List.mem_singleton.mp hg, hr] at hrg
      cases hrg
  exact { h₁ with
    scalar := fun g hg hrg => by
      rcases List.mem_append.mp hg with hg | hg
      · exact h₁.scalar g hg hrg
      · obtain rfl := List.mem_singleton.mp hg
        rw [slot_put_self wf hi.holds hf hlen, hv]
    null := fun g hg hrg => h₁.null g (hcase hg hrg) hrg
    array := fun g hg hrg => h₁.array g (hcase hg hrg) hrg
    apart := fun g hg g' hg' hrg hrg' =>
      h₁.apart g (hcase hg hrg) g' (hcase hg' hrg') hrg hrg' }

/-- An array is initialised, to NULL or to the block `d`. -/
theorem Initialised.snoc_array (hr : f.isRepeated = true) {q : Ptr}
    (hlen : (E.encode f.type (.ptr q)).length = E.layout.storeSize f.type)
    (hq : E.decode f.type (E.encode f.type (.ptr q)) = .ptr q)
    (hl : h'.block? h₀.next = some (E.put S blk f (E.encode f.type (.ptr q))))
    (hother : ∀ x < h.next, x ≠ h₀.next → h'.block? x = h.block? x)
    (hnull : f.isMutable = true → q = .null)
    (harr : f.isMutable = false → ∃ d arr, q = .base d ∧ h.next ≤ d ∧ h'.block? d = some arr ∧
      arr.cells = h₀.bytesAt (arg f).asPtr (E.exactSizeFor f (S.countArg arg f))) :
    E.Initialised S h₀ arg (done ++ [f]) h' (E.put S blk f (E.encode f.type (.ptr q))) := by
  have h₁ := hi.put wf hsub hf hnew hlen hl hother
  have hptr : E.ptrAt S (E.put S blk f (E.encode f.type (.ptr q))) f = q := by
    rw [ptrAt, slot_put_self wf hi.holds hf hlen, hq]
    rfl
  -- the blocks of the arrays before `f` were there already
  have hold : ∀ g ∈ done, g.isRepeated = true → ∀ d,
      E.ptrAt S (E.put S blk f (E.encode f.type (.ptr q))) g = .base d → q ≠ .base d := by
    rintro g hg hrg d hp rfl
    cases hm : f.isMutable with
    | true => cases hnull hm
    | false =>
      obtain ⟨d', arr, he, hlt, -⟩ := harr hm
      obtain rfl : d = d' := (Ptr.loc.inj he).1
      have hp₀ : E.ptrAt S blk g = .base d := by
        rw [← hp]
        exact (ptrAt_congr (slot_put_ne wf hi.holds hf (hsub g hg)
          (fun he => hnew (he ▸ hg)) hlen)).symm
      cases hmg : g.isMutable with
      | true =>
        rw [hi.null g hg hrg hmg] at hp₀
        cases hp₀
      | false =>
        obtain ⟨d', arr', hp', -, hd', -⟩ := hi.array g hg hrg hmg
        obtain rfl : d = d' := (Ptr.loc.inj (hp₀.symm.trans hp')).1
        exact absurd (Heap.lt_next hd') (by omega)
  exact { h₁ with
    scalar := fun g hg hrg => by
      rcases List.mem_append.mp hg with hg | hg
      · exact h₁.scalar g hg hrg
      · rw [List.mem_singleton.mp hg, hr] at hrg
        cases hrg
    null := fun g hg hrg hm => by
      rcases List.mem_append.mp hg with hg | hg
      · exact h₁.null g hg hrg hm
      · obtain rfl := List.mem_singleton.mp hg
        rw [hptr, hnull hm]
    array := fun g hg hrg hm => by
      rcases List.mem_append.mp hg with hg | hg
      · exact h₁.array g hg hrg hm
      · obtain rfl := List.mem_singleton.mp hg
        obtain ⟨d, arr, he, hlt, hd, hcells⟩ := harr hm
        have := Heap.lt_next hi.block
        exact ⟨d, arr, by rw [hptr, he], by omega, hd, hcells⟩
    apart := fun g hg g' hg' hrg hrg' hne d hp => by
      rcases List.mem_append.mp hg with hgd | hgd
      · rcases List.mem_append.mp hg' with hgd' | hgd'
        · exact h₁.apart g hgd g' hgd' hrg hrg' hne d hp
        · obtain rfl := List.mem_singleton.mp hgd'
          rw [hptr]
          exact hold g hgd hrg d hp
      · obtain rfl := List.mem_singleton.mp hgd
        rcases List.mem_append.mp hg' with hgd' | hgd'
        · intro hp'
          exact hold g' hgd' hrg' d hp' (by rw [← hptr, hp])
        · exact absurd (List.mem_singleton.mp hgd').symm hne }

/-! ## The constructor -/

omit hsub hnew in
/-- The count of an array is the argument, or 0. -/
theorem Initialised.count (hargs : E.CreateArgs S h₀ arg) (hr : f.isRepeated = true)
    (hcount : S.countOf f ∈ done) :
    E.countAt S blk (S.countOf f) = if f.isMutable then 0 else S.countArg arg f := by
  have hcm := wf.countOf_mem hf hr
  obtain ⟨-, -, -, -, -, -, -, -, hmut, -⟩ := wf.array_spec hf hr
  have hcr : (S.countOf f).isRepeated = false := by
    cases hcr : (S.countOf f).isRepeated with
    | false => rfl
    | true => exact absurd rfl (wf.countOf_ne_array hf hcm hr hcr)
  obtain ⟨v, hv, hn⟩ : ∃ v, (if f.isMutable then .int 0 else arg (S.countOf f)) = Val.int v ∧
      BitVec.ofNat 64 v = if f.isMutable then 0 else S.countArg arg f := by
    cases hm : f.isMutable with
    | true => exact ⟨0, rfl, rfl⟩
    | false =>
      obtain ⟨v, hv⟩ := hargs.scalar _ hcm (by rw [hmut, hm]) hcr
      exact ⟨v, hv, by rw [if_neg Bool.false_ne_true, Struct.countArg, hv]; rfl⟩
  have hslot := hi.scalar _ hcount hcr
  rw [hmut, hv, wf.countOf_type hf hr] at hslot
  have hd := E.decode_i64 (E.slot S blk (S.countOf f))
  rw [hslot, decode_encode_int E rfl] at hd
  apply BitVec.eq_of_toNat_eq
  rw [countAt, hslot, ← Val.int.inj hd, ← hn, BitVec.toNat_ofNat]
  rfl

theorem initField_scalar (flat : S.IsFlat) (hargs : E.CreateArgs S h₀ arg) (Next : Prog Ptr)
    (hr : f.isRepeated = false) :
    ∃ h' blk', E.initField S f (.base h₀.next) (if f.isMutable then .int 0 else arg f) Next h =
      Next h' ∧ E.Initialised S h₀ arg (done ++ [f]) h' blk' := by
  have hs := flat.isStruct f hf
  have hptr := not_pointer wf hf hs hr
  obtain ⟨v, hv⟩ : ∃ v, (if f.isMutable then .int 0 else arg f) = Val.int v := by
    cases hm : f.isMutable with
    | true => exact ⟨0, rfl⟩
    | false => exact hargs.scalar f hf hm hr
  refine ⟨_, _, ?_, hi.snoc_scalar wf hsub hf hnew hs hr hv⟩
  have hstore := store_slot wf hi.block hi.holds hf (length_encode_int E f.type v)
  unfold initField zero
  simp only [hptr, Bool.false_eq_true, if_false]
  cases hm : f.isMutable with
  | true =>
    rw [hm] at hv
    obtain rfl : 0 = v := Val.int.inj hv
    exact bind_of_ok hstore
  | false =>
    rw [hm, if_neg Bool.false_ne_true] at hv
    rw [if_neg Bool.false_ne_true, if_neg Bool.false_ne_true, hv]
    exact bind_of_ok hstore

/-- A mutable array starts as NULL. -/
theorem initField_null (v : Val) (Next : Prog Ptr) (hr : f.isRepeated = true)
    (hm : f.isMutable = true) :
    ∃ h' blk', E.initField S f (.base h₀.next) v Next h = Next h' ∧
      E.Initialised S h₀ arg (done ++ [f]) h' blk' := by
  obtain ⟨ht, -⟩ := wf.array_spec hf hr
  have hlen : (E.encode f.type (.ptr .null)).length = E.layout.storeSize f.type := by
    rw [ht]
    exact length_encode_null E _ _
  refine ⟨_, _, ?_, hi.snoc_array wf hsub hf hnew hr hlen ?_
    (Heap.block?_update_self hi.block _) (fun x _ hx => Heap.block?_update_ne h hx _)
    (fun _ => rfl) (fun hm' => absurd (hm.symm.trans hm') Bool.noConfusion)⟩
  · have hptr : f.type.isPointerTy = true := by rw [ht]; rfl
    unfold initField zero
    simp only [hm, hptr, if_true]
    exact bind_of_ok (store_slot wf hi.block hi.holds hf hlen)
  · rw [ht]
    exact decode_encode_null E _ _

/-- An immutable array gets a copy of the argument, unless there is no memory for it. -/
theorem initField_copy (hargs : E.CreateArgs S h₀ arg) (Next : Prog Ptr)
    (hr : f.isRepeated = true) (hm : f.isMutable = false) (hcount : S.countOf f ∈ done) :
    (∃ h' blk', E.initField S f (.base h₀.next) (arg f) Next h = Next h' ∧
        E.Initialised S h₀ arg (done ++ [f]) h' blk') ∨
      ((∃ t k, E.alloc.succeeds t k = false) ∧
        E.initField S f (.base h₀.next) (arg f) Next h = .ok (.null, h.tick)) := by
  obtain ⟨ht, -⟩ := wf.array_spec hf hr
  obtain ⟨hlt, hread⟩ := hargs.array f hf hm hr
  have hsize := sizeFor_toNat hlt
  have hhead : E.initField S f (.base h₀.next) (arg f) Next h =
      (malloc E.alloc (E.sizeFor f (S.countArg arg f)) >>= fun q =>
        insertNullCheck [q] .null do
          memcpy q (arg f).asPtr (E.sizeFor f (S.countArg arg f))
          E.storeTy f.type (.ptr q) (E.structGEP S (.base h₀.next) f)
          Next) h := by
    have hptr : f.type.isPointerTy = true := by rw [ht]; rfl
    unfold initField
    simp only [hm, hptr, Bool.false_eq_true, if_false, if_true]
    rw [bind_of_ok (getFieldAllocSize_slot wf hi.block hi.holds hf), fieldSizeAt_array hr,
      hi.count wf hf hargs hr hcount, hm, if_neg Bool.false_ne_true]
  cases hsuc : E.alloc.succeeds h.calls (E.sizeFor f (S.countArg arg f)).toNat with
  | false =>
    refine Or.inr ⟨⟨_, _, hsuc⟩, ?_⟩
    rw [hhead, bind_of_ok (malloc_null hsuc), insertNullCheck_null, pure_apply]
  | true =>
    left
    -- what the caller passed is still there
    obtain ⟨hread₁, hby₁⟩ := Heap.readable_extend hread hi.other
    rw [← hsize] at hread₁ hby₁
    set new := E.alloc.fresh h.calls (E.sizeFor f (S.countArg arg f)) with hnewb
    obtain ⟨hread₂, hby₂⟩ := Heap.readable_push hread₁ new
    have hnewlen : new.cells.length = (E.sizeFor f (S.countArg arg f)).toNat :=
      Allocator.length_fresh _ _ _
    have h0 : (0 : I64).toNat = 0 := rfl
    set arr := new.overwrite 0 (h.bytesAt (arg f).asPtr
      (E.sizeFor f (S.countArg arg f)).toNat) with harr
    have hl₂ := Heap.block?_push_of_some hi.block arr
    have hne : h.next ≠ h₀.next := Nat.ne_of_gt (Heap.lt_next hi.block)
    refine ⟨(h.push arr).update h₀.next (E.putPtr S blk f h.next), _, ?_,
      hi.snoc_array wf hsub hf hnew hr (length_ptr_slot wf hf hr h.next) ?_
        (Heap.block?_update_self hl₂ _) (fun x hx hxb => ?_)
        (fun hm' => absurd (hm.symm.trans hm') Bool.noConfusion)
        (fun _ => ⟨h.next, arr, rfl, Nat.le_refl _, ?_, ?_⟩)⟩
    · rw [hhead, bind_of_ok (malloc_ok hsuc), insertNullCheck_loc,
        bind_of_ok (memcpy_ok hread₂ (Heap.block?_push_self h new)
          (by rw [h0, Nat.zero_add, hnewlen])), hby₂, h0, Heap.update_push_next]
      exact bind_of_ok (storePtr_slot wf hl₂ hi.holds hf hr h.next)
    · rw [ht]
      exact decode_encode_loc E _ _ _ _
    · rw [Heap.block?_update_ne _ hxb, Heap.block?_push_of_lt hx]
    · rw [Heap.block?_update_ne _ hne, Heap.block?_push_self]
    · rw [harr, Block.overwrite_all (by rw [Heap.length_bytesAt hread₁, hnewlen]), hby₁, hsize]

end Step

/-- An array that has been initialised is in order. -/
theorem Initialised.arrayOk (wf : S.WellFormed) (hi : E.Initialised S h₀ arg done h blk)
    (hargs : E.CreateArgs S h₀ arg) (hfs : f ∈ S.fields) (hf : f ∈ done)
    (hr : f.isRepeated = true) (hcount : S.countOf f ∈ done) : E.ArrayOk S h blk f := by
  have hc := hi.count wf hfs hargs hr hcount
  cases hm : f.isMutable with
  | true =>
    rw [hm, if_pos rfl] at hc
    exact Or.inl ⟨hi.null f hf hr hm, hc⟩
  | false =>
    rw [hm, if_neg Bool.false_ne_true] at hc
    obtain ⟨d, arr, hp, -, hd, hcells⟩ := hi.array f hf hr hm
    obtain ⟨-, hread⟩ := hargs.array f hfs hm hr
    refine Or.inr ⟨d, arr, hp, hd, ?_⟩
    rw [hc, hcells, Heap.length_bytesAt hread]

/-- The constructor's fields, one after the other. -/
theorem initFields_ok (flat : S.IsFlat) (hcf : S.CountsFirst) (hargs : E.CreateArgs S h₀ arg) :
    ∀ (rest done : List Field) (h : Heap) (blk : Block), S.fields = done ++ rest →
      E.Initialised S h₀ arg done h blk →
      (∃ h' blk', E.initFields S (.base h₀.next) rest ((rest.filter (! ·.isMutable)).map arg) h =
          .ok (.base h₀.next, h') ∧ E.Initialised S h₀ arg S.fields h' blk') ∨
        ((∃ t k, E.alloc.succeeds t k = false) ∧ ∃ h', E.initFields S (.base h₀.next) rest
            ((rest.filter (! ·.isMutable)).map arg) h = .ok (.null, h') ∧
          ∀ x < h₀.next, h'.block? x = h₀.block? x)
  | [], done, h, blk, hs, hi => by
    rw [List.append_nil] at hs
    exact Or.inl ⟨h, blk, rfl, hs ▸ hi⟩
  | f :: rest, done, h, blk, hs, hi => by
    have wf := flat.toWellFormed
    have hf : f ∈ S.fields := by simp [hs]
    have hsub : ∀ g ∈ done, g ∈ S.fields := fun g hg => by simp [hs, hg]
    have hnew : f ∉ done := by
      have hnd := wf.fields_nodup
      rw [hs, List.nodup_append] at hnd
      exact fun hmem => hnd.2.2 f hmem f List.mem_cons_self rfl
    have hs' : S.fields = (done ++ [f]) ++ rest := by simp [hs]
    have hrun : E.initFields S (.base h₀.next) (f :: rest)
        (((f :: rest).filter (! ·.isMutable)).map arg) =
        E.initField S f (.base h₀.next) (if f.isMutable then .int 0 else arg f)
          (E.initFields S (.base h₀.next) rest ((rest.filter (! ·.isMutable)).map arg)) := by
      cases hm : f.isMutable <;> simp [initFields, hm]
    rw [hrun]
    cases hr : f.isRepeated with
    | false =>
      obtain ⟨h₁, blk₁, hstep, hi₁⟩ := initField_scalar wf hi hsub hf hnew flat hargs
        (E.initFields S (.base h₀.next) rest ((rest.filter (! ·.isMutable)).map arg)) hr
      rw [hstep]
      exact initFields_ok flat hcf hargs rest (done ++ [f]) h₁ blk₁ hs' hi₁
    | true =>
      cases hm : f.isMutable with
      | true =>
        obtain ⟨h₁, blk₁, hstep, hi₁⟩ := initField_null wf hi hsub hf hnew (.int 0)
          (E.initFields S (.base h₀.next) rest ((rest.filter (! ·.isMutable)).map arg)) hr hm
        rw [if_pos rfl, hstep]
        exact initFields_ok flat hcf hargs rest (done ++ [f]) h₁ blk₁ hs' hi₁
      | false =>
        have hcount := wf.mem_of_offset_lt hs (wf.countOf_mem hf hr) (hcf f hf hr hm)
        rw [if_neg Bool.false_ne_true]
        rcases initField_copy wf hi hsub hf hnew hargs
          (E.initFields S (.base h₀.next) rest ((rest.filter (! ·.isMutable)).map arg))
          hr hm hcount with ⟨h₁, blk₁, hstep, hi₁⟩ | ⟨hA, hstep⟩
        · rw [hstep]
          exact initFields_ok flat hcf hargs rest (done ++ [f]) h₁ blk₁ hs' hi₁
        · exact Or.inr ⟨hA, _, hstep, fun x hx => by rw [Heap.block?_tick, hi.other x hx]⟩

/-- `create_S` makes a complete struct, or an allocation fails and it returns NULL. -/
theorem getConstructor_ok (flat : S.IsFlat) (hcf : S.CountsFirst)
    (hstruct : E.layout.structSize S.packed S.elements < 2 ^ 64) (hargs : E.CreateArgs S h₀ arg) :
    (∃ h' blk', E.getConstructor S ((S.fields.filter (! ·.isMutable)).map arg) h₀ =
        .ok (.base h₀.next, h') ∧ E.Initialised S h₀ arg S.fields h' blk') ∨
      ((∃ t k, E.alloc.succeeds t k = false) ∧
        ∃ h', E.getConstructor S ((S.fields.filter (! ·.isMutable)).map arg) h₀ =
          .ok (.null, h') ∧ ∀ x < h₀.next, h'.block? x = h₀.block? x) := by
  unfold getConstructor
  cases hsuc : E.alloc.succeeds h₀.calls (E.getStructAllocSize S).toNat with
  | false =>
    refine Or.inr ⟨⟨_, _, hsuc⟩, h₀.tick, ?_, fun x _ => Heap.block?_tick h₀ x⟩
    rw [bind_of_ok (malloc_null hsuc), insertNullCheck_null, pure_apply]
  | true =>
    have hholds : E.Holds S (E.alloc.fresh h₀.calls (E.getStructAllocSize S)) := by
      rw [Holds, Allocator.length_fresh, getStructAllocSize, BitVec.toNat_ofNat,
        Nat.mod_eq_of_lt hstruct]
    have hi : E.Initialised S h₀ arg [] (h₀.push (E.alloc.fresh h₀.calls (E.getStructAllocSize S)))
        (E.alloc.fresh h₀.calls (E.getStructAllocSize S)) :=
      { block := Heap.block?_push_self h₀ _
        holds := hholds
        scalar := fun _ hg => (List.not_mem_nil hg).elim
        null := fun _ hg => (List.not_mem_nil hg).elim
        array := fun _ hg => (List.not_mem_nil hg).elim
        apart := fun _ hg => (List.not_mem_nil hg).elim
        other := fun x hx => Heap.block?_push_of_lt hx _ }
    rw [bind_of_ok (malloc_ok hsuc), insertNullCheck_loc]
    exact initFields_ok flat hcf hargs S.fields [] _ _ rfl hi

/-! ## The destructor -/

/-- Each array of `fs` in struct `b` is NULL or a live block of its own. -/
structure Disposable (E : Env) (S : Struct) (h : Heap) (b : Nat) (blk : Block)
    (fs : List Field) : Prop where
  array : ∀ f ∈ fs, f.isRepeated = true → E.ptrAt S blk f = .null ∨
    ∃ d arr, E.ptrAt S blk f = .base d ∧ d ≠ b ∧ h.block? d = some arr
  apart : ∀ f ∈ fs, ∀ g ∈ fs, f.isRepeated = true → g.isRepeated = true → f ≠ g →
    ∀ d, E.ptrAt S blk f = .base d → E.ptrAt S blk g ≠ .base d

/-- The frees of the fields: each array is freed, everything else stays. -/
theorem destroyFields_ok (flat : S.IsFlat) {b : Nat} (hb : E.Holds S blk) :
    ∀ (fs : List Field) (h : Heap), (∀ f ∈ fs, f ∈ S.fields) → fs.Nodup → h.block? b = some blk →
      Disposable E S h b blk fs →
      ∃ h', E.destroyFields S (.base b) fs h = .ok ((), h') ∧
        (∀ f ∈ fs, f.isRepeated = true → ∀ d, E.ptrAt S blk f = .base d → h'.block? d = none) ∧
        ∀ x, (∀ f ∈ fs, f.isRepeated = true → E.ptrAt S blk f ≠ .base x) →
          h'.block? x = h.block? x
  | [], h, _, _, _, _ => ⟨h, rfl, fun _ hf => (nomatch hf), fun _ _ => rfl⟩
  | f :: fs, h, hm, hnd, hl, hd => by
    have wf := flat.toWellFormed
    have hf := hm f List.mem_cons_self
    have hm' : ∀ g ∈ fs, g ∈ S.fields := fun g hg => hm g (List.mem_cons_of_mem f hg)
    obtain ⟨hnf, hnd'⟩ := List.nodup_cons.mp hnd
    rw [destroyFields]
    -- one free, then the rest in a heap where only that block may be missing
    obtain ⟨h₁, hrun, hgone, hkeep⟩ : ∃ h₁, E.destroyField S f (.base b) h = .ok ((), h₁) ∧
        (f.isRepeated = true → ∀ d, E.ptrAt S blk f = .base d → h₁.block? d = none) ∧
        ∀ x, (f.isRepeated = true → E.ptrAt S blk f ≠ .base x) → h₁.block? x = h.block? x := by
      unfold destroyField
      cases hr : f.isRepeated with
      | false =>
        rw [not_pointer wf hf (flat.isStruct f hf) hr]
        exact ⟨h, rfl, fun hr' => absurd hr' Bool.noConfusion, fun _ _ => rfl⟩
      | true =>
        have hptr : f.type.isPointerTy = true := by rw [(wf.array_spec hf hr).1]; rfl
        rw [if_pos hptr, bind_of_ok (loadTy_slot wf hl hb hf)]
        show ∃ h₁, free (E.ptrAt S blk f) h = _ ∧ _
        rcases hd.array f List.mem_cons_self hr with hp | ⟨d, arr, hp, hdb, hdl⟩
        · rw [hp]
          exact ⟨h, rfl, fun _ d he => (nomatch he), fun _ _ => rfl⟩
        · rw [hp]
          refine ⟨h.kill d, free_ok hdl, fun _ d' he => ?_, fun x hx => ?_⟩
          · obtain rfl : d = d' := (Ptr.loc.inj he).1
            exact Heap.block?_kill_self h d
          · exact Heap.block?_kill_ne h (by rintro rfl; exact hx rfl rfl)
    have hb₁ : h₁.block? b = some blk := by
      rw [hkeep b fun hr hp => ?_, hl]
      rcases hd.array f List.mem_cons_self hr with hn | ⟨d, arr, hp', hdb, -⟩
      · rw [hn] at hp
        cases hp
      · exact hdb (Ptr.loc.inj (hp'.symm.trans hp)).1
    have hdisp : Disposable E S h₁ b blk fs := by
      refine ⟨fun g hg hrg => ?_, fun g hg g' hg' =>
        hd.apart g (List.mem_cons_of_mem f hg) g' (List.mem_cons_of_mem f hg')⟩
      rcases hd.array g (List.mem_cons_of_mem f hg) hrg with hn | ⟨d, arr, hp, hdb, hdl⟩
      · exact Or.inl hn
      · refine Or.inr ⟨d, arr, hp, hdb, ?_⟩
        rw [hkeep d fun hr hpf => hd.apart f List.mem_cons_self g (List.mem_cons_of_mem f hg)
          hr hrg (fun he => hnf (he ▸ hg)) d hpf hp, hdl]
    obtain ⟨h', hrun', hgone', hkeep'⟩ := destroyFields_ok flat hb fs h₁ hm' hnd' hb₁ hdisp
    refine ⟨h', (bind_of_ok hrun).trans hrun', fun g hg hrg d hp => ?_, fun x hx => ?_⟩
    · rcases List.mem_cons.mp hg with rfl | hg
      · rw [hkeep' d fun g' hg' hrg' => hd.apart g List.mem_cons_self g'
          (List.mem_cons_of_mem g hg') hrg hrg' (fun he => hnf (he ▸ hg')) d hp]
        exact hgone hrg d hp
      · exact hgone' g hg hrg d hp
    · rw [hkeep' x fun g hg => hx g (List.mem_cons_of_mem f hg), hkeep x (hx f List.mem_cons_self)]

/-- `destroy_S` frees the arrays and the struct and nothing else. -/
theorem getDestructor_ok (flat : S.IsFlat) {b : Nat} (hl : h.block? b = some blk)
    (hb : E.Holds S blk) (hd : Disposable E S h b blk S.fields) :
    ∃ h', E.getDestructor S (.base b) h = .ok ((), h') ∧ h'.block? b = none ∧
      (∀ f ∈ S.fields, f.isRepeated = true → ∀ d, E.ptrAt S blk f = .base d →
        h'.block? d = none) ∧
      ∀ x ≠ b, (∀ f ∈ S.fields, f.isRepeated = true → E.ptrAt S blk f ≠ .base x) →
        h'.block? x = h.block? x := by
  obtain ⟨h₁, hrun, hgone, hkeep⟩ := destroyFields_ok flat hb S.fields h (fun _ hf => hf)
    flat.toWellFormed.fields_nodup hl hd
  have hne : ∀ f ∈ S.fields, f.isRepeated = true → ∀ d, E.ptrAt S blk f = .base d → d ≠ b := by
    intro f hf hr d hp
    rcases hd.array f hf hr with hn | ⟨d', arr, hp', hdb, -⟩
    · rw [hn] at hp
      cases hp
    · rw [(Ptr.loc.inj (hp.symm.trans hp')).1]
      exact hdb
  have hl₁ : h₁.block? b = some blk := by
    rw [hkeep b fun f hf hr hp => hne f hf hr b hp rfl, hl]
  refine ⟨h₁.kill b, (bind_of_ok hrun).trans (free_ok hl₁), Heap.block?_kill_self _ _,
    fun f hf hr d hp => ?_, fun x hx hfs => ?_⟩
  · rw [Heap.block?_kill_ne _ (hne f hf hr d hp), hgone f hf hr d hp]
  · rw [Heap.block?_kill_ne _ hx, hkeep x hfs]

end Env

end Tyr
