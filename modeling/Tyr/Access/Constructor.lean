import Tyr.Access.Lifetime
import Tyr.CodeGen.Target

/-
  `create_S` for any order of the fields.

  An immutable array is sized by the count stored in the struct when its turn comes. Where the
  count field comes later, that is what `malloc` left in its slot (`countSeen`).
  `Constructed` is the state between two fields, `initField_array` the step for an array, and
  `initFields_made`, `initFields_null_iff` the two normal ends of a whole run.
-/

namespace Tyr

open Prog

namespace Struct.WellFormed

variable {S : Struct} {f g : Field} {done rest : List Field}

/-- A field among the others. -/
theorem mem_of_split (wf : S.WellFormed) (hs : S.fields = done ++ f :: rest) :
    f ∈ S.fields ∧ f ∉ done ∧ ∀ g ∈ done, g ∈ S.fields := by
  have hnd := wf.fields_nodup
  rw [hs, List.nodup_append] at hnd
  refine ⟨by simp [hs], fun hmem => hnd.2.2 f hmem f List.mem_cons_self rfl, ?_⟩
  intro g hg
  simp [hs, hg]

theorem offset_lt_of_mem (wf : S.WellFormed) (hs : S.fields = done ++ f :: rest)
    (hg : g ∈ done) : g.offset < f.offset := by
  have hf : f.offset = done.length := by
    have hi : done.length < S.fields.length := by rw [hs]; simp
    have he : S.fields[done.length] = f := by simp [hs]
    rw [← he]
    exact wf.offset_eq _ hi
  obtain ⟨i, hi, rfl⟩ := List.getElem_of_mem hg
  have hi' : i < S.fields.length := by rw [hs, List.length_append]; omega
  have he : S.fields[i] = done[i] := by simp only [hs, List.getElem_append_left hi]
  rw [← he, wf.offset_eq i hi', hf]
  exact hi

end Struct.WellFormed

instance (h : Heap) (src : Ptr) (n : Nat) : Decidable (h.Readable src n) :=
  inferInstanceAs (Decidable (_ ∨ _))

namespace Env

variable (E : Env) (S : Struct)

/-- The count that sizes array `f`. `new` is the struct as `malloc` returned it. -/
def countSeen (new : Block) (arg : Field → Val) (f : Field) : I64 :=
  if (S.countOf f).offset < f.offset then S.countArg arg f else E.countAt S new (S.countOf f)

/-- The size of the block for array `f`. -/
def sizeSeen (new : Block) (arg : Field → Val) (f : Field) : I64 :=
  E.sizeFor f (E.countSeen S new arg f)

/-- Numbers for the scalars. -/
def ScalarArgs (arg : Field → Val) : Prop :=
  ∀ f ∈ S.fields, f.isMutable = false → f.isRepeated = false → ∃ v, arg f = .int v

/-- Arguments of the right types. A pointer may be invalid, but it does not point into a block
    that is yet to be allocated. -/
structure TypedArgs (h : Heap) (arg : Field → Val) : Prop where
  scalar : ScalarArgs S arg
  array : ∀ f ∈ S.fields, f.isMutable = false → f.isRepeated = true →
    ∀ d o, (arg f).asPtr = .loc d o → d < h.next

/-- The constructor, called in heap `h₀`, has come past the fields in `done`. -/
structure Constructed (h₀ : Heap) (new : Block) (arg : Field → Val) (done : List Field) (h : Heap)
    (blk : Block) : Prop where
  block : h.block? h₀.next = some blk
  holds : E.Holds S blk
  scalar : ∀ f ∈ done, f.isRepeated = false →
    E.slot S blk f = E.encode f.type (if f.isMutable then .int 0 else arg f)
  array : ∀ f ∈ done, f.isRepeated = true → f.isMutable = false → ∃ d arr,
    E.ptrAt S blk f = .base d ∧ h₀.next < d ∧ h.block? d = some arr ∧
      arr.cells = h₀.bytesAt (arg f).asPtr (E.sizeSeen S new arg f).toNat
  unset : ∀ f ∈ S.fields, f ∉ done → E.slot S blk f = E.slot S new f
  other : ∀ x < h₀.next, h.block? x = h₀.block? x

/-- An allocation fails, and those for the arrays before it went through. -/
def Refuses (h₀ : Heap) (new : Block) (arg : Field → Val) : List Field → Nat → Prop
  | [], _ => False
  | f :: fs, call =>
    if f.isRepeated && !f.isMutable then
      E.alloc.succeeds call (E.sizeSeen S new arg f).toNat = false ∨
        h₀.Readable (arg f).asPtr (E.sizeSeen S new arg f).toNat ∧
          Refuses h₀ new arg fs (call + 1)
    else Refuses h₀ new arg fs call

variable {E S} {h₀ h h' : Heap} {new blk : Block} {arg : Field → Val} {done rest : List Field}
  {f : Field}

section Step

variable (wf : S.WellFormed) (hp : E.Constructed S h₀ new arg done h blk)
  (hs : S.fields = done ++ f :: rest)
include wf hp hs

/-- The count in the struct is the one seen. -/
theorem Constructed.seen (hargs : ScalarArgs S arg) (hr : f.isRepeated = true)
    (hm : f.isMutable = false) :
    E.countAt S blk (S.countOf f) = E.countSeen S new arg f := by
  obtain ⟨hf, -, -⟩ := wf.mem_of_split hs
  have hcm := wf.countOf_mem hf hr
  obtain ⟨-, -, -, -, -, -, -, -, hmut, -⟩ := wf.array_spec hf hr
  unfold countSeen
  split
  · next hlt =>
    have hcount := wf.mem_of_offset_lt hs hcm hlt
    have hcr : (S.countOf f).isRepeated = false :=
      (wf.count_spec hcm (wf.array_spec hf hr).2.2.2.2.2.2.1).2.2.1
    obtain ⟨v, hv⟩ := hargs _ hcm (by rw [hmut, hm]) hcr
    have hslot := hp.scalar _ hcount hcr
    rw [hmut, hm, if_neg Bool.false_ne_true, hv, wf.countOf_type hf hr] at hslot
    have hd := E.decode_i64 (E.slot S blk (S.countOf f))
    rw [hslot, decode_encode_int E rfl] at hd
    apply BitVec.eq_of_toNat_eq
    rw [countAt, hslot, ← Val.int.inj hd, Struct.countArg, hv, BitVec.toNat_ofNat]
    rfl
  · next hlt =>
    have hnot : S.countOf f ∉ done := fun hmem => hlt (wf.offset_lt_of_mem hs hmem)
    exact countAt_congr (hp.unset _ hcm hnot)

/-- The fields before `f` keep their values when `f` is stored. -/
theorem Constructed.put {w : List Cell} (hw : w.length = E.layout.storeSize f.type)
    (hl : h'.block? h₀.next = some (E.put S blk f w))
    (hother : ∀ x < h.next, x ≠ h₀.next → h'.block? x = h.block? x)
    (hscalar : f.isRepeated = false → w = E.encode f.type (if f.isMutable then .int 0 else arg f))
    (harray : f.isRepeated = true → f.isMutable = false → ∃ d arr,
      E.ptrAt S (E.put S blk f w) f = .base d ∧ h₀.next < d ∧ h'.block? d = some arr ∧
        arr.cells = h₀.bytesAt (arg f).asPtr (E.sizeSeen S new arg f).toNat) :
    E.Constructed S h₀ new arg (done ++ [f]) h' (E.put S blk f w) := by
  obtain ⟨hf, hnew, hsub⟩ := wf.mem_of_split hs
  have hslot : ∀ g ∈ done, E.slot S (E.put S blk f w) g = E.slot S blk g := fun g hg =>
    slot_put_ne wf hp.holds hf (hsub g hg) (fun he => hnew (he ▸ hg)) hw
  exact {
    block := hl
    holds := holds_put hp.holds
    scalar := fun g hg hr => by
      rcases List.mem_append.mp hg with hg | hg
      · rw [hslot g hg]
        exact hp.scalar g hg hr
      · obtain rfl := List.mem_singleton.mp hg
        rw [slot_put_self wf hp.holds hf hw, hscalar hr]
    array := fun g hg hr hm => by
      rcases List.mem_append.mp hg with hg | hg
      · obtain ⟨d, arr, hptr, hlt, hd, hcells⟩ := hp.array g hg hr hm
        refine ⟨d, arr, by rw [ptrAt_congr (hslot g hg), hptr], hlt, ?_, hcells⟩
        rw [hother d (Heap.lt_next hd) (Nat.ne_of_gt hlt), hd]
      · obtain rfl := List.mem_singleton.mp hg
        exact harray hr hm
    unset := fun g hg hnot => by
      rw [List.mem_append, List.mem_singleton, not_or] at hnot
      rw [slot_put_ne wf hp.holds hf hg hnot.2 hw]
      exact hp.unset g hg hnot.1
    other := fun x hx => by
      have hlt := Heap.lt_next hp.block
      rw [hother x (by omega) (by omega), hp.other x hx] }

/-- A field without a block of its own: a scalar, or a mutable array, which starts as NULL. -/
theorem initField_plain (flat : S.IsFlat) (hargs : ScalarArgs S arg) (Next : Prog Ptr)
    (hplain : (f.isRepeated && !f.isMutable) = false) :
    ∃ h' blk', E.initField S f (.base h₀.next) (if f.isMutable then .int 0 else arg f) Next h =
      Next h' ∧ E.Constructed S h₀ new arg (done ++ [f]) h' blk' ∧ h'.calls = h.calls := by
  obtain ⟨hf, -, -⟩ := wf.mem_of_split hs
  have hkeep : ∀ blk', (h.update h₀.next blk').block? h₀.next = some blk' ∧
      ∀ x < h.next, x ≠ h₀.next → (h.update h₀.next blk').block? x = h.block? x := fun blk' =>
    ⟨Heap.block?_update_self hp.block _, fun x _ hx => Heap.block?_update_ne h hx _⟩
  cases hr : f.isRepeated with
  | true =>
    have hm : f.isMutable = true := by
      rw [hr, Bool.true_and, Bool.not_eq_false'] at hplain
      exact hplain
    obtain ⟨ht, -⟩ := wf.array_spec hf hr
    have hptr : f.type.isPointerTy = true := by rw [ht]; rfl
    have hlen : (E.encode f.type (.ptr .null)).length = E.layout.storeSize f.type := by
      rw [ht]
      exact length_encode_null E _ _
    refine ⟨_, _, ?_, hp.put wf hs hlen (hkeep _).1 (hkeep _).2
      (fun hr' => absurd (hr.symm.trans hr') Bool.noConfusion)
      (fun _ hm' => absurd (hm.symm.trans hm') Bool.noConfusion), Heap.calls_update _ _ _⟩
    unfold initField zero
    simp only [hm, hptr, if_true]
    exact bind_of_ok (store_slot wf hp.block hp.holds hf hlen)
  | false =>
    have hptr := not_pointer wf hf (flat.isStruct f hf) hr
    obtain ⟨v, hv⟩ : ∃ v, (if f.isMutable then .int 0 else arg f) = Val.int v := by
      cases hm : f.isMutable with
      | true => exact ⟨0, rfl⟩
      | false => exact hargs f hf hm hr
    have hstore := store_slot wf hp.block hp.holds hf (length_encode_int E f.type v)
    refine ⟨_, _, ?_, hp.put wf hs (length_encode_int E f.type v) (hkeep _).1 (hkeep _).2
      (fun _ => by rw [hv]) (fun hr' => absurd (hr.symm.trans hr') Bool.noConfusion),
      Heap.calls_update _ _ _⟩
    unfold initField zero
    simp only [hptr, Bool.false_eq_true, if_false]
    cases hm : f.isMutable with
    | true =>
      rw [hm] at hv
      obtain rfl : 0 = v := Val.int.inj hv
      exact bind_of_ok hstore
    | false =>
      rw [hm, if_neg Bool.false_ne_true] at hv
      rw [if_neg Bool.false_ne_true, if_neg Bool.false_ne_true, hv]
      exact bind_of_ok hstore

/-- An immutable array up to its allocation. -/
theorem initField_array (hargs : ScalarArgs S arg) (Next : Prog Ptr)
    (hr : f.isRepeated = true) (hm : f.isMutable = false) :
    E.initField S f (.base h₀.next) (arg f) Next h =
      (malloc E.alloc (E.sizeSeen S new arg f) >>= fun q =>
        insertNullCheck [q] .null do
          memcpy q (arg f).asPtr (E.sizeSeen S new arg f)
          E.storeTy f.type (.ptr q) (E.structGEP S (.base h₀.next) f)
          Next) h := by
  obtain ⟨hf, -, -⟩ := wf.mem_of_split hs
  have hptr : f.type.isPointerTy = true := by rw [(wf.array_spec hf hr).1]; rfl
  unfold initField
  simp only [hm, hptr, Bool.false_eq_true, if_false, if_true]
  rw [bind_of_ok (getFieldAllocSize_slot wf hp.block hp.holds hf), fieldSizeAt_array hr,
    hp.seen wf hs hargs hr hm]
  rfl

theorem initField_array_null (hargs : ScalarArgs S arg) (Next : Prog Ptr)
    (hr : f.isRepeated = true) (hm : f.isMutable = false)
    (hA : E.alloc.succeeds h.calls (E.sizeSeen S new arg f).toNat = false) :
    E.initField S f (.base h₀.next) (arg f) Next h = .ok (.null, h.tick) := by
  rw [initField_array wf hp hs hargs Next hr hm, bind_of_ok (malloc_null hA),
    insertNullCheck_null, pure_apply]

theorem initField_array_ok (hargs : ScalarArgs S arg) (Next : Prog Ptr)
    (hr : f.isRepeated = true) (hm : f.isMutable = false)
    (hA : E.alloc.succeeds h.calls (E.sizeSeen S new arg f).toNat = true)
    (hread : h₀.Readable (arg f).asPtr (E.sizeSeen S new arg f).toNat) :
    ∃ h' blk', E.initField S f (.base h₀.next) (arg f) Next h = Next h' ∧
      E.Constructed S h₀ new arg (done ++ [f]) h' blk' ∧ h'.calls = h.calls + 1 := by
  obtain ⟨hf, -, -⟩ := wf.mem_of_split hs
  rw [initField_array wf hp hs hargs Next hr hm]
  set size := E.sizeSeen S new arg f with hsize
  -- what the caller passed is still there
  obtain ⟨hread₁, hby₁⟩ := Heap.readable_extend hread hp.other
  set fresh := E.alloc.fresh h.calls size with hfresh
  obtain ⟨hread₂, hby₂⟩ := Heap.readable_push hread₁ fresh
  have hlen : fresh.cells.length = size.toNat := Allocator.length_fresh _ _ _
  have h0 : (0 : I64).toNat = 0 := rfl
  set arr := fresh.overwrite 0 (h.bytesAt (arg f).asPtr size.toNat) with harr
  have hl₂ := Heap.block?_push_of_some hp.block arr
  have hlt := Heap.lt_next hp.block
  refine ⟨(h.push arr).update h₀.next (E.putPtr S blk f h.next), _, ?_,
    hp.put wf hs (length_ptr_slot wf hf hr h.next) (Heap.block?_update_self hl₂ _)
      (fun x hx hxb => ?_) (fun hr' => absurd (hr.symm.trans hr') Bool.noConfusion)
      (fun _ _ => ⟨h.next, arr, ?_, hlt, ?_, ?_⟩), rfl⟩
  · rw [bind_of_ok (malloc_ok hA), insertNullCheck_loc,
      bind_of_ok (memcpy_ok hread₂ (Heap.block?_push_self h fresh)
        (by rw [h0, Nat.zero_add, hlen])), hby₂, h0, Heap.update_push_next]
    exact bind_of_ok (storePtr_slot wf hl₂ hp.holds hf hr h.next)
  · rw [Heap.block?_update_ne _ hxb, Heap.block?_push_of_lt hx]
  · exact ptrAt_putPtr wf hf hr hp.holds h.next
  · rw [Heap.block?_update_ne _ (Nat.ne_of_gt hlt), Heap.block?_push_self]
  · rw [harr, Block.overwrite_all (by rw [Heap.length_bytesAt hread₁, hlen]), hby₁]

theorem initField_array_fault (hargs : TypedArgs S h₀ arg) (Next : Prog Ptr)
    (hr : f.isRepeated = true) (hm : f.isMutable = false)
    (hA : E.alloc.succeeds h.calls (E.sizeSeen S new arg f).toNat = true)
    (hread : ¬ h₀.Readable (arg f).asPtr (E.sizeSeen S new arg f).toNat) :
    E.initField S f (.base h₀.next) (arg f) Next h = .error .access := by
  obtain ⟨hf, -, -⟩ := wf.mem_of_split hs
  rw [initField_array wf hp hs hargs.scalar Next hr hm, bind_of_ok (malloc_ok hA),
    insertNullCheck_loc]
  unfold Heap.Readable at hread
  rw [not_or, Option.not_isSome_iff_eq_none] at hread
  refine bind_of_error (memcpy_fault (fun hz => hread.1 (by rw [hz]; rfl)) ?_)
  rw [← hread.2]
  cases hsrc : (arg f).asPtr with
  | null => rfl
  | wild raw => rfl
  | loc d o =>
    have hd := hargs.array f hf hm hr d o hsrc
    have hlt := Heap.lt_next hp.block
    exact Heap.read_congr (by rw [Heap.block?_push_of_lt (by omega), hp.other d hd]) o _

end Step

/-! ## All fields -/

theorem initFields_cons (E : Env) (S : Struct) (arg : Field → Val) (f : Field)
    (rest : List Field) (Self : Ptr) :
    E.initFields S Self (f :: rest) (((f :: rest).filter (! ·.isMutable)).map arg) =
      E.initField S f Self (if f.isMutable then .int 0 else arg f)
        (E.initFields S Self rest ((rest.filter (! ·.isMutable)).map arg)) := by
  cases hm : f.isMutable <;> simp [initFields, hm]

section Loop

variable (flat : S.IsFlat)
include flat

/-- When every allocation goes through and every argument can be read, all fields are set. -/
theorem initFields_made (hargs : ScalarArgs S arg)
    (hA : ∀ t n, E.alloc.succeeds t n = true)
    (hread : ∀ f ∈ S.fields, f.isRepeated = true → f.isMutable = false →
      h₀.Readable (arg f).asPtr (E.sizeSeen S new arg f).toNat) :
    ∀ (rest done : List Field) (h : Heap) (blk : Block), S.fields = done ++ rest →
      E.Constructed S h₀ new arg done h blk →
      ∃ h' blk', E.initFields S (.base h₀.next) rest
          ((rest.filter (! ·.isMutable)).map arg) h = .ok (.base h₀.next, h') ∧
        E.Constructed S h₀ new arg S.fields h' blk' := by
  intro rest
  induction rest with
  | nil =>
    intro done h blk hs hp
    rw [List.append_nil] at hs
    exact ⟨h, blk, rfl, hs ▸ hp⟩
  | cons f rest ih =>
    intro done h blk hs hp
    have wf := flat.toWellFormed
    have hs' : S.fields = (done ++ [f]) ++ rest := by simp [hs]
    rw [initFields_cons]
    cases hplain : f.isRepeated && !f.isMutable with
    | false =>
      obtain ⟨h₁, blk₁, hstep, hp₁, -⟩ := initField_plain wf hp hs flat hargs
        (E.initFields S (.base h₀.next) rest ((rest.filter (! ·.isMutable)).map arg)) hplain
      rw [hstep]
      exact ih (done ++ [f]) h₁ blk₁ hs' hp₁
    | true =>
      rw [Bool.and_eq_true, Bool.not_eq_true'] at hplain
      obtain ⟨hr, hm⟩ := hplain
      obtain ⟨h₁, blk₁, hstep, hp₁, -⟩ := initField_array_ok wf hp hs hargs
        (E.initFields S (.base h₀.next) rest ((rest.filter (! ·.isMutable)).map arg)) hr hm
        (hA _ _) (hread f (wf.mem_of_split hs).1 hr hm)
      rw [hm, if_neg Bool.false_ne_true, hstep]
      exact ih (done ++ [f]) h₁ blk₁ hs' hp₁

/-- NULL is returned exactly when an allocation fails first. -/
theorem initFields_null_iff (hargs : TypedArgs S h₀ arg) :
    ∀ (rest done : List Field) (h : Heap) (blk : Block), S.fields = done ++ rest →
      E.Constructed S h₀ new arg done h blk →
      ((∃ h', E.initFields S (.base h₀.next) rest
          ((rest.filter (! ·.isMutable)).map arg) h = .ok (.null, h')) ↔
        E.Refuses S h₀ new arg rest h.calls) := by
  intro rest
  induction rest with
  | nil =>
    intro done h blk hs hp
    refine ⟨?_, False.elim⟩
    intro ⟨h', hrun⟩
    cases hrun
  | cons f rest ih =>
    intro done h blk hs hp
    have wf := flat.toWellFormed
    have hs' : S.fields = (done ++ [f]) ++ rest := by simp [hs]
    rw [initFields_cons, Refuses]
    set Next := E.initFields S (.base h₀.next) rest ((rest.filter (! ·.isMutable)).map arg)
      with hnext
    cases hplain : f.isRepeated && !f.isMutable with
    | false =>
      obtain ⟨h₁, blk₁, hstep, hp₁, hcalls⟩ :=
        initField_plain wf hp hs flat hargs.scalar Next hplain
      rw [hstep, if_neg Bool.false_ne_true, ← hcalls]
      exact ih (done ++ [f]) h₁ blk₁ hs' hp₁
    | true =>
      rw [Bool.and_eq_true, Bool.not_eq_true'] at hplain
      obtain ⟨hr, hm⟩ := hplain
      rw [if_pos rfl, hm, if_neg Bool.false_ne_true]
      cases hA : E.alloc.succeeds h.calls (E.sizeSeen S new arg f).toNat with
      | false =>
        refine ⟨fun _ => Or.inl rfl, fun _ => ⟨h.tick, ?_⟩⟩
        exact initField_array_null wf hp hs hargs.scalar Next hr hm hA
      | true =>
        have hnot : ¬ (true = false) := Bool.noConfusion
        rw [or_iff_right hnot]
        by_cases hread : h₀.Readable (arg f).asPtr (E.sizeSeen S new arg f).toNat
        · obtain ⟨h₁, blk₁, hstep, hp₁, hcalls⟩ :=
            initField_array_ok wf hp hs hargs.scalar Next hr hm hA hread
          rw [hstep, and_iff_right hread, ← hcalls]
          exact ih (done ++ [f]) h₁ blk₁ hs' hp₁
        · rw [initField_array_fault wf hp hs hargs Next hr hm hA hread]
          refine ⟨?_, fun h => absurd h.1 hread⟩
          intro ⟨h', hrun⟩
          cases hrun

end Loop

/-! ## The whole constructor -/

/-- The struct as `malloc` returns it. -/
abbrev newStruct (E : Env) (S : Struct) (h : Heap) : Block :=
  E.alloc.fresh h.calls (E.getStructAllocSize S)

theorem Constructed.start (hstruct : E.layout.structSize S.packed S.elements < 2 ^ 64) :
    E.Constructed S h₀ (E.newStruct S h₀) arg [] (h₀.push (E.newStruct S h₀))
      (E.newStruct S h₀) where
  block := Heap.block?_push_self h₀ _
  holds := by
    rw [Holds, Allocator.length_fresh, getStructAllocSize, BitVec.toNat_ofNat,
      Nat.mod_eq_of_lt hstruct]
  scalar _ hg := nomatch hg
  array _ hg := nomatch hg
  unset _ _ _ := rfl
  other x hx := Heap.block?_push_of_lt hx _

section Constructor

variable (args : List Val)

theorem getConstructor_unallocated
    (hA : E.alloc.succeeds h₀.calls (E.getStructAllocSize S).toNat = false) :
    E.getConstructor S args h₀ = .ok (.null, h₀.tick) := by
  rw [getConstructor, bind_of_ok (malloc_null hA), insertNullCheck_null, pure_apply]

theorem getConstructor_allocated
    (hA : E.alloc.succeeds h₀.calls (E.getStructAllocSize S).toNat = true) :
    E.getConstructor S args h₀ = E.initFields S (.base h₀.next) S.fields args
      (h₀.push (E.newStruct S h₀)) := by
  rw [getConstructor, bind_of_ok (malloc_ok hA), insertNullCheck_loc]

end Constructor

/-- `create_S` returns NULL exactly when the struct or, before any fault, an array cannot be
    allocated. -/
theorem getConstructor_null_iff (flat : S.IsFlat)
    (hstruct : E.layout.structSize S.packed S.elements < 2 ^ 64) (hargs : TypedArgs S h₀ arg)
    (hA : E.alloc.succeeds h₀.calls (E.getStructAllocSize S).toNat = true) :
    (∃ h', E.getConstructor S ((S.fields.filter (! ·.isMutable)).map arg) h₀ = .ok (.null, h')) ↔
      E.Refuses S h₀ (E.newStruct S h₀) arg S.fields (h₀.calls + 1) := by
  rw [getConstructor_allocated _ hA]
  exact initFields_null_iff flat hargs S.fields [] _ _ rfl (.start hstruct)

/-! ## The copies of the caller's arrays -/

theorem countSeen_of_lt (hlt : (S.countOf f).offset < f.offset) :
    E.countSeen S new arg f = S.countArg arg f := if_pos hlt

/-- The count in a struct whose fields are set is the argument. -/
theorem Constructed.count (wf : S.WellFormed) (hp : E.Constructed S h₀ new arg S.fields h blk)
    (hargs : ScalarArgs S arg) (hf : f ∈ S.fields) (hr : f.isRepeated = true)
    (hm : f.isMutable = false) : E.countAt S blk (S.countOf f) = S.countArg arg f := by
  have hcm := wf.countOf_mem hf hr
  obtain ⟨-, -, -, -, -, -, hcc, -, hmut, -⟩ := wf.array_spec hf hr
  have hcr := (wf.count_spec hcm hcc).2.2.1
  obtain ⟨v, hv⟩ := hargs _ hcm (by rw [hmut, hm]) hcr
  have hslot := hp.scalar _ hcm hcr
  rw [hmut, hm, if_neg Bool.false_ne_true, hv, wf.countOf_type hf hr] at hslot
  have hd := E.decode_i64 (E.slot S blk (S.countOf f))
  rw [hslot, decode_encode_int E rfl] at hd
  apply BitVec.eq_of_toNat_eq
  rw [countAt, hslot, ← Val.int.inj hd, Struct.countArg, hv, BitVec.toNat_ofNat]
  rfl

variable (E S) in
/-- In the struct that `create_S` returned each immutable array has a block that holds exactly
    the elements the caller announced. -/
def ArraysCopied (h₀ : Heap) (arg : Field → Val) (h : Heap) (blk : Block) : Prop :=
  ∀ f ∈ S.fields, f.isRepeated = true → f.isMutable = false →
    E.countAt S blk (S.countOf f) = S.countArg arg f ∧
    ∃ d arr, E.ptrAt S blk f = .base d ∧ h.block? d = some arr ∧
      arr.cells = h₀.bytesAt (arg f).asPtr (E.exactSizeFor f (S.countArg arg f))

theorem sizeSeen_toNat (hcf : S.CountsFirst) (hargs : E.CreateArgs S h₀ arg) (hf : f ∈ S.fields)
    (hr : f.isRepeated = true) (hm : f.isMutable = false) :
    (E.sizeSeen S new arg f).toNat = E.exactSizeFor f (S.countArg arg f) := by
  rw [sizeSeen, countSeen_of_lt (hcf f hf hr hm)]
  exact sizeFor_toNat (hargs.array f hf hm hr).1

theorem Constructed.copied (wf : S.WellFormed) (hcf : S.CountsFirst)
    (hargs : E.CreateArgs S h₀ arg) (hp : E.Constructed S h₀ new arg S.fields h blk) :
    E.ArraysCopied S h₀ arg h blk := by
  intro f hf hr hm
  obtain ⟨d, arr, hptr, -, hd, hcells⟩ := hp.array f hf hr hm
  rw [sizeSeen_toNat hcf hargs hf hr hm] at hcells
  exact ⟨hp.count wf hargs.scalar hf hr hm, d, arr, hptr, hd, hcells⟩

theorem sizeSeen_zero (hn : E.countSeen S new arg f = 0) : (E.sizeSeen S new arg f).toNat = 0 := by
  rw [sizeSeen, hn, sizeFor]
  simp

end Env

/-- So it is for all arguments and whatever new blocks hold. -/
def CopiesArrays (DL : DataLayout) (S : Struct) : Prop :=
  ∀ A : Allocator, (∀ t n, A.succeeds t n = true) → ∀ (h : Heap) (arg : Field → Val),
    (Env.ofStruct A DL S).CreateArgs S h arg →
    ∃ h' b blk, (Env.ofStruct A DL S).getConstructor S
        ((S.fields.filter (! ·.isMutable)).map arg) h = .ok (.base b, h') ∧
      h'.block? b = some blk ∧ (Env.ofStruct A DL S).ArraysCopied S h arg h' blk

section Copies

open Env

variable {DL : DataLayout} {S : Struct}

theorem copiesArrays_of_countsFirst (flat : S.IsFlat)
    (hstruct : DL.structSize S.packed S.elements < 2 ^ 64) (hcf : S.CountsFirst) :
    CopiesArrays DL S := by
  intro A hA h arg hargs
  obtain ⟨h', blk, hrun, hp⟩ := initFields_made (E := Env.ofStruct A DL S) flat
    hargs.scalar hA (fun f hf hr hm => by
      rw [sizeSeen_toNat hcf hargs hf hr hm]
      exact (hargs.array f hf hm hr).2)
    S.fields [] _ _ rfl (.start hstruct)
  rw [← getConstructor_allocated _ (hA _ _)] at hrun
  exact ⟨h', h.next, blk, hrun, hp.block, hp.copied flat.toWellFormed hcf hargs⟩

/-- Memory that was cleared has 0 in every count. -/
theorem countAt_calloc {E : Env} (hE : E.alloc = .calloc) (t : Nat) (n : I64) (c : Field) :
    E.countAt S (E.alloc.fresh t n) c = 0 := by
  have hzero : ∀ (o k : Nat), ∃ m, slice (E.alloc.fresh t n).cells o k =
      List.replicate m (Cell.byte 0) := by
    intro o k
    refine ⟨(slice (E.alloc.fresh t n).cells o k).length, List.eq_replicate_iff.mpr ⟨rfl, ?_⟩⟩
    intro x hx
    have hmem : x ∈ (E.alloc.fresh t n).cells := List.mem_of_mem_drop (List.mem_of_mem_take hx)
    rw [hE] at hmem
    obtain ⟨i, -, rfl⟩ := List.mem_map.mp hmem
    rfl
  obtain ⟨m, hm⟩ := hzero (E.fieldOffset S c) (E.layout.storeSize c.type)
  have hbytes : inOrder E.layout.bigEndian (List.replicate m 0) = toLE m 0 := by
    rw [toLE_zero, inOrder]
    split
    · exact List.reverse_replicate
    · rfl
  rw [countAt, slot, hm, decodeI64, decodeInt, List.map_replicate]
  show BitVec.ofNat 64 (ofLE (inOrder E.layout.bigEndian (List.replicate m 0))) = 0
  rw [hbytes, ofLE_toLE, Nat.zero_mod]
  rfl

/-! ### One element for one array -/

/-- The caller's arguments with one element for `f` and none for any other array. -/
def oneElement (S : Struct) (f g : Field) : Val :=
  if g = S.countOf f then .int 1 else if g.isRepeated then .ptr (.base 0) else .int 0

theorem cleared_fits {n : Nat} (hn : n < 2 ^ 64) :
    (List.replicate n (Cell.byte 0)).length < 2 ^ 64 := by
  rwa [List.length_replicate]

/-- The element, and room for it alone. -/
def elementHeap (n : Nat) (hn : n < 2 ^ 64) : Heap :=
  ⟨[some ⟨List.replicate n (.byte 0), cleared_fits hn⟩], 0⟩

section OneElement

variable {E : Env} {f g : Field}

theorem oneElement_scalar : ScalarArgs S (oneElement S f) := by
  intro g _ _ hr
  unfold oneElement
  rw [hr]
  split
  · exact ⟨1, rfl⟩
  · exact ⟨0, rfl⟩

theorem oneElement_array (wf : S.WellFormed) (hf : f ∈ S.fields) (hr : f.isRepeated = true) :
    oneElement S f f = .ptr (.base 0) := by
  rw [oneElement, if_neg (wf.countOf_ne hf hr).symm, if_pos hr]

theorem countArg_oneElement_self : S.countArg (oneElement S f) f = 1 := by
  rw [Struct.countArg, oneElement, if_pos rfl]
  rfl

theorem countArg_oneElement (wf : S.WellFormed) (hf : f ∈ S.fields) (hr : f.isRepeated = true)
    (hg : g ∈ S.fields) (hgr : g.isRepeated = true) (hne : g ≠ f) :
    S.countArg (oneElement S f) g = 0 := by
  have hc : S.countOf g ≠ S.countOf f := fun he => hne (wf.countOf_inj hg hf hgr hr he)
  have hcr : (S.countOf g).isRepeated = false :=
    (wf.count_spec (wf.countOf_mem hg hgr) (wf.array_spec hg hgr).2.2.2.2.2.2.1).2.2.1
  rw [Struct.countArg, oneElement, if_neg hc, hcr]
  rfl

theorem elementHeap_readable {n : Nat} (hn : n < 2 ^ 64) :
    (elementHeap n hn).Readable (.base 0) n := by
  have hblock : (elementHeap n hn).block? 0 =
      some ⟨List.replicate n (.byte 0), cleared_fits hn⟩ := rfl
  refine Or.inr ?_
  rw [Heap.read_loc hblock (by simp)]
  rfl

theorem createArgs_oneElement (wf : S.WellFormed) (hf : f ∈ S.fields) (hr : f.isRepeated = true)
    (hfit : E.layout.allocSize f.elem < 2 ^ 64) :
    E.CreateArgs S (elementHeap _ hfit) (oneElement S f) := by
  refine ⟨oneElement_scalar, fun g hg _ hgr => ?_⟩
  by_cases hgf : g = f
  · subst hgf
    rw [countArg_oneElement_self, exactSizeFor_one, oneElement_array wf hg hgr]
    exact ⟨hfit, elementHeap_readable hfit⟩
  · rw [countArg_oneElement wf hf hr hg hgr hgf, exactSizeFor_zero]
    exact ⟨by decide, Or.inl rfl⟩

/-- Whoever has not got to the count of `f` yet sees no elements at all, if memory was cleared. -/
theorem sizeSeen_oneElement (hE : E.alloc = .calloc) (wf : S.WellFormed) (hf : f ∈ S.fields)
    (hr : f.isRepeated = true) (hlate : ¬ (S.countOf f).offset < f.offset) {h₀ : Heap}
    (hg : g ∈ S.fields) (hgr : g.isRepeated = true) :
    (E.sizeSeen S (E.newStruct S h₀) (oneElement S f) g).toNat = 0 := by
  apply sizeSeen_zero
  unfold countSeen
  split
  · next hlt => exact countArg_oneElement wf hf hr hg hgr fun he => hlate (he ▸ hlt)
  · exact countAt_calloc hE _ _ _

end OneElement

/-- An array in front of its count gets a block for no element. -/
theorem countsFirst_of_copiesArrays (flat : S.IsFlat)
    (hstruct : DL.structSize S.packed S.elements < 2 ^ 64)
    (helem : ∀ f ∈ S.fields, f.isRepeated = true → DL.allocSize f.elem < 2 ^ 64)
    (h : CopiesArrays DL S) : S.CountsFirst := by
  intro f hf hr hm
  by_contra hlate
  have wf := flat.toWellFormed
  have hfit := helem f hf hr
  set E := Env.ofStruct .calloc DL S with hE
  set h₀ := elementHeap (DL.allocSize f.elem) hfit with hh₀
  have hseen : ∀ g ∈ S.fields, g.isRepeated = true →
      (E.sizeSeen S (E.newStruct S h₀) (oneElement S f) g).toNat = 0 := fun g hg hgr =>
    sizeSeen_oneElement rfl wf hf hr hlate hg hgr
  obtain ⟨h', blk, hrun, hp⟩ := initFields_made (E := E) flat oneElement_scalar (fun _ _ => rfl)
    (fun g hg hgr _ => Or.inl (hseen g hg hgr)) S.fields [] _ _ rfl (.start hstruct)
  rw [← getConstructor_allocated (E := E) _ rfl] at hrun
  obtain ⟨h'', b, blk', hrun', hblk', hcopied⟩ := h .calloc (fun _ _ => rfl) h₀ (oneElement S f)
    (createArgs_oneElement (E := E) wf hf hr hfit)
  rw [hrun] at hrun'
  obtain ⟨hb, rfl⟩ := Prod.mk.inj (Except.ok.inj hrun')
  obtain rfl := (Ptr.loc.inj hb).1
  obtain rfl : blk = blk' := Option.some.inj (hp.block.symm.trans hblk')
  -- the block has room for the one element, and was made for none
  obtain ⟨-, d, arr, hptr, hd, hcells⟩ := hcopied f hf hr hm
  obtain ⟨d', arr', hptr', -, hd', hcells'⟩ := hp.array f hf hr hm
  obtain rfl := (Ptr.loc.inj (hptr.symm.trans hptr')).1
  obtain rfl : arr = arr' := Option.some.inj (hd.symm.trans hd')
  have hlen := congrArg List.length (hcells.symm.trans hcells')
  have hread : h₀.Readable (.base 0) (E.layout.allocSize f.elem) := elementHeap_readable hfit
  rw [hseen f hf hr, countArg_oneElement_self, exactSizeFor_one, oneElement_array wf hf hr,
    Val.asPtr, Heap.length_bytesAt hread, Heap.length_bytesAt (Or.inl rfl)] at hlen
  exact absurd hlen (Nat.ne_of_gt (DL.allocSize_pos (flat.elem_isScalar hf hr)))

/-- `create_S` copies the caller's arrays exactly for the field orders in which every immutable
    array comes after its count. -/
theorem copiesArrays_iff (flat : S.IsFlat)
    (hstruct : DL.structSize S.packed S.elements < 2 ^ 64)
    (helem : ∀ f ∈ S.fields, f.isRepeated = true → DL.allocSize f.elem < 2 ^ 64) :
    CopiesArrays DL S ↔ S.CountsFirst :=
  ⟨countsFirst_of_copiesArrays flat hstruct helem, copiesArrays_of_countsFirst flat hstruct⟩

end Copies

/-- `struct s { repeated int8 x }`: count and array both take 8 bytes, so a sort may leave them
    as they are or turn them around. -/
def bytesStruct (std : StdSort .default) : Struct :=
  (arrayOf (.int 8)).finalizeFields std (.struct 0 "s")

theorem bytesStruct_isFlat (std : StdSort .default) : (bytesStruct std).IsFlat := by
  refine Struct.finalizeFields_isFlat std _ (built_arrayOf (by decide : (0 : Nat) < 8)) ?_ ?_
  · decide
  · intro f hf t hr ht
    rcases List.mem_pair.mp hf with rfl | rfl
    · cases hr
    · obtain rfl := Ty.ptr.inj ht
      exact (by decide : (0 : Nat) < 8)

theorem copiesArrays_iff_bytes :
    CopiesArrays .default (bytesStruct (.stable .default)) ↔
      (bytesStruct (.stable .default)).CountsFirst := by
  refine copiesArrays_iff (bytesStruct_isFlat _) ?_ ?_
  all_goals
    rw [bytesStruct, Struct.finalizeFields_stable _ (by decide)]
    decide

/-- With the array in front of its count `create_s` makes a block for as many elements as the
    fresh memory says. -/
theorem array_before_count :
    ¬ CopiesArrays .default (bytesStruct (.reversed .default)) := by
  intro h
  have hlate : ¬ (bytesStruct (.reversed .default)).CountsFirst := by
    unfold bytesStruct Struct.finalizeFields StdSort.reversed
    rw [StdSort.stable_of_pairwise (by decide)]
    decide
  refine hlate (countsFirst_of_copiesArrays (bytesStruct_isFlat _) ?_ ?_ h)
  all_goals
    unfold bytesStruct Struct.finalizeFields StdSort.reversed
    rw [StdSort.stable_of_pairwise (by decide)]
    decide

end Tyr
