import Tyr.Access.Failure

/-
  What an accessor does to the heap when it is called properly.

  `Installs`: an array of a struct has got a count, a block and contents, and apart from the
  block it had before nothing else has changed. The array setter (`setRepeated_ok`), the count
  setter (`setCount_ok`) and the item setter (`getItemSetter_ok`) all do that, with different
  contents, or else change nothing. The getters write to the caller's memory only
  (`getGetter_direct`, `getGetter_copy`, `getItemGetter_ok`).
-/

namespace Tyr

open Prog

namespace Env

variable (E : Env) (S : Struct)

/-- Array `f` of struct `b` has become block `d` holding `arr`, with count `n`. -/
structure Installs (h : Heap) (b : Nat) (blk : Block) (f : Field) (n : I64) (d : Nat)
    (arr : Block) (h' : Heap) (blk' : Block) : Prop where
  block : h'.block? b = some blk'
  length : blk'.cells.length = blk.cells.length
  frame : ∀ g ∈ S.fields, g ≠ f → g ≠ S.countOf f → E.slot S blk' g = E.slot S blk g
  count : E.countAt S blk' (S.countOf f) = n
  ptr : E.ptrAt S blk' f = .base d
  array : h'.block? d = some arr
  origin : E.ptrAt S blk f = .base d ∨ h.next ≤ d
  other : ∀ x < h.next, x ≠ b → E.ptrAt S blk f ≠ .base x → h'.block? x = h.block? x
  next_le : h.next ≤ h'.next

/-- Struct `b` is as before, and so is every other block. -/
structure Keeps (h : Heap) (b : Nat) (blk : Block) (h' : Heap) (blk' : Block) : Prop where
  block : h'.block? b = some blk'
  length : blk'.cells.length = blk.cells.length
  value : ∀ g ∈ S.fields, E.valueAt S blk' g = E.valueAt S blk g
  other : ∀ x ≠ b, h'.block? x = h.block? x

/-- `src` points to `n` elements of array `f`, outside the struct `b` and its array `f`. -/
structure Source (h : Heap) (b : Nat) (blk : Block) (f : Field) (src : Ptr) (n : I64) : Prop where
  size : E.exactSizeFor f n < 2 ^ 64
  readable : h.Readable src (E.exactSizeFor f n)
  not_struct : ∀ o, src ≠ .loc b o
  not_array : ∀ d o, E.ptrAt S blk f = .base d → src ≠ .loc d o

/-- Array `f` is NULL with count 0, or at the start of a live block with room for its
    elements. -/
def ArrayOk (h : Heap) (blk : Block) (f : Field) : Prop :=
  (E.ptrAt S blk f = .null ∧ E.countAt S blk (S.countOf f) = 0) ∨
    ∃ d arr, E.ptrAt S blk f = .base d ∧ h.block? d = some arr ∧
      E.exactSizeFor f (E.countAt S blk (S.countOf f)) ≤ arr.cells.length

variable {E S} {h : Heap} {b : Nat} {blk : Block} {f : Field} {src : Ptr} {n : I64}

/-- What the array setter installs: the elements, in a block that has room for them. -/
def Filled (h : Heap) (src : Ptr) (size : Nat) (arr : Block) : Prop :=
  size ≤ arr.cells.length ∧ slice arr.cells 0 size = h.bytesAt src size

theorem filled_overwrite {arr : Block} {size : Nat} (hread : h.Readable src size)
    (hfit : size ≤ arr.cells.length) :
    Filled h src size (arr.overwrite 0 (h.bytesAt src size)) := by
  refine ⟨by rw [Block.length_overwrite]; exact hfit, ?_⟩
  exact Block.slice_overwrite_self (Heap.length_bytesAt hread) (by rwa [Nat.zero_add])

section Live

variable (wf : S.WellFormed) (hb : E.Holds S blk) (hf : f ∈ S.fields)
  (hr : f.isRepeated = true)
include wf hb hf hr

/-! ## The array setter -/

/-- The array after `SizeIsRight`, which starts from `h₂` where memory for it has been found. -/
theorem sizeIsRight_installs {h₂ : Heap} {blk₀ arr : Block} {d : Nat} {w : List Cell}
    (hl₂ : h₂.block? b = some blk₀) (hpc : E.putCount S blk₀ f n = E.putCount S blk f n)
    (hd : h₂.block? d = some arr) (hdb : d ≠ b)
    (horigin : E.ptrAt S blk f = .base d ∨ h.next ≤ d)
    (hother : ∀ x < h.next, x ≠ b → E.ptrAt S blk f ≠ .base x → h₂.block? x = h.block? x)
    (hnext : h.next ≤ h₂.next) :
    E.Installs S h b blk f n d (arr.overwrite 0 w)
      ((h₂.update b (E.putPtr S (E.putCount S blk₀ f n) f d)).update d (arr.overwrite 0 w))
      (E.putPtr S (E.putCount S blk f n) f d) where
  block := by rw [Heap.block?_update_ne _ (Ne.symm hdb), Heap.block?_update_self hl₂, hpc]
  length := by rw [length_putPtr, length_putCount]
  frame g hg hgf hgc := by
    rw [slot_putPtr_ne wf hf hr (holds_putCount hb n) d hg hgf,
      slot_putCount_ne wf hf hr hb n hg hgc]
  count := by
    rw [countAt_putPtr wf hf hr (holds_putCount hb n), countAt_putCount wf hf hr hb]
  ptr := ptrAt_putPtr wf hf hr (holds_putCount hb n) d
  array := by
    have hd' : (h₂.update b (E.putPtr S (E.putCount S blk₀ f n) f d)).block? d = some arr := by
      rw [Heap.block?_update_ne _ hdb, hd]
    exact Heap.block?_update_self hd' _
  origin := horigin
  other x hx hxb hxd := by
    have hne : x ≠ d := by
      rintro rfl
      rcases horigin with ho | ho
      · exact hxd ho
      · omega
    rw [Heap.block?_update_ne _ hne, Heap.block?_update_ne _ hxb, hother x hx hxb hxd]
  next_le := by rw [Heap.next_update, Heap.next_update]; exact hnext

variable (hl : h.block? b = some blk)
include hl

/-- Block `SizeIsRight`, with the array's memory at block `d`. -/
theorem sizeIsRight_ok {d : Nat} {arr : Block} (hd : h.block? d = some arr) (hdb : d ≠ b)
    (hread : h.Readable src (E.sizeFor f n).toNat) (hsrc : ∀ o, src ≠ .loc b o)
    (hfit : (E.sizeFor f n).toNat ≤ arr.cells.length) :
    E.sizeIsRight S f (S.countOf f) (.base b) src n (.base d) h =
      .ok (true, (h.update b (E.putPtr S (E.putCount S blk f n) f d)).update d
        (arr.overwrite 0 (h.bytesAt src (E.sizeFor f n).toNat))) := by
  have hl₁ := Heap.block?_update_self hl (E.putCount S blk f n)
  have hb₁ := holds_putCount (f := f) hb n
  have hd₁ : (h.update b (E.putCount S blk f n)).block? d = some arr := by
    rw [Heap.block?_update_ne h hdb, hd]
  obtain ⟨hread₁, hby⟩ := Heap.readable_update_ne hread hsrc (E.putCount S blk f n)
  have h0 : (0 : I64).toNat = 0 := rfl
  have hl₂ := (Heap.block?_update_ne (h.update b (E.putCount S blk f n)) (Ne.symm hdb)
    (arr.overwrite 0 (h.bytesAt src (E.sizeFor f n).toNat))).trans hl₁
  rw [sizeIsRight, bind_of_ok (storeCount_slot wf hl hb hf hr n),
    bind_of_ok (getFieldAllocSize_slot wf hl₁ hb₁ hf), fieldSizeAt_putCount wf hf hr hb,
    bind_of_ok (memcpy_ok hread₁ hd₁ (by rw [h0, Nat.zero_add]; exact hfit)), hby, h0,
    bind_of_ok (storePtr_slot wf hl₂ hb₁ hf hr d), pure_apply, Heap.update_comm _ hdb,
    Heap.update_update]

/-- The array setter when the array has the right size already. -/
theorem setRepeated_same {d : Nat} {arr : Block} (hp : E.ptrAt S blk f = .base d) (hdb : d ≠ b)
    (hd : h.block? d = some arr) (hcount : E.countAt S blk (S.countOf f) = n)
    (hfit : (E.sizeFor f n).toNat ≤ arr.cells.length)
    (hread : h.Readable src (E.sizeFor f n).toNat) (hsrc : ∀ o, src ≠ .loc b o) :
    ∃ h' blk' d' arr', E.setRepeated S f (S.countOf f) (.base b) src n h = .ok (true, h') ∧
      E.Installs S h b blk f n d' arr' h' blk' ∧ Filled h src (E.sizeFor f n).toNat arr' := by
  have hp' : (E.decode f.type (E.slot S blk f)).asPtr = .base d := hp
  refine ⟨_, _, d, _, ?_, sizeIsRight_installs wf hb hf hr hl rfl hd hdb (Or.inl hp)
    (fun _ _ _ _ => rfl) (Nat.le_refl _), filled_overwrite hread hfit⟩
  rw [setRepeated, bind_of_ok (loadTy_slot wf hl hb hf), hp', Ptr.isNotNull_loc, if_pos rfl,
    bind_of_ok (loadI64_slot wf hl hb (wf.countOf_mem hf hr) (wf.countOf_type hf hr)),
    if_pos hcount]
  exact sizeIsRight_ok wf hb hf hr hl hd hdb hread hsrc hfit

/-- The array setter when there is no array yet. -/
theorem setRepeated_fresh (hp : E.ptrAt S blk f = .null)
    (hread : h.Readable src (E.sizeFor f n).toNat) (hsrc : ∀ o, src ≠ .loc b o)
    (hA : E.alloc.succeeds h.calls (E.sizeFor f n).toNat = true) :
    ∃ h' blk' d' arr', E.setRepeated S f (S.countOf f) (.base b) src n h = .ok (true, h') ∧
      E.Installs S h b blk f n d' arr' h' blk' ∧ Filled h src (E.sizeFor f n).toNat arr' := by
  have hp' : (E.decode f.type (E.slot S blk f)).asPtr = .null := hp
  have hl₁ := Heap.block?_update_self hl (E.putCount S blk f n)
  have hb₁ := holds_putCount (f := f) hb n
  set new := E.alloc.fresh h.calls (E.sizeFor f n) with hnew
  have hlen : new.cells.length = (E.sizeFor f n).toNat := Allocator.length_fresh _ _ _
  set h₂ := (h.update b (E.putCount S blk f n)).push new with hh₂
  have hl₂ : h₂.block? b = some (E.putCount S blk f n) := Heap.block?_push_of_some hl₁ new
  have hd₂ : h₂.block? h.next = some new := by
    have := Heap.block?_push_self (h.update b (E.putCount S blk f n)) new
    rwa [Heap.next_update] at this
  have hdb : h.next ≠ b := Nat.ne_of_gt (Heap.lt_next hl)
  have hA₁ : E.alloc.succeeds (h.update b (E.putCount S blk f n)).calls
      (E.sizeFor f n).toNat = true := hA
  obtain ⟨hread₁, hby₁⟩ := Heap.readable_update_ne hread hsrc (E.putCount S blk f n)
  obtain ⟨hread₂, hby₂⟩ := Heap.readable_push hread₁ new
  have hrun := sizeIsRight_ok wf hb₁ hf hr hl₂ hd₂ hdb hread₂ hsrc (Nat.le_of_eq hlen.symm)
  rw [hby₂, hby₁] at hrun
  refine ⟨_, _, h.next, _, ?_, sizeIsRight_installs wf hb hf hr hl₂ (putCount_putCount _ _ _ _)
    hd₂ hdb (Or.inr (Nat.le_refl _)) (fun x hx hxb _ => ?_) (by simp [hh₂]),
    filled_overwrite hread (Nat.le_of_eq hlen.symm)⟩
  · rw [setRepeated, bind_of_ok (loadTy_slot wf hl hb hf), hp', Ptr.isNotNull_null,
      if_neg (by decide), bind_of_ok (storeCount_slot wf hl hb hf hr n),
      bind_of_ok (getFieldAllocSize_slot wf hl₁ hb₁ hf), fieldSizeAt_putCount wf hf hr hb,
      bind_of_ok (malloc_ok hA₁), insertNullCheck_loc, Heap.next_update]
    exact hrun
  · rw [hh₂, Heap.block?_push_of_lt (by simpa using hx), Heap.block?_update_ne _ hxb]

/-- The array setter when the array changes its size. -/
theorem setRepeated_realloc {d : Nat} {arr : Block} (hp : E.ptrAt S blk f = .base d) (hdb : d ≠ b)
    (hd : h.block? d = some arr) (hcount : E.countAt S blk (S.countOf f) ≠ n)
    (hread : h.Readable src (E.sizeFor f n).toNat) (hsrc : ∀ o, src ≠ .loc b o)
    (hsrc' : ∀ o, src ≠ .loc d o) (hz : E.sizeFor f n ≠ 0)
    (hA : E.alloc.succeeds h.calls (E.sizeFor f n).toNat = true) :
    ∃ h' blk' d' arr', E.setRepeated S f (S.countOf f) (.base b) src n h = .ok (true, h') ∧
      E.Installs S h b blk f n d' arr' h' blk' ∧ Filled h src (E.sizeFor f n).toNat arr' := by
  have hp' : (E.decode f.type (E.slot S blk f)).asPtr = .base d := hp
  have hl₁ := Heap.block?_update_self hl (E.putCount S blk f n)
  have hb₁ := holds_putCount (f := f) hb n
  have hd₁ : (h.update b (E.putCount S blk f n)).block? d = some arr := by
    rw [Heap.block?_update_ne h hdb, hd]
  set new := arr.resize (E.alloc.fresh h.calls (E.sizeFor f n)) with hnew
  have hlen : new.cells.length = (E.sizeFor f n).toNat := by
    rw [hnew, Block.length_resize, Allocator.length_fresh]
  set h₂ := ((h.update b (E.putCount S blk f n)).kill d).push new with hh₂
  have hl₂ : h₂.block? b = some (E.putCount S blk f n) :=
    Heap.block?_push_of_some ((Heap.block?_kill_ne _ (Ne.symm hdb)).trans hl₁) new
  have hd₂ : h₂.block? h.next = some new := by
    have := Heap.block?_push_self ((h.update b (E.putCount S blk f n)).kill d) new
    rwa [Heap.next_kill, Heap.next_update] at this
  have hnb : h.next ≠ b := Nat.ne_of_gt (Heap.lt_next hl)
  obtain ⟨hread₁, hby₁⟩ := Heap.readable_update_ne hread hsrc (E.putCount S blk f n)
  obtain ⟨hread₂, hby₂⟩ := Heap.readable_kill_ne hread₁ hsrc'
  obtain ⟨hread₃, hby₃⟩ := Heap.readable_push hread₂ new
  have hrun := sizeIsRight_ok wf hb₁ hf hr hl₂ hd₂ hnb hread₃ hsrc (Nat.le_of_eq hlen.symm)
  rw [hby₃, hby₂, hby₁] at hrun
  refine ⟨_, _, h.next, _, ?_, sizeIsRight_installs wf hb hf hr hl₂ (putCount_putCount _ _ _ _)
    hd₂ hnb (Or.inr (Nat.le_refl _)) (fun x hx hxb hxd => ?_) (by simp [hh₂]),
    filled_overwrite hread (Nat.le_of_eq hlen.symm)⟩
  · rw [setRepeated, bind_of_ok (loadTy_slot wf hl hb hf), hp', Ptr.isNotNull_loc, if_pos rfl,
      bind_of_ok (loadI64_slot wf hl hb (wf.countOf_mem hf hr) (wf.countOf_type hf hr)),
      if_neg hcount, bind_of_ok (storeCount_slot wf hl hb hf hr n),
      bind_of_ok (getFieldAllocSize_slot wf hl₁ hb₁ hf), fieldSizeAt_putCount wf hf hr hb,
      bind_of_ok (realloc_ok hd₁ hz hA), insertNullCheck_loc, Heap.next_update]
    exact hrun
  · have hne : x ≠ d := by
      rintro rfl
      exact hxd hp
    rw [hh₂, Heap.block?_push_of_lt (by simpa using hx), Heap.block?_kill_ne _ hne,
      Heap.block?_update_ne _ hxb]

/-- The array setter when there is no array yet and no memory for one. -/
theorem setRepeated_failed (src : Ptr) (hp : E.ptrAt S blk f = .null)
    (hA : E.alloc.succeeds h.calls (E.sizeFor f n).toNat = false) :
    E.setRepeated S f (S.countOf f) (.base b) src n h =
      .ok (false, (h.update b (E.putCount S blk f n)).tick) := by
  have hp' : (E.decode f.type (E.slot S blk f)).asPtr = .null := hp
  have hl₁ := Heap.block?_update_self hl (E.putCount S blk f n)
  have hb₁ := holds_putCount (f := f) hb n
  have hA₁ : E.alloc.succeeds (h.update b (E.putCount S blk f n)).calls
      (E.sizeFor f n).toNat = false := hA
  rw [setRepeated, bind_of_ok (loadTy_slot wf hl hb hf), hp', Ptr.isNotNull_null,
    if_neg (by decide), bind_of_ok (storeCount_slot wf hl hb hf hr n),
    bind_of_ok (getFieldAllocSize_slot wf hl₁ hb₁ hf), fieldSizeAt_putCount wf hf hr hb,
    bind_of_ok (malloc_null hA₁), insertNullCheck_null]
  rfl

/-- The array setter, when allocations of a positive size succeed: the array is installed, or
    an empty one could not be allocated and nothing has changed. -/
theorem setRepeated_ok (hA : ∀ t k, 0 < k → E.alloc.succeeds t k = true)
    (helem : 0 < E.layout.allocSize f.elem) (harr : E.ArrayOk S h blk f)
    (hne : ∀ d, E.ptrAt S blk f = .base d → d ≠ b) (hs : E.Source S h b blk f src n)
    (hn : n = 0 → E.ptrAt S blk f = .null ∨ E.countAt S blk (S.countOf f) = 0) :
    (∃ h' blk' d arr, E.setRepeated S f (S.countOf f) (.base b) src n h = .ok (true, h') ∧
      E.Installs S h b blk f n d arr h' blk' ∧ Filled h src (E.exactSizeFor f n) arr) ∨
    (n = 0 ∧ ∃ h' blk', E.setRepeated S f (S.countOf f) (.base b) src n h = .ok (false, h') ∧
      E.Keeps S h b blk h' blk') := by
  have hsize := sizeFor_toNat hs.size
  have hread : h.Readable src (E.sizeFor f n).toNat := by rw [hsize]; exact hs.readable
  have hpos : n ≠ 0 → 0 < (E.sizeFor f n).toNat := by
    intro h0
    rw [hsize]
    exact Nat.mul_pos helem (Nat.pos_of_ne_zero fun he => h0 (BitVec.eq_of_toNat_eq he))
  rw [← hsize]
  rcases harr with ⟨hnull, hc⟩ | ⟨d, arr, hp, hd, hfit⟩
  · cases hsuc : E.alloc.succeeds h.calls (E.sizeFor f n).toNat with
    | true => exact Or.inl (setRepeated_fresh wf hb hf hr hl hnull hread hs.not_struct hsuc)
    | false =>
      have hn0 : n = 0 := by
        by_contra h0
        rw [hA _ _ (hpos h0)] at hsuc
        cases hsuc
      refine Or.inr ⟨hn0, _, _, setRepeated_failed wf hb hf hr hl src hnull hsuc,
        Heap.block?_update_self hl _, length_putCount _ _ _, fun g hg => ?_,
        fun x hx => Heap.block?_update_ne h hx _⟩
      rw [hn0, ← hc]
      exact valueAt_putCount wf hb hf hr hg
  · left
    by_cases hcn : E.countAt S blk (S.countOf f) = n
    · refine setRepeated_same wf hb hf hr hl hp (hne d hp) hd hcn ?_ hread hs.not_struct
      rw [hsize, ← hcn]
      exact hfit
    · have hn0 : n ≠ 0 := by
        rintro rfl
        rcases hn rfl with h0 | h0
        · rw [hp] at h0
          cases h0
        · exact hcn h0
      have hz : E.sizeFor f n ≠ 0 := by
        intro h0
        have := hpos hn0
        rw [h0] at this
        exact absurd this (by decide)
      exact setRepeated_realloc wf hb hf hr hl hp (hne d hp) hd hcn hread hs.not_struct
        (fun o => hs.not_array d o hp) hz (hA _ _ (hpos hn0))

/-! ## The count setter -/

/-- What the count setter installs: a block of the size asked for that starts with what fits of
    the old elements. -/
def Resized (h : Heap) (p : Ptr) (size : Nat) (arr : Block) : Prop :=
  arr.cells.length = size ∧ ∀ d old, p = .base d → h.block? d = some old →
    ∀ k ≤ size, k ≤ old.cells.length → slice arr.cells 0 k = slice old.cells 0 k

omit hl in
/-- What the count setter does once it has memory at block `d`. -/
theorem setCount_tail {h₂ : Heap} {arr : Block} {d : Nat} (old : I64)
    (hl₂ : h₂.block? b = some (E.putCount S blk f n)) (hd : h₂.block? d = some arr) (hdb : d ≠ b)
    (horigin : h.next ≤ d)
    (hother : ∀ x < h.next, x ≠ b → E.ptrAt S blk f ≠ .base x → h₂.block? x = h.block? x)
    (hnext : h.next ≤ h₂.next) :
    ∃ h' blk', (do
        E.storeI64 old (E.structGEP S (.base b) (S.countOf f))
        insertNullCheck [.base d] false do
          E.storeTy f.type (.ptr (.base d)) (E.structGEP S (.base b) f)
          E.storeI64 n (E.structGEP S (.base b) (S.countOf f))
          pure true : Prog Bool) h₂ = .ok (true, h') ∧
      E.Installs S h b blk f n d arr h' blk' := by
  have hb₁ := holds_putCount (f := f) hb n
  have hb₂ := holds_putCount (f := f) hb old
  have hb₃ := holds_putPtr (f := f) hb₂ d
  have hl₃ := Heap.block?_update_self hl₂ (E.putCount S (E.putCount S blk f n) f old)
  rw [putCount_putCount] at hl₃
  have hl₄ := Heap.block?_update_self hl₃ (E.putPtr S (E.putCount S blk f old) f d)
  refine ⟨h₂.update b (E.putCount S (E.putPtr S (E.putCount S blk f old) f d) f n),
    E.putCount S (E.putPtr S (E.putCount S blk f old) f d) f n, ?_, ?_⟩
  · rw [bind_of_ok (storeCount_slot wf hl₂ hb₁ hf hr old), putCount_putCount, insertNullCheck_loc,
      bind_of_ok (storePtr_slot wf hl₃ hb₂ hf hr d),
      bind_of_ok (storeCount_slot wf hl₄ hb₃ hf hr n),
      pure_apply, Heap.update_update, Heap.update_update]
  · exact {
      block := Heap.block?_update_self hl₂ _
      length := by rw [length_putCount, length_putPtr, length_putCount]
      frame := fun g hg hgf hgc => by
        rw [slot_putCount_ne wf hf hr hb₃ n hg hgc, slot_putPtr_ne wf hf hr hb₂ d hg hgf,
          slot_putCount_ne wf hf hr hb old hg hgc]
      count := countAt_putCount wf hf hr hb₃ n
      ptr := by rw [ptrAt_putCount wf hf hr hb₃, ptrAt_putPtr wf hf hr hb₂]
      array := by rw [Heap.block?_update_ne _ hdb, hd]
      origin := Or.inr horigin
      other := fun x hx hxb hxd => by rw [Heap.block?_update_ne _ hxb, hother x hx hxb hxd]
      next_le := by rw [Heap.next_update]; exact hnext }

/-- The count setter up to the allocation. -/
theorem setCount_head (hn : n ≠ 0) :
    E.setCount S (S.countOf f) f (.base b) n h =
      (realloc E.alloc (E.ptrAt S blk f) (E.sizeFor f n) >>= fun q => do
        E.storeI64 (E.countAt S blk (S.countOf f)) (E.structGEP S (.base b) (S.countOf f))
        insertNullCheck [q] false do
          E.storeTy f.type (.ptr q) (E.structGEP S (.base b) f)
          E.storeI64 n (E.structGEP S (.base b) (S.countOf f))
          pure true) (h.update b (E.putCount S blk f n)) := by
  have hl₁ := Heap.block?_update_self hl (E.putCount S blk f n)
  have hb₁ := holds_putCount (f := f) hb n
  have hp : (E.decode f.type (E.slot S (E.putCount S blk f n) f)).asPtr = E.ptrAt S blk f :=
    ptrAt_putCount wf hf hr hb n
  rw [setCount, if_neg hn,
    bind_of_ok (loadI64_slot wf hl hb (wf.countOf_mem hf hr) (wf.countOf_type hf hr)),
    bind_of_ok (storeCount_slot wf hl hb hf hr n), bind_of_ok (loadTy_slot wf hl₁ hb₁ hf),
    bind_of_ok (getFieldAllocSize_slot wf hl₁ hb₁ hf), fieldSizeAt_putCount wf hf hr hb, hp]

/-- The count setter when there is no array yet. -/
theorem setCount_fresh (hn : n ≠ 0) (hp : E.ptrAt S blk f = .null)
    (hA : E.alloc.succeeds h.calls (E.sizeFor f n).toNat = true) :
    ∃ h' blk' d arr, E.setCount S (S.countOf f) f (.base b) n h = .ok (true, h') ∧
      E.Installs S h b blk f n d arr h' blk' ∧
      Resized h (E.ptrAt S blk f) (E.sizeFor f n).toNat arr := by
  have hl₁ := Heap.block?_update_self hl (E.putCount S blk f n)
  set new := E.alloc.fresh h.calls (E.sizeFor f n) with hnew
  have hd₂ := Heap.block?_push_self (h.update b (E.putCount S blk f n)) new
  rw [Heap.next_update] at hd₂
  have hA₁ : E.alloc.succeeds (h.update b (E.putCount S blk f n)).calls
      (E.sizeFor f n).toNat = true := hA
  obtain ⟨h', blk', hrun, hinst⟩ := setCount_tail wf hb hf hr (h := h)
    (E.countAt S blk (S.countOf f)) (Heap.block?_push_of_some hl₁ new) hd₂
    (Nat.ne_of_gt (Heap.lt_next hl)) (Nat.le_refl _)
    (fun x hx hxb _ => by
      rw [Heap.block?_push_of_lt (by simpa using hx), Heap.block?_update_ne _ hxb]) (by simp)
  refine ⟨h', blk', h.next, new, ?_, hinst, Allocator.length_fresh _ _ _, fun d old hd => ?_⟩
  · have hma : realloc E.alloc .null (E.sizeFor f n) _ = _ := malloc_ok hA₁
    rw [setCount_head wf hb hf hr hl hn, hp, bind_of_ok hma, Heap.next_update]
    exact hrun
  · rw [hp] at hd
    cases hd

/-- The count setter when the array changes its size. -/
theorem setCount_realloc {d : Nat} {old : Block} (hn : n ≠ 0) (hp : E.ptrAt S blk f = .base d)
    (hdb : d ≠ b) (hd : h.block? d = some old) (hz : E.sizeFor f n ≠ 0)
    (hA : E.alloc.succeeds h.calls (E.sizeFor f n).toNat = true) :
    ∃ h' blk' d' arr, E.setCount S (S.countOf f) f (.base b) n h = .ok (true, h') ∧
      E.Installs S h b blk f n d' arr h' blk' ∧
      Resized h (E.ptrAt S blk f) (E.sizeFor f n).toNat arr := by
  have hl₁ := Heap.block?_update_self hl (E.putCount S blk f n)
  have hd₁ : (h.update b (E.putCount S blk f n)).block? d = some old := by
    rw [Heap.block?_update_ne h hdb, hd]
  set new := old.resize (E.alloc.fresh h.calls (E.sizeFor f n)) with hnew
  have hlen : new.cells.length = (E.sizeFor f n).toNat := by
    rw [hnew, Block.length_resize, Allocator.length_fresh]
  have hd₂ := Heap.block?_push_self ((h.update b (E.putCount S blk f n)).kill d) new
  rw [Heap.next_kill, Heap.next_update] at hd₂
  obtain ⟨h', blk', hrun, hinst⟩ := setCount_tail wf hb hf hr (h := h)
    (E.countAt S blk (S.countOf f))
    (Heap.block?_push_of_some ((Heap.block?_kill_ne _ (Ne.symm hdb)).trans hl₁) new) hd₂
    (Nat.ne_of_gt (Heap.lt_next hl)) (Nat.le_refl _)
    (fun x hx hxb hxd => by
      have hne : x ≠ d := by
        rintro rfl
        exact hxd hp
      rw [Heap.block?_push_of_lt (by simpa using hx), Heap.block?_kill_ne _ hne,
        Heap.block?_update_ne _ hxb]) (by simp)
  refine ⟨h', blk', h.next, new, ?_, hinst, hlen, fun d' old' hd' hold k hk hk' => ?_⟩
  · rw [setCount_head wf hb hf hr hl hn, hp, bind_of_ok (realloc_ok hd₁ hz hA), Heap.next_update]
    exact hrun
  · obtain rfl : d = d' := by
      rw [hp] at hd'
      exact (Ptr.loc.inj hd').1
    obtain rfl : old = old' := Option.some.inj (hd.symm.trans hold)
    exact Block.slice_resize hk' (by rw [Allocator.length_fresh]; exact hk)

/-- The count setter when there is no array yet and no memory for one. -/
theorem setCount_failed (hn : n ≠ 0) (hp : E.ptrAt S blk f = .null)
    (hA : E.alloc.succeeds h.calls (E.sizeFor f n).toNat = false) :
    E.setCount S (S.countOf f) f (.base b) n h = .ok (false,
      (h.update b (E.putCount S blk f n)).tick.update b
        (E.putCount S (E.putCount S blk f n) f (E.countAt S blk (S.countOf f)))) := by
  have hl₁ := Heap.block?_update_self hl (E.putCount S blk f n)
  have hb₁ := holds_putCount (f := f) hb n
  have hA₁ : E.alloc.succeeds (h.update b (E.putCount S blk f n)).calls
      (E.sizeFor f n).toNat = false := hA
  have hl₂ : (h.update b (E.putCount S blk f n)).tick.block? b = _ := hl₁
  have hma : realloc E.alloc .null (E.sizeFor f n) _ = _ := malloc_null hA₁
  rw [setCount_head wf hb hf hr hl hn, hp, bind_of_ok hma,
    bind_of_ok (storeCount_slot wf hl₂ hb₁ hf hr _), insertNullCheck_null, pure_apply]

/-- The count setter, when allocations of a positive size succeed: the array is installed with
    what was in it, or nothing has changed because `n` is 0 or an allocation of 0 bytes
    failed. -/
theorem setCount_ok (hA : ∀ t k, 0 < k → E.alloc.succeeds t k = true)
    (helem : 0 < E.layout.allocSize f.elem) (harr : E.ArrayOk S h blk f)
    (hne : ∀ d, E.ptrAt S blk f = .base d → d ≠ b)
    (hn : E.exactSizeFor f n < 2 ^ 64 ∨ E.ptrAt S blk f = .null ∧ E.sizeFor f n = 0 ∧
      E.alloc.succeeds h.calls 0 = false) :
    (n ≠ 0 ∧ E.exactSizeFor f n < 2 ^ 64 ∧
      ∃ h' blk' d arr, E.setCount S (S.countOf f) f (.base b) n h = .ok (true, h') ∧
        E.Installs S h b blk f n d arr h' blk' ∧
        Resized h (E.ptrAt S blk f) (E.exactSizeFor f n) arr) ∨
    ((n = 0 ∨ 2 ^ 64 ≤ E.exactSizeFor f n) ∧
      ∃ h' blk', E.setCount S (S.countOf f) f (.base b) n h = .ok (false, h') ∧
        E.Keeps S h b blk h' blk') := by
  by_cases hn0 : n = 0
  · have hrun : E.setCount S (S.countOf f) f (.base b) n h = .ok (false, h) := by
      rw [setCount, if_pos hn0, pure_apply]
    exact Or.inr ⟨Or.inl hn0, h, blk, hrun, hl, rfl, fun _ _ => rfl, fun _ _ => rfl⟩
  by_cases hsz : E.exactSizeFor f n < 2 ^ 64
  · left
    have hpos : 0 < (E.sizeFor f n).toNat := by
      rw [sizeFor_toNat hsz]
      exact Nat.mul_pos helem (Nat.pos_of_ne_zero fun he => hn0 (BitVec.eq_of_toNat_eq he))
    refine ⟨hn0, hsz, ?_⟩
    rw [← sizeFor_toNat hsz]
    rcases harr with ⟨hnull, -⟩ | ⟨d, arr, hp, hd, -⟩
    · exact setCount_fresh wf hb hf hr hl hn0 hnull (hA _ _ hpos)
    · have hz : E.sizeFor f n ≠ 0 := by
        intro h0
        rw [h0] at hpos
        exact absurd hpos (by decide)
      exact setCount_realloc wf hb hf hr hl hn0 hp (hne d hp) hd hz (hA _ _ hpos)
  · right
    obtain ⟨hnull, hz, hsuc⟩ := hn.resolve_left hsz
    have hsuc' : E.alloc.succeeds h.calls (E.sizeFor f n).toNat = false := by
      rw [hz]
      exact hsuc
    have hl₁ := Heap.block?_update_self hl (E.putCount S blk f n)
    have hl₂ : (h.update b (E.putCount S blk f n)).tick.block? b = _ := hl₁
    refine ⟨Or.inr (Nat.not_lt.mp hsz), _, _, setCount_failed wf hb hf hr hl hn0 hnull hsuc',
      Heap.block?_update_self hl₂ _, by rw [length_putCount, length_putCount], fun g hg => ?_,
      fun x hx => ?_⟩
    · rw [putCount_putCount]
      exact valueAt_putCount wf hb hf hr hg
    · rw [Heap.block?_update_ne _ hx, Heap.block?_tick, Heap.block?_update_ne _ hx]

/-! ## Items -/

omit wf hb hf hr hl in
/-- The item the bounds check admits lies inside the array. -/
theorem item_fits {arr : Block} {idx : I64} (hidx : idx < n)
    (hfit : E.exactSizeFor f n ≤ arr.cells.length) :
    ∃ o : I64, (∀ d, E.itemGEP f.elem (.base d) idx = .loc d o) ∧
      o.toNat = E.layout.allocSize f.elem * idx.toNat ∧
      o.toNat + E.layout.allocSize f.elem ≤ arr.cells.length := by
  have hlt : idx.toNat + 1 ≤ n.toNat := by bv_omega
  have hmul : E.layout.allocSize f.elem * (idx.toNat + 1) ≤ arr.cells.length :=
    Nat.le_trans (Nat.mul_le_mul_left _ hlt) hfit
  have hfits := arr.fits
  rw [Nat.mul_add, Nat.mul_one] at hmul
  have ho : (idx * BitVec.ofNat 64 (E.layout.allocSize f.elem)).toNat =
      E.layout.allocSize f.elem * idx.toNat := by
    rw [BitVec.toNat_mul, BitVec.toNat_ofNat, Nat.mul_mod_mod, Nat.mul_comm]
    exact Nat.mod_eq_of_lt (by omega)
  refine ⟨_, fun d => ?_, ho, by rw [ho]; exact hmul⟩
  rw [itemGEP, Ptr.add_loc]
  exact congrArg _ (BitVec.zero_add _)

/-- The array with element `idx` overwritten. -/
def putItem (E : Env) (arr : Block) (f : Field) (idx : I64) (v : Nat) : Block :=
  arr.overwrite (E.layout.allocSize f.elem * idx.toNat) (E.encode f.elem (.int v))

/-- The item setter: the item is written, or it is out of range and nothing has changed. -/
theorem getItemSetter_ok (idx : I64) (v : Nat) (harr : E.ArrayOk S h blk f)
    (hne : ∀ d, E.ptrAt S blk f = .base d → d ≠ b) :
    (idx < E.countAt S blk (S.countOf f) ∧
      ∃ h' d arr, h.block? d = some arr ∧
        E.getItemSetter S f (.base b) idx (.int v) h = .ok (true, h') ∧
        E.Installs S h b blk f (E.countAt S blk (S.countOf f)) d (E.putItem arr f idx v) h' blk) ∨
    (¬ idx < E.countAt S blk (S.countOf f) ∧
      E.getItemSetter S f (.base b) idx (.int v) h = .ok (false, h)) := by
  obtain ⟨ht, -, -, -, hd, hcm, -⟩ := wf.array_spec hf hr
  have hpt := wf.pointee hf hr
  have hrun : E.getItemSetter S f (.base b) idx (.int v) h =
      (if idx < E.countAt S blk (S.countOf f) then do
        E.storeTy f.elem (.int v) (E.itemGEP f.elem (E.ptrAt S blk f) idx)
        pure true
      else pure false : Prog Bool) h := by
    simp only [getItemSetter, hpt, hd]
    rw [insertNullCheck_loc, bind_of_ok (loadTy_slot wf hl hb hf),
      bind_of_ok (loadI64_slot wf hl hb hcm (wf.countOf_type hf hr))]
    rfl
  by_cases hidx : idx < E.countAt S blk (S.countOf f)
  · rw [if_pos hidx] at hrun
    rcases harr with ⟨-, hc⟩ | ⟨d, arr, hp, hd, hfit⟩
    · rw [hc] at hidx
      exact absurd hidx (by bv_omega)
    · left
      obtain ⟨o, hgep, ho, hofit⟩ := item_fits hidx hfit
      have hst := E.layout.storeSize_le_allocSize f.elem
      have hroom : o.toNat + (E.encode f.elem (.int v)).length ≤ arr.cells.length := by
        rw [length_encode_int]
        omega
      have hstore := store_ok hd hroom
      rw [ho] at hstore
      refine ⟨hidx, h.update d (E.putItem arr f idx v), d, arr, hd, ?_, ?_⟩
      · rw [hrun, hp, hgep]
        exact bind_of_ok hstore
      · exact {
          block := by rw [Heap.block?_update_ne _ (Ne.symm (hne d hp)), hl]
          length := rfl
          frame := fun g _ _ _ => rfl
          count := rfl
          ptr := hp
          array := Heap.block?_update_self hd _
          origin := Or.inl hp
          other := fun x _ _ hxd => Heap.block?_update_ne _ (by rintro rfl; exact hxd hp) _
          next_le := by rw [Heap.next_update] }
  · rw [if_neg hidx, pure_apply] at hrun
    exact Or.inr ⟨hidx, hrun⟩

/-! ## Scalars -/

omit hr in
/-- The setter of a scalar. -/
theorem getSetter_scalar (hs : f.isStruct = false) (hr : f.isRepeated = false)
    (hc : f.isCount = false) (v : Nat) :
    E.getSetter S f (.base b) (.int v) n h =
      .ok (true, h.update b (E.put S blk f (E.encode f.type (.int v)))) := by
  rw [getSetter, insertNullCheck_loc]
  simp only [hs, hr, hc, Bool.false_eq_true, if_false]
  exact bind_of_ok (store_slot wf hl hb hf (length_encode_int E _ _))

/-! ## Getters -/

/-- `OutVal` points to memory of size `n`, in block `x`. -/
structure OutVal (h : Heap) (p : Ptr) (n : Nat) (x : Nat) (o : I64) (xblk : Block) : Prop where
  eq : p = .loc x o
  live : h.block? x = some xblk
  fits : o.toNat + n ≤ xblk.cells.length

variable {p : Ptr} {x : Nat} {o : I64} {xblk : Block}

omit hr in
/-- The getter of anything but an immutable array stores what it loads. -/
theorem getGetter_direct (hs : f.isStruct = false) (hr : (f.isRepeated && !f.isMutable) = false)
    (hlen : (E.encode f.type (E.valueAt S blk f)).length = E.layout.storeSize f.type)
    (ho : OutVal h p (E.layout.storeSize f.type) x o xblk) :
    E.getGetter S f (.base b) p h =
      .ok (true, h.update x (xblk.overwrite o.toNat (E.encode f.type (E.valueAt S blk f)))) := by
  obtain ⟨rfl, hx, hfit⟩ := ho
  rw [getGetter, insertNullCheck_loc, bind_of_ok (loadTy_slot wf hl hb hf)]
  simp only [hs, hr, Bool.false_and, Bool.false_eq_true, if_false]
  exact bind_of_ok (store_ok hx (by rw [← hlen] at hfit; exact hfit))

/-- The getter of an immutable array stores a pointer to a copy, unless there is no memory
    for it. -/
theorem getGetter_copy (hm : f.isMutable = false)
    (hread : h.Readable (E.ptrAt S blk f) (E.fieldSizeAt S blk f).toNat)
    (ho : OutVal h p (E.layout.storeSize f.type) x o xblk) :
    (E.alloc.succeeds h.calls (E.fieldSizeAt S blk f).toNat = true ∧ ∃ copy : Block,
      copy.cells = h.bytesAt (E.ptrAt S blk f) (E.fieldSizeAt S blk f).toNat ∧
      E.getGetter S f (.base b) p h = .ok (true, (h.push copy).update x
        (xblk.overwrite o.toNat (E.encode f.type (.ptr (.base h.next)))))) ∨
    (E.alloc.succeeds h.calls (E.fieldSizeAt S blk f).toNat = false ∧
      E.getGetter S f (.base b) p h = .ok (false, h.tick)) := by
  obtain ⟨rfl, hx, hfit⟩ := ho
  obtain ⟨ht, -, hs, -⟩ := wf.array_spec hf hr
  set size := E.fieldSizeAt S blk f with hsize
  have hhead : E.getGetter S f (.base b) (.loc x o) h =
      (malloc E.alloc size >>= fun q => insertNullCheck [q] false do
        memcpy q (E.ptrAt S blk f) size
        E.storeTy f.type (.ptr q) (.loc x o)
        pure true) h := by
    rw [getGetter, insertNullCheck_loc, bind_of_ok (loadTy_slot wf hl hb hf)]
    simp only [hs, hr, hm, Bool.not_false, Bool.and_true, Bool.false_eq_true, if_false, if_true]
    rw [bind_of_ok (getFieldAllocSize_slot wf hl hb hf)]
    rfl
  cases hsuc : E.alloc.succeeds h.calls size.toNat with
  | false =>
    refine Or.inr ⟨rfl, ?_⟩
    rw [hhead, bind_of_ok (malloc_null hsuc), insertNullCheck_null, pure_apply]
  | true =>
    left
    set new := E.alloc.fresh h.calls size with hnew
    obtain ⟨hread₁, hby⟩ := Heap.readable_push hread new
    have hlen := Heap.length_bytesAt hread
    have hnewlen : new.cells.length = size.toNat := Allocator.length_fresh _ _ _
    have h0 : (0 : I64).toNat = 0 := rfl
    refine ⟨rfl, new.overwrite 0 (h.bytesAt (E.ptrAt S blk f) size.toNat),
      Block.overwrite_all (by rw [hlen, hnewlen]), ?_⟩
    have hx₂ := Heap.block?_push_of_some hx
      (new.overwrite 0 (h.bytesAt (E.ptrAt S blk f) size.toNat))
    rw [hhead, bind_of_ok (malloc_ok hsuc), insertNullCheck_loc,
      bind_of_ok (memcpy_ok hread₁ (Heap.block?_push_self h new)
        (by rw [h0, Nat.zero_add, hnewlen])), hby, h0, Heap.update_push_next]
    refine bind_of_ok (store_ok hx₂ ?_)
    rw [ht, length_encode_loc _ _ f.elem, ← ht]
    exact hfit

/-- The item getter stores the item, or it is out of range and nothing has changed. -/
theorem getItemGetter_ok (idx : I64) (harr : E.ArrayOk S h blk f) (hel : f.elem.isPointerTy = false)
    (ho : OutVal h p (E.layout.storeSize f.elem) x o xblk) :
    (idx < E.countAt S blk (S.countOf f) ∧ ∃ d arr, E.ptrAt S blk f = .base d ∧
      h.block? d = some arr ∧ E.getItemGetter S f (.base b) idx p h =
        .ok (true, h.update x (xblk.overwrite o.toNat (E.encode f.elem (E.decode f.elem
          (slice arr.cells (E.layout.allocSize f.elem * idx.toNat)
            (E.layout.storeSize f.elem))))))) ∨
    (¬ idx < E.countAt S blk (S.countOf f) ∧
      E.getItemGetter S f (.base b) idx p h = .ok (false, h)) := by
  obtain ⟨rfl, hx, hxfit⟩ := ho
  obtain ⟨ht, -, -, -, hd, hcm, -⟩ := wf.array_spec hf hr
  have hpt := wf.pointee hf hr
  have hrun : E.getItemGetter S f (.base b) idx (.loc x o) h =
      (if idx < E.countAt S blk (S.countOf f) then do
        let Item ← E.loadTy f.elem (E.itemGEP f.elem (E.ptrAt S blk f) idx)
        E.storeTy f.elem Item (.loc x o)
        pure true
      else pure false : Prog Bool) h := by
    simp only [getItemGetter, hpt, hd]
    rw [insertNullCheck_loc, bind_of_ok (loadTy_slot wf hl hb hf),
      bind_of_ok (loadI64_slot wf hl hb hcm (wf.countOf_type hf hr))]
    rfl
  by_cases hidx : idx < E.countAt S blk (S.countOf f)
  · rw [if_pos hidx] at hrun
    rcases harr with ⟨-, hc⟩ | ⟨d, arr, hp, hd, hfit⟩
    · rw [hc] at hidx
      exact absurd hidx (by bv_omega)
    · left
      obtain ⟨oi, hgep, hoi, hofit⟩ := item_fits hidx hfit
      have hst := E.layout.storeSize_le_allocSize f.elem
      have hload := loadTy_ok (E := E) (t := f.elem) (o := oi) hd (by omega)
      rw [hoi] at hload
      refine ⟨hidx, d, arr, hp, hd, ?_⟩
      rw [hrun, hp, hgep, bind_of_ok hload]
      refine bind_of_ok (store_ok hx ?_)
      rw [decode, hel]
      simp only [Bool.false_eq_true, if_false]
      rw [length_encode_int]
      exact hxfit
  · rw [if_neg hidx, pure_apply] at hrun
    exact Or.inr ⟨hidx, hrun⟩

end Live

end Env

end Tyr
