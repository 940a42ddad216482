import Tyr.Lib.Maintains
import Tyr.Access.Constructor
import Tyr.Wire.AllocFailure
import Tyr.Wire.Recover

/-
  What `create_S` and `deserialize_S` leave behind when they return NULL.

  Neither ever frees anything (`initFields_retains`, `deserializeEntries_retains`), so once the
  block of the struct is there every NULL leaks it. `deserialize_S` returns NULL for the buffers
  it `Rejects`: the walk over the buffer ends without a fault, and the header is not the
  recomputed size. `releases_iff` puts the two functions together.
-/

namespace Tyr

open Prog

namespace Env

variable (E : Env) (S : Struct)

/-! ## Nothing is freed -/

theorem insertNullCheck_retains {α : Type} (Ptrs : List Ptr) (ReturnFail : α)
    {IsNotNull : Prog α} (h : Maintains Heap.Retains IsNotNull) :
    Maintains Heap.Retains (insertNullCheck Ptrs ReturnFail IsNotNull) := by
  unfold insertNullCheck
  exact .ite h (.pure ReturnFail)

theorem loadI64_retains (p : Ptr) : Maintains Heap.Retains (E.loadI64 p) :=
  .bind (.load p 8) fun _ => .pure _

theorem loadTy_retains (t : Ty) (p : Ptr) : Maintains Heap.Retains (E.loadTy t p) :=
  .bind (.load p _) fun _ => .pure _

theorem getFieldAllocSize_retains (f : Field) (Self : Ptr) :
    Maintains Heap.Retains (E.getFieldAllocSize S f Self) := by
  unfold getFieldAllocSize
  refine .ite ?_ (.pure _)
  split
  · exact .bind (E.loadI64_retains _) fun _ => .pure _
  · exact .fault _

theorem initField_retains (f : Field) (Self : Ptr) (Arg : Val) {Next : Prog Ptr}
    (h : Maintains Heap.Retains Next) : Maintains Heap.Retains (E.initField S f Self Arg Next) := by
  unfold initField
  refine .ite (.bind (store_retains _ _) fun _ => h) (.ite ?_ ?_)
  · refine .bind (E.getFieldAllocSize_retains S f Self) fun size => ?_
    refine .bind (malloc_retains _ _) fun q => insertNullCheck_retains _ _ ?_
    refine .bind (memcpy_retains _ _ _) fun _ => ?_
    exact .bind (store_retains _ _) fun _ => h
  · exact .bind (store_retains _ _) fun _ => h

theorem initFields_retains (Self : Ptr) (fs : List Field) (args : List Val) :
    Maintains Heap.Retains (E.initFields S Self fs args) := by
  induction fs generalizing args with
  | nil => exact .pure Self
  | cons f fs ih =>
    unfold initFields
    refine .ite (E.initField_retains S f Self _ (ih args)) ?_
    split
    · next arg args => exact E.initField_retains S f Self arg (ih args)
    · exact .fault _

theorem swapBytes_retains (t : Ty) (val : Val) : Maintains Heap.Retains (E.swapBytes t val) := by
  unfold swapBytes
  refine .ite (.pure _) ?_
  split
  · exact .ite (.pure _) (.ite (.pure _) (.fault _))
  · exact .pure _
  · exact .pure _
  · exact .fault _

theorem swapLoop_retains (t : Ty) (ArrayPtr : Ptr) (Count loopIter : I64) :
    Maintains Heap.Retains (E.swapLoop t ArrayPtr Count loopIter) := by
  induction loopIter using swapLoop.induct Count with
  | case1 i ih =>
    unfold swapLoop
    refine .bind (E.loadTy_retains t _) fun val => ?_
    refine .bind (E.swapBytes_retains t val) fun swapped => ?_
    refine .bind (store_retains _ _) fun _ => ?_
    split
    · exact .pure ()
    · next hmore => exact ih hmore

theorem swapArrayBytes_retains (t : Ty) (ArrayPtr : Ptr) (Count : I64) :
    Maintains Heap.Retains (E.swapArrayBytes t ArrayPtr Count) := by
  unfold swapArrayBytes
  refine .ite (.pure ()) ?_
  split
  · exact .ite (.pure ()) (E.swapLoop_retains _ _ _ _)
  · exact E.swapLoop_retains _ _ _ _

theorem fieldDeserializer_retains {f : Field} (hs : f.isStruct = false) (Self InBuf : Ptr) :
    Maintains Heap.Retains (E.fieldDeserializer S f Self InBuf) := by
  unfold fieldDeserializer
  refine insertNullCheck_retains _ _ ?_
  rw [if_neg (by simp [hs])]
  refine .ite ?_ ?_
  · split
    · refine .bind (E.loadI64_retains _) fun _ => ?_
      refine .bind (store_retains _ _) fun _ => ?_
      refine .bind (E.getFieldAllocSize_retains S _ _) fun _ => ?_
      refine .bind (E.getFieldAllocSize_retains S _ _) fun _ => ?_
      refine .bind (malloc_retains _ _) fun _ => insertNullCheck_retains _ _ ?_
      refine .bind (memcpy_retains _ _ _) fun _ => ?_
      refine .bind (E.swapArrayBytes_retains _ _ _) fun _ => ?_
      exact .bind (store_retains _ _) fun _ => .pure _
    · exact .fault _
  · refine .bind (E.loadTy_retains _ _) fun _ => ?_
    refine .bind (E.swapBytes_retains _ _) fun _ => ?_
    refine .bind (E.getFieldAllocSize_retains S _ _) fun _ => ?_
    exact .bind (store_retains _ _) fun _ => .pure _

theorem sumAllocSizes_retains (Self : Ptr) (fs : List Field) (size : I64) :
    Maintains Heap.Retains (E.sumAllocSizes S Self fs size) := by
  induction fs generalizing size with
  | nil => exact .pure size
  | cons f fs ih =>
    exact .bind (E.getFieldAllocSize_retains S f Self) fun _ => ih _

/-! ## The loop of `swapArrayBytes` on any block -/

/-- Element `i`, addressed modulo `2 ^ 64`, lies in a block of length `len`. -/
def ItemFits (t : Ty) (len : Nat) (i : I64) : Prop :=
  (i * BitVec.ofNat 64 (E.layout.allocSize t)).toNat + E.layout.storeSize t ≤ len

/-- The code that swaps `n` elements in a block of length `len` comes to its end. An empty array
    keeps the loop going for `2 ^ 64` rounds. -/
def SwapsThrough (t : Ty) (n : I64) (len : Nat) : Prop :=
  E.layout.bigEndian = true → t.isSwapped = true →
    t.hasBswap = true ∧ ∀ i : I64, i ≤ n - 1 → E.ItemFits t len i

section Loop

variable {E} {t : Ty} {r : Nat} {n i : I64} {g : Heap} {out : Block}

theorem itemGEP_start (i : I64) :
    E.itemGEP t (.base r) i = .loc r (i * BitVec.ofNat 64 (E.layout.allocSize t)) := by
  rw [itemGEP, Ptr.add_loc, show (0 : I64) + i * BitVec.ofNat 64 (E.layout.allocSize t) =
    i * BitVec.ofNat 64 (E.layout.allocSize t) from BitVec.zero_add _]

/-- One round. -/
theorem swapElement_through (ht : t.IsScalar) (hsw : E.Swappable t) (hout : g.block? r = some out)
    (hfit : E.ItemFits t out.cells.length i) (next : Prog Unit) :
    ∃ out' : Block, out'.cells.length = out.cells.length ∧ (do
      let val ← E.loadTy t (E.itemGEP t (.base r) i)
      let swapped ← E.swapBytes t val
      E.storeTy t swapped (E.itemGEP t (.base r) i)
      next) g = next (g.update r out') := by
  unfold ItemFits at hfit
  obtain ⟨v, -, hload, hbytes, hstore⟩ := swapValue_ok ht hsw hout hfit
  refine ⟨_, Block.length_overwrite out (i * BitVec.ofNat 64 (E.layout.allocSize t)).toNat
    (E.wireCells t v), ?_⟩
  rw [itemGEP_start, bind_of_ok hload, bind_of_ok hbytes, bind_of_ok hstore]

theorem swapLoop_through (ht : t.IsScalar) (hsw : E.Swappable t) (hi : i ≤ n - 1)
    (hout : g.block? r = some out)
    (hfit : ∀ j : I64, i ≤ j → j ≤ n - 1 → E.ItemFits t out.cells.length j) :
    ∃ out' : Block, out'.cells.length = out.cells.length ∧
      E.swapLoop t (.base r) n i g = .ok ((), g.update r out') := by
  induction i using swapLoop.induct n generalizing g out with
  | case1 i ih =>
    obtain ⟨out₁, hlen₁, hrun₁⟩ := swapElement_through ht hsw hout
      (hfit i (BitVec.le_refl i) hi)
      (if _h : i + 1 = n then pure () else E.swapLoop t (.base r) n (i + 1))
    unfold swapLoop
    rw [hrun₁]
    by_cases hlast : i + 1 = n
    · rw [dif_pos hlast]
      exact ⟨out₁, hlen₁, rfl⟩
    · rw [dif_neg hlast]
      obtain ⟨out', hlen, hrun⟩ := ih hlast (by bv_omega) (Heap.block?_update_self hout out₁)
        (fun j hj hjn => by rw [hlen₁]; exact hfit j (by bv_omega) hjn)
      exact ⟨out', hlen.trans hlen₁, by rw [hrun, Heap.update_update]⟩

/-- A loop that ends has swapped elements inside the block. -/
theorem fits_of_swapLoop (ht : t.IsScalar) (hBE : E.layout.bigEndian = true)
    (hswap : t.isSwapped = true) (hi : i ≤ n - 1) (hout : g.block? r = some out)
    {res : Unit × Heap} (hrun : E.swapLoop t (.base r) n i g = .ok res) :
    t.hasBswap = true ∧ ∀ j : I64, i ≤ j → j ≤ n - 1 → E.ItemFits t out.cells.length j := by
  induction i using swapLoop.induct n generalizing g out with
  | case1 i ih =>
    have hnp := ht.not_pointer
    have hfit : E.ItemFits t out.cells.length i := by
      by_contra hno
      unfold ItemFits at hno
      unfold swapLoop at hrun
      rw [itemGEP_start, bind_of_error (loadTy_fault hout (by omega))] at hrun
      cases hrun
    have hb : t.hasBswap = true := by
      by_contra hno
      unfold swapLoop at hrun
      rw [itemGEP_start, bind_of_ok (loadTy_ok hout hfit)] at hrun
      simp only [decode, hnp, Bool.false_eq_true, if_false] at hrun
      rw [bind_of_error (swapBytes_fault hBE hswap (Bool.eq_false_iff.mpr hno))] at hrun
      cases hrun
    refine ⟨hb, fun j hj hjn => ?_⟩
    obtain ⟨out₁, hlen₁, hrun₁⟩ := swapElement_through ht (fun _ _ => hb) hout hfit
      (if _h : i + 1 = n then pure () else E.swapLoop t (.base r) n (i + 1))
    unfold swapLoop at hrun
    rw [hrun₁] at hrun
    by_cases hji : j = i
    · rw [hji]
      exact hfit
    · have hlast : ¬ i + 1 = n := by
        intro hlast
        bv_omega
      rw [dif_neg hlast] at hrun
      have h := (ih hlast (by bv_omega) (Heap.block?_update_self hout out₁) hrun).2 j
        (by bv_omega) hjn
      rwa [hlen₁] at h

theorem swapArrayBytes_through (ht : t.IsScalar) (hout : g.block? r = some out)
    (h : E.SwapsThrough t n out.cells.length) :
    ∃ out' : Block, out'.cells.length = out.cells.length ∧
      E.swapArrayBytes t (.base r) n g = .ok ((), g.update r out') := by
  rw [swapArrayBytes_eq ht]
  split
  · next hswap =>
    obtain ⟨hb, hfit⟩ := h hswap.1 hswap.2
    exact swapLoop_through ht (fun _ _ => hb) (by bv_omega) hout fun j _ hj => hfit j hj
  · exact ⟨out, rfl, by rw [Heap.update_self hout]; rfl⟩

theorem swapsThrough_of_ok (ht : t.IsScalar) (hout : g.block? r = some out)
    {res : Unit × Heap} (hrun : E.swapArrayBytes t (.base r) n g = .ok res) :
    E.SwapsThrough t n out.cells.length := by
  intro hBE hswap
  rw [swapArrayBytes_eq ht, if_pos ⟨hBE, hswap⟩] at hrun
  obtain ⟨hb, hfit⟩ := fits_of_swapLoop ht hBE hswap (by bv_omega) hout hrun
  exact ⟨hb, fun j hj => hfit j (by bv_omega) hj⟩

end Loop

/-! ## The walk over any buffer, in either byte order -/

section Walk

variable (buf : List Cell) (f : Field) (off : I64) (call : Nat)

/-- The count that is found in front of the elements of array `f`. -/
def countFound : I64 := E.swapI64 (E.decodeI64 (slice buf off.toNat 8))

/-- The size of its block. -/
def sizeFound : I64 := E.sizeFor f (E.countFound buf off)

/-- The deserializer of field `f`, called at `off` after `call` allocations, comes to its end. -/
def Passes : Prop :=
  if f.isRepeated then
    off.toNat + 8 ≤ buf.length ∧
      (E.alloc.succeeds call (E.sizeFound buf f off).toNat = true →
        (E.sizeFound buf f off ≠ 0 →
          off.toNat + 8 + (E.sizeFound buf f off).toNat ≤ buf.length) ∧
        E.SwapsThrough f.elem (E.countFound buf off) (E.sizeFound buf f off).toNat)
  else off.toNat + E.layout.storeSize f.type ≤ buf.length ∧ E.Swappable f.type

/-- What it returns. -/
def advanceFound : I64 :=
  if f.isRepeated then
    if E.alloc.succeeds call (E.sizeFound buf f off).toNat then 8 + E.sizeFound buf f off else 0
  else BitVec.ofNat 64 (E.layout.allocSize f.type)

/-- Its part of the recomputed size. -/
def wireFound : Nat :=
  if f.isRepeated then 8 + (E.sizeFound buf f off).toNat else E.layout.allocSize f.type

end Walk

/-- All deserializers come to their end, and the sizes of their fields add up to `total`. -/
def Walks (buf : List Cell) : List Field → I64 → Nat → Nat → Prop
  | [], _, _, total => total = 0
  | f :: fs, off, call, total =>
    if f.isCount then Walks buf fs off call total
    else E.Passes buf f off call ∧ ∃ rest, total = E.wireFound buf f off + rest ∧
      Walks buf fs (off + E.advanceFound buf f off call)
        (call + if f.isRepeated then 1 else 0) rest

/-- The buffer is read without a fault, and its header is not the recomputed size. -/
def Rejects (buf : List Cell) (call : Nat) : Prop :=
  8 ≤ buf.length ∧ ∃ total, E.Walks buf S.fields 8 call total ∧
    E.swapI64 (E.headerIn buf) ≠ 8 + BitVec.ofNat 64 total

section Field

variable {E S} {h : Heap} {a s : Nat} {buf obj : Block} {f : Field} {off : I64}

theorem fieldDeserializer_passes_scalar (flat : S.IsFlat) (ha : h.block? a = some buf)
    (hl : h.block? s = some obj) (hb : E.Holds S obj) (hf : f ∈ S.fields)
    (hc : f.isCount = false) (hr : f.isRepeated = false)
    (hin : off.toNat + E.layout.storeSize f.type ≤ buf.cells.length)
    (hsw : E.Swappable f.type) :
    ∃ h' obj', E.fieldDeserializer S f (.base s) (.loc a off) h =
        .ok (BitVec.ofNat 64 (E.layout.allocSize f.type), h') ∧
      E.Advances S s [f] h h' obj obj' ∧ h'.calls = h.calls := by
  have wf := flat.toWellFormed
  have hs := flat.isStruct f hf
  have ht := not_pointer wf hf hs hr
  set raw := slice buf.cells off.toNat (E.layout.storeSize f.type) with hraw
  have hdecode : E.decode f.type raw = .int (E.decode f.type raw).asInt := by
    simp only [decode, ht, Bool.false_eq_true, if_false, Val.asInt]
  set w := E.wireInt f.type (E.decode f.type raw).asInt with hw
  have hlen := length_encode_int E f.type w
  have hrun := fieldDeserializer_scalar_run wf ha hl hb hf hr hs hin
    (by rw [← hraw, hdecode]; exact swapBytes_ok (flat.scalar f hf hr) hsw)
  refine ⟨_, _, hrun, ⟨Heap.block?_update_self hl _, Block.length_overwrite _ _ _,
    fun b _ hne => Heap.block?_update_ne h hne _, by rw [Heap.next_update], ?_⟩, rfl⟩
  intro g hg hun
  exact slot_put_ne wf hb hf hg (hun f List.mem_cons_self hc).1 hlen

theorem fieldDeserializer_passes_array (flat : S.IsFlat) (ha : h.block? a = some buf)
    (has : a ≠ s) (hl : h.block? s = some obj) (hb : E.Holds S obj) (hf : f ∈ S.fields)
    (hc : f.isCount = false) (hr : f.isRepeated = true)
    (hpass : E.Passes buf.cells f off h.calls) :
    ∃ h' obj', E.fieldDeserializer S f (.base s) (.loc a off) h =
        .ok (E.advanceFound buf.cells f off h.calls, h') ∧
      E.Advances S s [f] h h' obj obj' ∧ h'.calls = h.calls + 1 ∧
      E.countAt S obj' (S.countOf f) = E.countFound buf.cells off := by
  have wf := flat.toWellFormed
  unfold Passes at hpass
  rw [if_pos hr] at hpass
  obtain ⟨h8, hpass⟩ := hpass
  unfold advanceFound
  rw [if_pos hr]
  set n := E.countFound buf.cells off with hn
  set size := E.sizeFound buf.cells f off with hsize
  have hrun := fieldDeserializer_array_run wf ha hl hb hf hr h8 hn.symm
  have hcount := countAt_putCount wf hf hr hb n
  have hframe := fun (g : Field) hg hgn => slot_putCount_ne (g := g) wf hf hr hb n hg hgn
  set obj₁ := E.putCount S obj f n with hobj₁
  have hl₁ : (h.update s obj₁).block? s = some obj₁ := Heap.block?_update_self hl obj₁
  have hb₁ : E.Holds S obj₁ := holds_putCount hb n
  have hlen₁ : obj₁.cells.length = obj.cells.length := length_putCount _ _ _
  cases hA : E.alloc.succeeds h.calls size.toNat with
  | false =>
    have hA' : E.alloc.succeeds (h.update s obj₁).calls (E.sizeFor f n).toNat = false := hA
    refine ⟨(h.update s obj₁).tick, obj₁, ?_, ⟨hl₁, hlen₁,
      fun b _ hne => Heap.block?_update_ne h hne _, ?_, ?_⟩, ?_, hcount⟩
    · rw [hrun, loadElements_null hA', if_neg Bool.false_ne_true]
    · rw [Heap.next_tick, Heap.next_update]
    · intro g hg hun
      exact hframe g hg ((hun f List.mem_cons_self hc).2 hr)
    · rw [Heap.calls_tick, Heap.calls_update]
  | true =>
    obtain ⟨hin, hthrough⟩ := hpass hA
    have ha₁ : (h.update s obj₁).block? a = some buf := by
      rw [Heap.block?_update_ne h has, ha]
    obtain ⟨hread, -⟩ := readable_elements ha₁ h8 hin
    set src : Ptr := .loc a (off + 8) with hsrc
    set new := (E.alloc.fresh (h.update s obj₁).calls size).overwrite 0
      ((h.update s obj₁).bytesAt src size.toNat) with hnew
    have hnewlen : new.cells.length = size.toNat := by
      rw [hnew, Block.length_overwrite, Allocator.length_fresh]
    obtain ⟨arr, -, hswap⟩ := swapArrayBytes_through (n := n) (flat.elem_isScalar hf hr)
      (Heap.block?_push_self (h.update s obj₁) new) (by rw [hnewlen]; exact hthrough)
    rw [Heap.update_push_next] at hswap
    have hload := loadElements_run wf hl₁ hb₁ hf hr (t := f.elem) hA hread hswap
    set obj₂ := E.putPtr S obj₁ f (h.update s obj₁).next with hobj₂
    refine ⟨_, obj₂, ?_, ⟨Heap.block?_push_of_some (Heap.block?_update_self hl₁ obj₂) arr, ?_, ?_,
      ?_, ?_⟩, ?_, ?_⟩
    · rw [hrun, if_pos rfl]
      exact hload
    · rw [hobj₂, length_putPtr, hlen₁]
    · intro b hbl hne
      rw [Heap.block?_push_of_lt (by rwa [Heap.next_update, Heap.next_update]),
        Heap.block?_update_ne _ hne, Heap.block?_update_ne _ hne]
    · rw [Heap.next_push, Heap.next_update, Heap.next_update]
      exact Nat.le_succ _
    · intro g hg hun
      obtain ⟨h1, h2⟩ := hun f List.mem_cons_self hc
      rw [slot_putPtr_ne wf hf hr hb₁ _ hg h1, hframe g hg (h2 hr)]
    · rw [Heap.calls_push, Heap.calls_update, Heap.calls_update]
    · rw [hobj₂, countAt_putPtr wf hf hr hb₁, hcount]

/-- Elements that were loaded were there, and could be swapped. -/
theorem passes_of_loadElements {Self : Ptr} {n size : I64} (ht : f.elem.IsScalar)
    (ha : h.block? a = some buf) (h8 : off.toNat + 8 ≤ buf.cells.length)
    (hA : E.alloc.succeeds h.calls size.toNat = true) {res : I64 × Heap}
    (hok : E.loadElements S f f.elem Self (.loc a (off + 8)) n size h = .ok res) :
    (size ≠ 0 → off.toNat + 8 + size.toNat ≤ buf.cells.length) ∧
      E.SwapsThrough f.elem n size.toNat := by
  have ho8 : (off + 8).toNat = off.toNat + 8 := by
    have := buf.fits
    have h8 : (8 : I64).toNat = 8 := rfl
    rw [BitVec.toNat_add, h8]
    omega
  have hin : size ≠ 0 → off.toNat + 8 + size.toNat ≤ buf.cells.length := by
    intro hne
    by_contra hno
    have hnone : h.read (.loc a (off + 8)) size.toNat = none := by
      have hout : ¬ (off + 8).toNat + size.toNat ≤ buf.cells.length := by omega
      simp only [Heap.read, ha, Option.bind_some, if_neg hout]
    rw [loadElements_fault hA hne (Heap.lt_next ha) hnone] at hok
    cases hok
  refine ⟨hin, ?_⟩
  obtain ⟨hread, -⟩ := readable_elements ha h8 hin
  obtain ⟨hread', -⟩ := Heap.readable_push hread (E.alloc.fresh h.calls size)
  have h0 : (0 : I64).toNat = 0 := rfl
  rw [loadElements, bind_of_ok (malloc_ok hA), insertNullCheck_loc,
    bind_of_ok (memcpy_ok hread' (Heap.block?_push_self _ _)
      (by rw [Allocator.length_fresh, h0, Nat.zero_add])), Heap.update_push_next] at hok
  obtain ⟨u, h₁, hswap, -⟩ := bind_eq_ok hok
  have hthrough := swapsThrough_of_ok ht (Heap.block?_push_self _ _) hswap
  rwa [Block.length_overwrite, Allocator.length_fresh] at hthrough

/-- A deserializer that comes to its end passed. -/
theorem passes_of_fieldDeserializer (flat : S.IsFlat) (ha : h.block? a = some buf) (has : a ≠ s)
    (hl : h.block? s = some obj) (hb : E.Holds S obj) (hf : f ∈ S.fields)
    {res : I64 × Heap} (hok : E.fieldDeserializer S f (.base s) (.loc a off) h = .ok res) :
    E.Passes buf.cells f off h.calls := by
  have wf := flat.toWellFormed
  have hs := flat.isStruct f hf
  unfold Passes
  cases hr : f.isRepeated with
  | false =>
    have ht := not_pointer wf hf hs hr
    rw [if_neg Bool.false_ne_true]
    rw [fieldDeserializer, insertNullCheck_loc, if_neg (by simp [hs]), if_neg (by simp [ht])]
      at hok
    have hin : off.toNat + E.layout.storeSize f.type ≤ buf.cells.length := by
      by_contra hno
      rw [bind_of_error (loadTy_fault ha (by omega))] at hok
      cases hok
    refine ⟨hin, fun hBE hswapped => ?_⟩
    by_contra hno
    rw [bind_of_ok (loadTy_ok ha hin)] at hok
    simp only [decode, ht, Bool.false_eq_true, if_false] at hok
    rw [bind_of_error (swapBytes_fault hBE hswapped (Bool.eq_false_iff.mpr hno))] at hok
    cases hok
  | true =>
    rw [if_pos rfl]
    have h8 : off.toNat + 8 ≤ buf.cells.length := by
      by_contra hno
      obtain ⟨ht, -, hs, -, hd, -⟩ := wf.array_spec hf hr
      have hp : f.type.isPointerTy = true := by rw [ht]; rfl
      have hpt := wf.pointee hf hr
      rw [fieldDeserializer, insertNullCheck_loc, if_neg (by simp [hs]), if_pos hp] at hok
      simp only [hpt, hd] at hok
      rw [bind_of_error (loadI64_fault ha (by omega))] at hok
      cases hok
    refine ⟨h8, fun hA => ?_⟩
    rw [fieldDeserializer_array_run wf ha hl hb hf hr h8 rfl] at hok
    have ha₁ := (Heap.block?_update_ne h has
      (E.putCount S obj f (E.countFound buf.cells off))).trans ha
    exact passes_of_loadElements (flat.elem_isScalar hf hr) ha₁ h8 hA hok

/-- One field of the walk, with its part of the recomputed size. -/
theorem fieldDeserializer_passes (flat : S.IsFlat) (ha : h.block? a = some buf) (has : a ≠ s)
    (hl : h.block? s = some obj) (hb : E.Holds S obj) (hf : f ∈ S.fields)
    (hc : f.isCount = false) (hpass : E.Passes buf.cells f off h.calls) :
    ∃ h' obj', E.fieldDeserializer S f (.base s) (.loc a off) h =
        .ok (E.advanceFound buf.cells f off h.calls, h') ∧
      E.Advances S s [f] h h' obj obj' ∧
      h'.calls = h.calls + (if f.isRepeated then 1 else 0) ∧
      E.wireNat S obj' f = E.wireFound buf.cells f off := by
  have wf := flat.toWellFormed
  cases hr : f.isRepeated with
  | true =>
    obtain ⟨h', obj', hrun, hadv, hcalls, hcount⟩ :=
      fieldDeserializer_passes_array flat ha has hl hb hf hc hr hpass
    refine ⟨h', obj', hrun, hadv, hcalls, ?_⟩
    rw [wireNat, Field.onWire, if_neg (by simp [hc]), if_pos hr, fieldSizeAt_array hr, hcount,
      wireFound, if_pos hr]
    rfl
  | false =>
    unfold Passes at hpass
    rw [if_neg (by simp [hr])] at hpass
    obtain ⟨h', obj', hrun, hadv, hcalls⟩ :=
      fieldDeserializer_passes_scalar flat ha hl hb hf hc hr hpass.1 hpass.2
    refine ⟨h', obj', ?_, hadv, hcalls, ?_⟩
    · rw [hrun, advanceFound, if_neg (by simp [hr])]
    · have hb' : E.Holds S obj' := by
        rw [Holds, hadv.length]
        exact hb
      rw [wireNat, Field.onWire, if_neg (by simp [hc]), if_neg (by simp [hr]),
        toNat_allocSize wf hb' hf hr, wireFound, if_neg (by simp [hr])]

end Field

section Entries

variable {E S} {a s : Nat} {buf : Block}

/-- A field's size is not touched by the deserializers of other fields. -/
theorem Advances.wireNat {h h' : Heap} {obj obj' : Block} {f : Field} {fs : List Field}
    (wf : S.WellFormed) (hadv : E.Advances S s fs h h' obj obj') (hm : ∀ g ∈ fs, g ∈ S.fields)
    (hf : f ∈ S.fields) (hnew : f ∉ fs) : E.wireNat S obj' f = E.wireNat S obj f := by
  unfold Env.wireNat fieldSizeAt
  cases hr : f.isRepeated with
  | false => rfl
  | true =>
    have hslot := hadv.frame _ (wf.countOf_mem hf hr) fun g hg =>
      untouched_count wf hf (hm g hg) hr fun he => hnew (he ▸ hg)
    simp only [countAt, hslot]

/-- The unrolled calls along a walk. -/
theorem deserializeEntries_walks (flat : S.IsFlat) (hfun : Resolves E S) (has : a ≠ s) :
    ∀ (fs : List Field) (off : I64) (h : Heap) (obj : Block) (total : Nat),
      (∀ f ∈ fs, f ∈ S.fields) → fs.Nodup → h.block? a = some buf → h.block? s = some obj →
      E.Holds S obj → E.Walks buf.cells fs off h.calls total →
      ∃ idx h' obj', E.deserializeEntries S (.base a) (.base s) fs off h = .ok (idx, h') ∧
        E.Advances S s fs h h' obj obj' ∧ E.sumWire S obj' fs = total := by
  have wf := flat.toWellFormed
  intro fs
  induction fs with
  | nil =>
    intro off h obj total _ _ _ hl _ hwalk
    exact ⟨off, h, obj, rfl, ⟨hl, rfl, fun _ _ _ => rfl, le_rfl, fun _ _ _ => rfl⟩, hwalk.symm⟩
  | cons f fs ih =>
    intro off h obj total hm hnd ha hl hb hwalk
    have hf := hm f List.mem_cons_self
    have hm' : ∀ g ∈ fs, g ∈ S.fields := fun g hg => hm g (List.mem_cons_of_mem f hg)
    obtain ⟨hnew, hnd'⟩ := List.nodup_cons.mp hnd
    unfold Walks at hwalk
    unfold deserializeEntries
    cases hc : f.isCount with
    | true =>
      simp only [hc, if_true] at hwalk ⊢
      obtain ⟨idx, h', obj', hrun, hadv, hsum⟩ := ih off h obj total hm' hnd' ha hl hb hwalk
      refine ⟨idx, h', obj', hrun, ⟨hadv.block, hadv.length, hadv.other, hadv.next_le, ?_⟩, ?_⟩
      · intro g hg hun
        exact hadv.frame g hg fun x hx => hun x (List.mem_cons_of_mem f hx)
      · rw [sumWire_cons, wireNat_count hc, hsum, Nat.zero_add]
    | false =>
      simp only [hc, Bool.false_eq_true, if_false] at hwalk ⊢
      obtain ⟨hpass, rest, rfl, hrest⟩ := hwalk
      obtain ⟨h₁, obj₁, hrun₁, hadv₁, hcalls, hwire⟩ :=
        fieldDeserializer_passes flat ha has hl hb hf hc hpass
      have ha₁ : h₁.block? a = some buf := by rw [hadv₁.other a (Heap.lt_next ha) has, ha]
      have hb₁ : E.Holds S obj₁ := by
        rw [Holds, hadv₁.length]
        exact hb
      obtain ⟨idx, h', obj', hrun, hadv, hsum⟩ := ih _ h₁ obj₁ rest hm' hnd' ha₁ hadv₁.block hb₁
        (by rw [hcalls]; exact hrest)
      refine ⟨idx, h', obj', ?_, hadv₁.cons hadv, ?_⟩
      · rw [hfun.deserializer hf hc, Ptr.add_loc,
          show (0 : I64) + off = off from BitVec.zero_add off]
        exact (bind_of_ok hrun₁).trans hrun
      · rw [sumWire_cons, hadv.wireNat wf hm' hf hnew, hwire, hsum]

/-- Calls that come to their end are a walk. -/
theorem walks_of_deserializeEntries (flat : S.IsFlat) (hfun : Resolves E S) (has : a ≠ s) :
    ∀ (fs : List Field) (off : I64) (h : Heap) (obj : Block) (res : I64 × Heap),
      (∀ f ∈ fs, f ∈ S.fields) → h.block? a = some buf → h.block? s = some obj →
      E.Holds S obj → E.deserializeEntries S (.base a) (.base s) fs off h = .ok res →
      ∃ total, E.Walks buf.cells fs off h.calls total := by
  intro fs
  induction fs with
  | nil =>
    intro off h obj res _ _ _ _ _
    exact ⟨0, rfl⟩
  | cons f fs ih =>
    intro off h obj res hm ha hl hb hok
    have hf := hm f List.mem_cons_self
    have hm' : ∀ g ∈ fs, g ∈ S.fields := fun g hg => hm g (List.mem_cons_of_mem f hg)
    unfold deserializeEntries at hok
    unfold Walks
    cases hc : f.isCount with
    | true =>
      simp only [hc, if_true] at hok ⊢
      exact ih off h obj res hm' ha hl hb hok
    | false =>
      simp only [hc, Bool.false_eq_true, if_false, hfun.deserializer hf hc] at hok ⊢
      rw [Ptr.add_loc, show (0 : I64) + off = off from BitVec.zero_add off] at hok
      obtain ⟨size, h₁, hrun₁, hrun⟩ := bind_eq_ok hok
      have hpass := passes_of_fieldDeserializer flat ha has hl hb hf hrun₁
      obtain ⟨h₂, obj₁, hrun₂, hadv₁, hcalls, -⟩ :=
        fieldDeserializer_passes flat ha has hl hb hf hc hpass
      rw [hrun₂] at hrun₁
      obtain ⟨rfl, rfl⟩ := Prod.mk.inj (Except.ok.inj hrun₁)
      have ha₁ : h₂.block? a = some buf := by rw [hadv₁.other a (Heap.lt_next ha) has, ha]
      have hb₁ : E.Holds S obj₁ := by
        rw [Holds, hadv₁.length]
        exact hb
      obtain ⟨rest, hrest⟩ := ih _ h₂ obj₁ res hm' ha₁ hadv₁.block hb₁ hrun
      rw [hcalls] at hrest
      exact ⟨_, hpass, rest, rfl, hrest⟩

end Entries

/-! ## The two functions -/

section Functions

variable {E S} {h : Heap}

/-- `deserialize_S` returns NULL for the buffers it rejects. -/
theorem getDeserializer_null_iff (flat : S.IsFlat) (hfun : Resolves E S)
    (hstruct : E.layout.structSize S.packed S.elements < 2 ^ 64) {a : Nat} {buf : Block}
    (ha : h.block? a = some buf)
    (hA : E.alloc.succeeds h.calls (E.getStructAllocSize S).toNat = true) :
    (∃ h', E.getDeserializer S (.base a) h = .ok (.null, h')) ↔
      E.Rejects S buf.cells (h.calls + 1) := by
  have wf := flat.toWellFormed
  have has : a ≠ h.next := Nat.ne_of_lt (Heap.lt_next ha)
  have ha₁ := Heap.block?_push_of_some ha (E.newStruct S h)
  have hnew := Heap.block?_push_self h (E.newStruct S h)
  have hb : E.Holds S (E.newStruct S h) := holds_fresh hstruct _
  have hcalls : (h.push (E.newStruct S h)).calls = h.calls + 1 := rfl
  have hfull : ∀ {total}, E.Walks buf.cells S.fields 8 (h.calls + 1) total → 8 ≤ buf.cells.length →
      ∃ h', E.getDeserializer S (.base a) h = .ok
        (if E.swapI64 (E.headerIn buf.cells) = 8 + BitVec.ofNat 64 total then .base h.next
          else .null, h') := by
    intro total hwalk h8
    rw [← hcalls] at hwalk
    obtain ⟨idx, h', obj, hrun, hadv, hsum⟩ := deserializeEntries_walks flat hfun has S.fields 8 _ _
      total (fun _ hf => hf) wf.fields_nodup ha₁ hnew hb hwalk
    have hb' : E.Holds S obj := by
      rw [Holds, hadv.length]
      exact hb
    rw [getDeserializer_run wf ha h8 hA hrun hadv.block hb', ← sum_wireSize wf, hsum]
    exact ⟨h', rfl⟩
  constructor
  · intro hnull
    obtain ⟨h', hrun⟩ := hnull
    have h8 : 8 ≤ buf.cells.length := by
      by_contra hno
      have hfault : E.loadI64 (.base a) h = .error .access :=
        loadI64_fault ha (by rw [show (0 : I64).toNat = 0 from rfl]; omega)
      rw [getDeserializer, bind_of_error hfault] at hrun
      cases hrun
    have hentries : ∃ res, E.deserializeEntries S (.base a) (.base h.next) S.fields 8
        (h.push (E.newStruct S h)) = .ok res := by
      have hok := hrun
      rw [getDeserializer, bind_of_ok (loadI64_ok ha (by simpa using h8)), insertNullCheck_loc,
        bind_of_ok (malloc_ok hA), insertNullCheck_loc] at hok
      obtain ⟨idx, h₁, hres, -⟩ := bind_eq_ok hok
      exact ⟨_, hres⟩
    obtain ⟨res, hres⟩ := hentries
    obtain ⟨total, hwalk⟩ := walks_of_deserializeEntries flat hfun has S.fields 8 _ _ res
      (fun _ hf => hf) ha₁ hnew hb hres
    rw [hcalls] at hwalk
    refine ⟨h8, total, hwalk, fun heq => ?_⟩
    obtain ⟨h'', hrun'⟩ := hfull hwalk h8
    rw [if_pos heq, hrun] at hrun'
    cases hrun'
  · intro hrejects
    obtain ⟨h8, total, hwalk, hne⟩ := hrejects
    obtain ⟨h', hrun⟩ := hfull hwalk h8
    rw [if_neg hne] at hrun
    exact ⟨h', hrun⟩

/-- A call that leaves no block behind when it returns NULL. -/
def Releases (x : Prog Ptr) (h : Heap) : Prop :=
  ∀ h', x h = .ok (.null, h') → ∀ b, (h'.block? b).isSome ↔ (h.block? b).isSome

/-- A program that allocates one block and then releases nothing. -/
theorem releases_iff_of_retains {x : Prog Ptr} {y : Prog Ptr} (hy : Maintains Heap.Retains y)
    (blk : Block) (hx : x h = y (h.push blk)) :
    Releases x h ↔ ¬ ∃ h', x h = .ok (.null, h') := by
  constructor
  · intro hrel ⟨h', hrun⟩
    have hlive : ((h.push blk).block? h.next).isSome := by
      rw [Heap.block?_push_self]
      rfl
    have hleft := (hrel h' hrun h.next).mp (hy _ _ _ (hx.symm.trans hrun) h.next hlive)
    obtain ⟨old, hold⟩ := Option.isSome_iff_exists.mp hleft
    exact absurd (Heap.lt_next hold) (Nat.lt_irrefl _)
  · intro hno h' hrun
    exact absurd ⟨h', hrun⟩ hno

theorem deserializeEntries_retains (hfun : Resolves E S) (hs : ∀ f ∈ S.fields, f.isStruct = false)
    (SerializedSelf StructOut : Ptr) :
    ∀ (fs : List Field) (idx : I64), (∀ f ∈ fs, f ∈ S.fields) →
      Maintains Heap.Retains (E.deserializeEntries S SerializedSelf StructOut fs idx) := by
  intro fs
  induction fs with
  | nil => exact fun idx _ => .pure idx
  | cons f fs ih =>
    intro idx hm
    have hf := hm f List.mem_cons_self
    have hm' : ∀ g ∈ fs, g ∈ S.fields := fun g hg => hm g (List.mem_cons_of_mem f hg)
    unfold deserializeEntries
    cases hc : f.isCount with
    | true => exact ih idx hm'
    | false =>
      simp only [Bool.false_eq_true, if_false, hfun.deserializer hf hc]
      exact .bind (E.fieldDeserializer_retains S (hs f hf) _ _) fun _ => ih _ hm'

theorem getConstructor_releases_iff (args : List Val)
    (hA : E.alloc.succeeds h.calls (E.getStructAllocSize S).toNat = true) :
    Releases (E.getConstructor S args) h ↔ ¬ ∃ h', E.getConstructor S args h = .ok (.null, h') :=
  releases_iff_of_retains (E.initFields_retains S (.base h.next) S.fields args) _
    (getConstructor_allocated args hA)

theorem getDeserializer_releases_iff (flat : S.IsFlat) (hfun : Resolves E S) {a : Nat}
    (hA : E.alloc.succeeds h.calls (E.getStructAllocSize S).toNat = true) :
    Releases (E.getDeserializer S (.base a)) h ↔
      ¬ ∃ h', E.getDeserializer S (.base a) h = .ok (.null, h') := by
  cases hload : E.loadI64 (.base a) h with
  | error e =>
    have hrun : E.getDeserializer S (.base a) h = .error e := bind_of_error hload
    refine ⟨fun _ ⟨h', hok⟩ => ?_, fun _ h' hok => ?_⟩
    all_goals
      rw [hrun] at hok
      cases hok
  | ok res =>
    obtain ⟨Header, h₁⟩ := res
    obtain rfl : h = h₁ := by
      obtain ⟨cs, h₂, hcs, hpure⟩ := bind_eq_ok hload
      unfold load at hcs
      split at hcs
      · cases hcs
        cases hpure
        rfl
      · cases hcs
    refine releases_iff_of_retains (y := ?_) ?_ (E.newStruct S h) ?_
    · exact do
        let _ ← E.deserializeEntries S (.base a) (.base h.next) S.fields 8
        let AllocSize ← E.sumAllocSizes S (.base h.next) S.fields 8
        if E.swapI64 Header = AllocSize then pure (.base h.next) else pure .null
    · refine .bind (deserializeEntries_retains hfun flat.isStruct _ _ _ _ fun _ hf => hf)
        fun _ => ?_
      refine .bind (E.sumAllocSizes_retains S _ _ _) fun _ => ?_
      exact .ite (.pure _) (.pure _)
    · rw [getDeserializer, bind_of_ok hload, insertNullCheck_loc, bind_of_ok (malloc_ok hA),
        insertNullCheck_loc]

/-- NULL before anything was allocated. -/
theorem releases_of_tick {x : Prog Ptr} (hx : x h = .ok (.null, h.tick)) : Releases x h := by
  intro h' hrun b
  rw [hx] at hrun
  obtain ⟨-, rfl⟩ := Prod.mk.inj (Except.ok.inj hrun)
  rfl

theorem constructor_releases (flat : S.IsFlat)
    (hstruct : E.layout.structSize S.packed S.elements < 2 ^ 64) {arg : Field → Val}
    (hargs : TypedArgs S h arg) :
    Releases (E.getConstructor S ((S.fields.filter (! ·.isMutable)).map arg)) h ↔
      (E.alloc.succeeds h.calls (E.layout.structSize S.packed S.elements) = true →
        ¬ E.Refuses S h (E.newStruct S h) arg S.fields (h.calls + 1)) := by
  have hsize := structAllocSize_toNat hstruct
  cases hA : E.alloc.succeeds h.calls (E.layout.structSize S.packed S.elements) with
  | false =>
    refine ⟨fun _ hcontra => absurd hcontra Bool.noConfusion, fun _ => ?_⟩
    exact releases_of_tick (getConstructor_unallocated _ (by rw [hsize]; exact hA))
  | true =>
    rw [← hsize] at hA
    rw [getConstructor_releases_iff _ hA, getConstructor_null_iff flat hstruct hargs hA]
    exact ⟨fun hno _ => hno, fun hno => hno rfl⟩

theorem deserializer_releases (flat : S.IsFlat) (hfun : Resolves E S)
    (hstruct : E.layout.structSize S.packed S.elements < 2 ^ 64) {a : Nat} {buf : Block}
    (ha : h.block? a = some buf) :
    Releases (E.getDeserializer S (.base a)) h ↔
      (E.alloc.succeeds h.calls (E.layout.structSize S.packed S.elements) = true →
        ¬ E.Rejects S buf.cells (h.calls + 1)) := by
  have hsize := structAllocSize_toNat hstruct
  cases hA : E.alloc.succeeds h.calls (E.layout.structSize S.packed S.elements) with
  | false =>
    refine ⟨fun _ hcontra => absurd hcontra Bool.noConfusion, fun _ => ?_⟩
    by_cases h8 : 8 ≤ buf.cells.length
    · exact releases_of_tick (getDeserializer_null ha h8 (by rw [hsize]; exact hA))
    · intro h' hrun
      have hfault : E.loadI64 (.base a) h = .error .access :=
        loadI64_fault ha (by rw [show (0 : I64).toNat = 0 from rfl]; omega)
      rw [getDeserializer, bind_of_error hfault] at hrun
      cases hrun
  | true =>
    rw [← hsize] at hA
    rw [getDeserializer_releases_iff flat hfun hA,
      getDeserializer_null_iff flat hfun hstruct ha hA]
    exact ⟨fun hno _ => hno, fun hno => hno rfl⟩

end Functions

end Env

/-- `create_S` and `deserialize_S` leave nothing behind exactly when the struct's own allocation
    fails or they do not return NULL: no array of the constructor fails to be allocated, the
    buffer is not rejected. -/
theorem releases_iff {A : Allocator} {DL : DataLayout} {S : Struct} (flat : S.IsFlat)
    (hn : S.DistinctNames) (hstruct : DL.structSize S.packed S.elements < 2 ^ 64) (h : Heap) :
    (∀ arg, Env.TypedArgs S h arg →
      (Env.Releases ((Env.ofStruct A DL S).getConstructor S
          ((S.fields.filter (! ·.isMutable)).map arg)) h ↔
        (A.succeeds h.calls (DL.structSize S.packed S.elements) = true →
          ¬ (Env.ofStruct A DL S).Refuses S h ((Env.ofStruct A DL S).newStruct S h) arg S.fields
            (h.calls + 1)))) ∧
    ∀ a buf, h.block? a = some buf →
      (Env.Releases ((Env.ofStruct A DL S).getDeserializer S (.base a)) h ↔
        (A.succeeds h.calls (DL.structSize S.packed S.elements) = true →
          ¬ (Env.ofStruct A DL S).Rejects S buf.cells (h.calls + 1))) := by
  have hfun := Env.resolves_ofStruct A DL hn
  exact ⟨fun arg hargs => Env.constructor_releases (E := Env.ofStruct A DL S) flat hstruct hargs,
    fun a buf ha => Env.deserializer_releases flat hfun hstruct ha⟩

/-- A buffer for `path` whose header is one too large. -/
def oddBuffer : Block where
  cells := encodeInt false 8 29 ++ encodeInt false 4 7 ++ encodeInt false 8 0 ++ encodeInt false 8 0
  fits := by decide

theorem releases_iff_path :
    Env.Releases ((Env.ofStruct .calloc .default pathStruct).getConstructor pathStruct [.int 7])
      ⟨[some oddBuffer], 0⟩ ∧
    (Env.Releases ((Env.ofStruct .calloc .default pathStruct).getDeserializer pathStruct (.base 0))
        ⟨[some oddBuffer], 0⟩ ↔
      (Allocator.calloc.succeeds 0 (DataLayout.default.structSize pathStruct.packed
          pathStruct.elements) = true →
        ¬ (Env.ofStruct .calloc .default pathStruct).Rejects pathStruct oddBuffer.cells 1)) := by
  have hsize : DataLayout.default.structSize pathStruct.packed pathStruct.elements < 2 ^ 64 := by
    decide
  have h := releases_iff (A := .calloc) pathStruct_isFlat pathStruct_distinctNames hsize
    ⟨[some oddBuffer], 0⟩
  refine ⟨(h.1 (fun _ => .int 7) ⟨fun _ _ _ _ => ⟨7, rfl⟩, ?_⟩).mpr fun _ hrefuses => hrefuses,
    h.2 0 oddBuffer rfl⟩
  intro f hf hm hr d o hptr
  cases hptr

/-- A run that returns NULL and has made block `b`. -/
theorem Env.not_releases {x : Prog Ptr} {h : Heap} {b : Nat} (hb : h.next ≤ b)
    (hrun : ((x h).toOption.map fun p => (p.1, (p.2.block? b).isSome)) = some (.null, true)) :
    ¬ Env.Releases x h := by
  intro hrel
  cases hx : x h with
  | error e =>
    rw [hx] at hrun
    cases hrun
  | ok p =>
    rw [hx] at hrun
    obtain ⟨hnull, hlive⟩ := Prod.mk.inj (Option.some.inj hrun)
    obtain ⟨old, hold⟩ := Option.isSome_iff_exists.mp
      ((hrel p.2 (by rw [hx, ← hnull]) b).mp hlive)
    exact absurd (Heap.lt_next hold) (Nat.not_lt.mpr hb)

/-- A rejected buffer leaves the struct and its two arrays behind, and an empty array that
    `malloc` refuses leaves the struct. -/
theorem null_leaks :
    ¬ Env.Releases ((Env.ofStruct .calloc .default pathStruct).getDeserializer pathStruct (.base 0))
      ⟨[some oddBuffer], 0⟩ ∧
    ¬ Env.Releases ((Env.ofStruct noEmptyBlocks .default
        (bytesStruct (.stable .default))).getConstructor (bytesStruct (.stable .default))
          [.int 0, .ptr .null]) ⟨[], 0⟩ := by
  constructor
  · exact Env.not_releases (b := 1) (by decide) (by decide)
  · unfold bytesStruct
    rw [Struct.finalizeFields_stable _ (by decide)]
    exact Env.not_releases (b := 0) (by decide) (by decide)

end Tyr
