import Tyr.Wire.Nested
import Tyr.Lib.Frame

/-
  Which blocks the getters and the struct functions write.

  For an invariant `I` that leaves the blocks `Out` to the program (`Heap.Frame Out I`), the
  getters keep it whenever `OutVal` leads into `Out` (`Frame.getGetter`, `Frame.getItemGetter`),
  `serialize_S` and `deserialize_S` whatever they are given (`Frame.getSerializer`,
  `Frame.getDeserializer`): they write and free blocks of their own only. The functions of other
  structs that are called have to do so too (`Closed`); those of a module do (`closed_link`).
  What the functions load does not matter here, so there is one rule for each function and none
  of them speaks of a struct object.
-/

namespace Tyr

open Prog

variable {Out : Nat → Prop} {I : Heap → Prop}

theorem insertNullCheck_triple {α : Type} {J : α → Heap → Prop} {IsNotNull : Prog α}
    (Ptrs : List Ptr) {ReturnFail : α} (hx : Triple I IsNotNull J)
    (hfail : ∀ h, I h → J ReturnFail h) :
    Triple I (insertNullCheck Ptrs ReturnFail IsNotNull) J := by
  unfold insertNullCheck
  exact .ite (fun _ => hx) fun _ => .pure hfail

namespace Env

variable (E : Env) (S : Struct)

/-! ## Reading -/

theorem loadTy_triple (t : Ty) (p : Ptr) : Triple I (E.loadTy t p) fun _ h => I h := by
  unfold loadTy
  exact .bind (Heap.Frame.load p _) fun _ => .pure fun _ hh => hh

theorem loadI64_triple (p : Ptr) : Triple I (E.loadI64 p) fun _ h => I h := by
  unfold loadI64
  exact .bind (Heap.Frame.load p 8) fun _ => .pure fun _ hh => hh

theorem getFieldAllocSize_triple (f : Field) (Self : Ptr) :
    Triple I (E.getFieldAllocSize S f Self) fun _ h => I h := by
  unfold getFieldAllocSize
  refine .ite (fun _ => ?_) fun _ => .pure fun _ hh => hh
  split
  · exact .bind (E.loadI64_triple _) fun _ => .pure fun _ hh => hh
  · exact .fault _

theorem sumAllocSizes_triple (Self : Ptr) (fs : List Field) (size : I64) :
    Triple I (E.sumAllocSizes S Self fs size) fun _ h => I h := by
  induction fs generalizing size with
  | nil => exact .pure fun _ hh => hh
  | cons f fs ih => exact .bind (E.getFieldAllocSize_triple S f Self) fun _ => ih _

theorem swapBytes_triple (t : Ty) (val : Val) : Triple I (E.swapBytes t val) fun _ h => I h := by
  unfold swapBytes
  refine .ite (fun _ => .pure fun _ hh => hh) fun _ => ?_
  split
  · exact .ite (fun _ => .pure fun _ hh => hh) fun _ =>
      .ite (fun _ => .pure fun _ hh => hh) fun _ => .fault _
  · exact .pure fun _ hh => hh
  · exact .pure fun _ hh => hh
  · exact .fault _

/-- A load of a scalar yields a number. -/
theorem loadScalar_triple {t : Ty} (ht : t.isPointerTy = false) (p : Ptr) :
    Triple I (E.loadTy t p) fun v h => I h ∧ ∃ k, v = .int k := by
  unfold loadTy
  refine .bind (Heap.Frame.load p _) fun cs => .pure fun _ hh => ⟨hh, ?_⟩
  rw [decode, ht]
  exact ⟨_, rfl⟩

theorem swapScalar_triple (t : Ty) (k : Nat) :
    Triple I (E.swapBytes t (.int k)) fun v h => I h ∧ ∃ j, v = .int j := by
  have hpure : ∀ j, Triple I (pure (.int j) : Prog Val) fun v h => I h ∧ ∃ j, v = .int j :=
    fun j => .pure fun _ hh => ⟨hh, j, rfl⟩
  unfold swapBytes
  refine .ite (fun _ => hpure k) fun _ => ?_
  split
  · next heq =>
    cases heq
    exact .ite (fun _ => hpure k) fun _ => .ite (fun _ => hpure _) fun _ => .fault _
  · exact hpure _
  · exact hpure _
  · exact .fault _

end Env

namespace Heap.Frame

variable (hI : Frame Out I) (E : Env) (S : Struct) {f : Field} {p : Ptr}
include hI

/-! ## Writing -/

theorem storeTy (hp : p.Into Out) (t : Ty) (v : Val) :
    Triple I (E.storeTy t v p) fun _ h => I h := hI.store hp _

theorem storeI64 (hp : p.Into Out) (n : I64) : Triple I (E.storeI64 n p) fun _ h => I h :=
  hI.store hp _

theorem swapLoop (hp : p.Into Out) (t : Ty) (Count loopIter : I64) :
    Triple I (E.swapLoop t p Count loopIter) fun _ h => I h := by
  induction loopIter using Env.swapLoop.induct Count with
  | case1 i ih =>
    unfold Env.swapLoop
    refine .bind (E.loadTy_triple t _) fun val => ?_
    refine .bind (E.swapBytes_triple t val) fun swapped => ?_
    refine .bind (hI.storeTy E (hp.add _) t swapped) fun _ => ?_
    split
    · exact .pure fun _ hh => hh
    · next hmore => exact ih hmore

theorem swapArrayBytes (hp : p.Into Out) (t : Ty) (Count : I64) :
    Triple I (E.swapArrayBytes t p Count) fun _ h => I h := by
  unfold Env.swapArrayBytes
  refine .ite (fun _ => .pure fun _ hh => hh) fun _ => ?_
  split
  · exact .ite (fun _ => .pure fun _ hh => hh) fun _ => hI.swapLoop E hp _ _ _
  · exact hI.swapLoop E hp _ _ _

end Heap.Frame

/-- The functions called for struct-typed fields write and free new blocks only, and return such a
    block or NULL. -/
structure Env.Closed (E : Env) : Prop where
  serialize : ∀ (Out : Nat → Prop) (I : Heap → Prop), Heap.Frame Out I → ∀ t p,
    Triple I (E.serializeStruct t p) fun q h => I h ∧ q.LeadsTo Out h
  deserialize : ∀ (Out : Nat → Prop) (I : Heap → Prop), Heap.Frame Out I → ∀ t p,
    Triple I (E.deserializeStruct t p) fun q h => I h ∧ q.LeadsTo Out h

theorem Env.closed_ofStruct (A : Allocator) (DL : DataLayout) (S : Struct) :
    (Env.ofStruct A DL S).Closed := ⟨fun _ _ _ _ _ => .fault _, fun _ _ _ _ _ => .fault _⟩

namespace Heap.Frame

variable (hI : Frame Out I) {E : Env} (hcl : E.Closed) (S : Struct) {f : Field} {p : Ptr}
include hI hcl

/-! ## Getters -/

/-- `get_S_f` on any `Self`. -/
theorem getGetter (hp : p.Into Out) (Self : Ptr) :
    Triple I (E.getGetter S f Self p) fun _ h => I h := by
  unfold Env.getGetter
  refine insertNullCheck_triple _ (.bind (E.loadTy_triple _ _) fun v => ?_) fun _ hh => hh
  refine .ite (fun _ => ?_) fun _ => .ite (fun _ => ?_) fun _ => ?_
  · refine .bind (hcl.serialize Out I hI _ _) fun buf => ?_
    refine Triple.weaken (I := I) ?_ (fun _ hh => hh.1) fun _ _ hh => hh
    refine .bind (hcl.deserialize Out I hI _ _) fun q => ?_
    refine Triple.weaken (I := I) ?_ (fun _ hh => hh.1) fun _ _ hh => hh
    exact .bind (hI.storeTy E hp _ _) fun _ => .pure fun _ hh => hh
  · -- an immutable array: the copy is a new block
    refine .bind (E.getFieldAllocSize_triple S f Self) fun size => .bind (hI.malloc size)
      fun q => ?_
    refine .given (fun _ hh => hh.2.into) fun hq => ?_
    refine Triple.weaken (I := I) ?_ (fun _ hh => hh.1) fun _ _ hh => hh
    refine insertNullCheck_triple _ ?_ fun _ hh => hh
    refine .bind (hI.memcpy hq _ _) fun _ => .bind (hI.storeTy E hp _ _) fun _ => ?_
    exact .pure fun _ hh => hh
  · exact .bind (hI.storeTy E hp _ _) fun _ => .pure fun _ hh => hh

omit hcl in
/-- `get_S_f_item` on any `Self`. -/
theorem getItemGetter (E : Env) (hp : p.Into Out) (Self : Ptr) (idx : I64) :
    Triple I (E.getItemGetter S f Self idx p) fun _ h => I h := by
  unfold Env.getItemGetter
  split
  · refine insertNullCheck_triple _ ?_ fun _ hh => hh
    refine .bind (E.loadTy_triple _ _) fun _ => .bind (E.loadI64_triple _) fun _ => ?_
    refine .ite (fun _ => ?_) fun _ => .pure fun _ hh => hh
    refine .bind (E.loadTy_triple _ _) fun _ => .bind (hI.storeTy E hp _ _) fun _ => ?_
    exact .pure fun _ hh => hh
  · exact .fault _

/-! ## The serializer -/

theorem fieldSerializer (hp : p.Into Out) (Self : Ptr) :
    Triple I (E.fieldSerializer S f Self p) fun _ h => I h := by
  unfold Env.fieldSerializer
  refine insertNullCheck_triple _ (.bind (E.loadTy_triple _ _) fun v => ?_) fun _ hh => hh
  refine .ite (fun _ => ?_) fun _ => .ite (fun _ => ?_) fun _ => ?_
  · -- the nested buffer is freed, and it is a new block
    refine .bind (hcl.serialize Out I hI _ _) fun buf => ?_
    refine .given (fun _ hh => hh.2.into) fun hbuf => ?_
    refine Triple.weaken (I := I) ?_ (fun _ hh => hh.1) fun _ _ hh => hh
    refine .bind (E.loadI64_triple _) fun size => .bind (hI.memcpy hp _ _) fun _ => ?_
    exact .bind (hI.free hbuf) fun _ => .pure fun _ hh => hh
  · split
    · refine .bind (E.loadI64_triple _) fun count => ?_
      refine .bind (hI.storeI64 E hp _) fun _ => ?_
      refine .bind (E.getFieldAllocSize_triple S _ Self) fun outSize => ?_
      refine .bind (E.getFieldAllocSize_triple S _ Self) fun size => ?_
      refine .bind (hI.memcpy (hp.add _) _ _) fun _ => ?_
      exact .bind (hI.swapArrayBytes E (hp.add _) _ _) fun _ => .pure fun _ hh => hh
    · exact .fault _
  · refine .bind (E.swapBytes_triple _ _) fun _ => ?_
    refine .bind (E.getFieldAllocSize_triple S f _) fun _ => ?_
    exact .bind (hI.storeTy E hp _ _) fun _ => .pure fun _ hh => hh

theorem serializeEntries (hp : p.Into Out) (Self : Ptr) (fs : List Field) (idx : I64) :
    Triple I (E.serializeEntries S Self p fs idx) fun _ h => I h := by
  induction fs generalizing idx with
  | nil => exact .pure fun _ hh => hh
  | cons f fs ih =>
    unfold Env.serializeEntries
    refine .ite (fun _ => ih idx) fun hc => ?_
    split
    · exact .bind (hI.fieldSerializer hcl S (hp.add _) Self) fun n => ih _
    · exact .fault _

/-- `serialize_S` writes nothing but its buffer. -/
theorem getSerializer (Self : Ptr) :
    Triple I (E.getSerializer S Self) fun q h => I h ∧ q.LeadsTo Out h := by
  unfold Env.getSerializer Env.serializeWithIDX
  refine .bind (J := fun r h => I h ∧ r.1.LeadsTo Out h) ?_ fun _ => .pure fun _ hh => hh
  refine insertNullCheck_triple _ ?_ fun h hh => ⟨hh, Ptr.leadsTo_null h⟩
  refine .bind (E.sumAllocSizes_triple S Self _ _) fun size => .bind (hI.malloc size) fun q => ?_
  refine .given (fun _ hh => hh.2.into) fun hq => ?_
  refine insertNullCheck_triple _ ?_ fun h hh => ⟨hh.1, Ptr.leadsTo_null h⟩
  have hI' : Frame Out fun h => I h ∧ q.LeadsTo Out h := hI.and fun _ _ hle hq => hq.mono hle
  refine .bind (hI'.storeI64 E hq _) fun _ => ?_
  refine .bind (hI'.serializeEntries hcl S hq Self S.fields 8) fun _ => ?_
  exact .pure fun _ hh => hh

/-! ## The deserializer -/

theorem fieldDeserializer {Self : Ptr} (hself : Self.Into Out) (InBuf : Ptr) :
    Triple I (E.fieldDeserializer S f Self InBuf) fun _ h => I h := by
  have hslot : ∀ g, (E.structGEP S Self g).Into Out := fun g => hself.add _
  unfold Env.fieldDeserializer
  refine insertNullCheck_triple _ (.ite (fun _ => ?_) fun _ => .ite (fun _ => ?_) fun _ => ?_)
    fun _ hh => hh
  · refine .bind (hcl.deserialize Out I hI _ _) fun q => ?_
    refine Triple.weaken (I := I) ?_ (fun _ hh => hh.1) fun _ _ hh => hh
    exact .bind (hI.storeTy E (hslot f) _ _) fun _ => E.loadI64_triple _
  · split
    · refine .bind (E.loadI64_triple _) fun swapped => ?_
      refine .bind (hI.storeI64 E (hslot _) _) fun _ => ?_
      refine .bind (E.getFieldAllocSize_triple S _ Self) fun outSize => ?_
      refine .bind (E.getFieldAllocSize_triple S _ Self) fun size => .bind (hI.malloc size)
        fun q => ?_
      refine .given (fun _ hh => hh.2.into) fun hq => ?_
      refine Triple.weaken (I := I) ?_ (fun _ hh => hh.1) fun _ _ hh => hh
      refine insertNullCheck_triple _ ?_ fun _ hh => hh
      refine .bind (hI.memcpy hq _ _) fun _ => .bind (hI.swapArrayBytes E hq _ _) fun _ => ?_
      exact .bind (hI.storeTy E (hslot f) _ _) fun _ => .pure fun _ hh => hh
    · exact .fault _
  · refine .bind (E.loadTy_triple _ _) fun _ => .bind (E.swapBytes_triple _ _) fun _ => ?_
    refine .bind (E.getFieldAllocSize_triple S _ Self) fun _ => ?_
    exact .bind (hI.storeTy E (hslot f) _ _) fun _ => .pure fun _ hh => hh

theorem deserializeEntries {Self : Ptr} (hself : Self.Into Out) (InBuf : Ptr) (fs : List Field)
    (idx : I64) : Triple I (E.deserializeEntries S InBuf Self fs idx) fun _ h => I h := by
  induction fs generalizing idx with
  | nil => exact .pure fun _ hh => hh
  | cons f fs ih =>
    unfold Env.deserializeEntries
    refine .ite (fun _ => ih idx) fun hc => ?_
    split
    · exact .bind (hI.fieldDeserializer hcl S hself _) fun n => ih _
    · exact .fault _

theorem getDeserializer (InBuf : Ptr) :
    Triple I (E.getDeserializer S InBuf) fun q h => I h ∧ q.LeadsTo Out h := by
  unfold Env.getDeserializer
  refine .bind (E.loadI64_triple _) fun header => ?_
  refine insertNullCheck_triple _ (.bind (hI.malloc _) fun q => ?_)
    fun h hh => ⟨hh, Ptr.leadsTo_null h⟩
  refine .given (fun _ hh => hh.2.into) fun hq => ?_
  have hI' : Frame Out fun h => I h ∧ q.LeadsTo Out h := hI.and fun _ _ hle hq => hq.mono hle
  refine insertNullCheck_triple _ ?_ fun h hh => ⟨hh.1, Ptr.leadsTo_null h⟩
  refine .bind (hI'.deserializeEntries hcl S hq InBuf S.fields 8) fun _ => ?_
  refine .bind (E.sumAllocSizes_triple S q _ _) fun size => ?_
  exact .ite (fun _ => .pure fun _ hh => hh) fun _ => .pure fun h hh => ⟨hh.1, Ptr.leadsTo_null h⟩

end Heap.Frame

/-- In a module of several structs, by induction on the order of declaration. -/
theorem Env.closed_link (E : Env) (Ss : List Struct) : (E.link Ss).Closed := by
  induction Ss with
  | nil => exact ⟨fun _ _ _ _ _ => .fault _, fun _ _ _ _ _ => .fault _⟩
  | cons S earlier ih =>
    refine ⟨fun Out I hI t p => ?_, fun Out I hI t p => ?_⟩
    · exact .ite (fun _ => hI.getSerializer (E := E.link earlier) ih S p)
        fun _ => ih.serialize Out I hI t p
    · exact .ite (fun _ => hI.getDeserializer (E := E.link earlier) ih S p)
        fun _ => ih.deserialize Out I hI t p

end Tyr
