import Tyr.Wire.Exchange

/-
  Every block is accounted for.

  `Accounted`: after a call each live block is a struct or an array of one, or the caller had it
  before, or the call has handed it to the caller (`handed`: the copy an immutable array's getter
  makes, the buffer of `serialize_S`). For `create_S` and `deserialize_S` this is by counting:
  they make no more blocks than the struct has arrays, and one, and the arrays of the struct they
  return are all in different blocks. For the setters it is that `realloc` frees what it replaces.
  `nothing_lost`: so in every run, whatever is not a struct or an array of one is the caller's.
  `readonly_sound`: `serialize_S` and `deserialize_S` leave every block there was as it was,
  whatever they are given; their parameter is marked `readonly`.
-/

namespace Tyr

open Prog

/-- Numbers given to the elements of a list, all different and no more than there are elements,
    are given to some element each. -/
theorem exists_of_injOn {α : Type*} [DecidableEq α] {l : List α} {p : α → Nat} {n x : Nat}
    (hnd : l.Nodup) (hinj : ∀ a ∈ l, ∀ b ∈ l, p a = p b → a = b)
    (hp : ∀ a ∈ l, n ≤ p a ∧ p a < n + l.length) (hx : n ≤ x) (hx' : x < n + l.length) :
    ∃ a ∈ l, p a = x := by
  have hsub : l.toFinset.image p ⊆ Finset.Ico n (n + l.length) := by
    intro k hk
    obtain ⟨a, ha, rfl⟩ := Finset.mem_image.mp hk
    exact Finset.mem_Ico.mpr (hp a (List.mem_toFinset.mp ha))
  have hcard : (Finset.Ico n (n + l.length)).card ≤ (l.toFinset.image p).card := by
    rw [Finset.card_image_of_injOn fun a ha b hb => hinj a (List.mem_toFinset.mp ha) b
      (List.mem_toFinset.mp hb), List.toFinset_card_of_nodup hnd, Nat.card_Ico]
    omega
  have hmem : x ∈ l.toFinset.image p := by
    rw [Finset.eq_of_subset_of_card_le hsub hcard]
    exact Finset.mem_Ico.mpr ⟨hx, hx'⟩
  obtain ⟨a, ha, he⟩ := Finset.mem_image.mp hmem
  exact ⟨a, List.mem_toFinset.mp ha, he⟩

namespace Env

variable (E : Env) (S : Struct)

/-! ## How many blocks are made -/

section Next

variable {m : Nat} {f : Field}

section Update

variable {I : Heap → Prop}
  (hI : ∀ h b old blk, I h → h.block? b = some old → I (h.update b blk))
include hI

/-- What an update of a live block keeps, `swapArrayBytes` keeps. -/
theorem swapLoop_triple (t : Ty) (ArrayPtr : Ptr) (Count loopIter : I64) :
    Triple I (E.swapLoop t ArrayPtr Count loopIter) fun _ h => I h := by
  induction loopIter using swapLoop.induct Count with
  | case1 i ih =>
    unfold swapLoop
    refine .bind (E.loadTy_triple t _) fun val => ?_
    refine .bind (E.swapBytes_triple t val) fun swapped => ?_
    refine .bind (.store hI _ _) fun _ => ?_
    split
    · exact .pure fun _ hh => hh
    · next hmore => exact ih hmore

theorem swapArrayBytes_triple (t : Ty) (ArrayPtr : Ptr) (Count : I64) :
    Triple I (E.swapArrayBytes t ArrayPtr Count) fun _ h => I h := by
  unfold swapArrayBytes
  refine .ite (fun _ => .pure fun _ hh => hh) fun _ => ?_
  split
  · exact .ite (fun _ => .pure fun _ hh => hh) fun _ => E.swapLoop_triple hI _ _ _ _
  · exact E.swapLoop_triple hI _ _ _ _

theorem fieldSerializer_flat_triple (hs : f.isStruct = false) (Self OutBuf : Ptr) :
    Triple I (E.fieldSerializer S f Self OutBuf) fun _ h => I h := by
  unfold fieldSerializer
  refine insertNullCheck_triple _ (.bind (E.loadTy_triple _ _) fun data => ?_) fun _ hh => hh
  rw [if_neg (by simp [hs])]
  refine .ite (fun _ => ?_) fun _ => ?_
  · split
    · refine .bind (E.loadI64_triple _) fun _ => .bind (.store hI _ _) fun _ => ?_
      refine .bind (E.getFieldAllocSize_triple S _ _) fun _ => ?_
      refine .bind (E.getFieldAllocSize_triple S _ _) fun _ => ?_
      refine .bind (.memcpy hI _ _ _) fun _ => ?_
      exact .bind (E.swapArrayBytes_triple hI _ _ _) fun _ => .pure fun _ hh => hh
    · exact .fault _
  · refine .bind (E.swapBytes_triple _ _) fun _ => ?_
    refine .bind (E.getFieldAllocSize_triple S _ _) fun _ => ?_
    exact .bind (.store hI _ _) fun _ => .pure fun _ hh => hh

theorem serializeEntries_triple (flat : S.IsFlat) (hfun : Resolves E S) (Self AllocdMem : Ptr)
    (fs : List Field) (hm : ∀ f ∈ fs, f ∈ S.fields) (idx : I64) :
    Triple I (E.serializeEntries S Self AllocdMem fs idx) fun _ h => I h := by
  induction fs generalizing idx with
  | nil => exact .pure fun _ hh => hh
  | cons f fs ih =>
    have hf := hm f List.mem_cons_self
    have ih' := ih fun g hg => hm g (List.mem_cons_of_mem f hg)
    unfold serializeEntries
    cases hc : f.isCount with
    | true =>
      rw [if_pos rfl]
      exact ih' idx
    | false =>
      rw [if_neg Bool.false_ne_true, hfun.serializer hf hc]
      exact .bind (E.fieldSerializer_flat_triple S hI (flat.isStruct f hf) _ _) fun n => ih' _

end Update

/-- `serialize_S` makes its buffer and no other block. -/
theorem getSerializer_next (flat : S.IsFlat) (hfun : Resolves E S) (Self : Ptr) :
    Triple (fun h => h.next = m) (E.getSerializer S Self) fun q h =>
      h.next = m ∨ h.next = m + 1 ∧ q = .base m := by
  have hupdate : ∀ k, ∀ (h : Heap) b old blk, h.next = k → h.block? b = some old →
      (h.update b blk).next = k := fun k h b _ blk hk _ => by rwa [Heap.next_update]
  unfold getSerializer serializeWithIDX
  refine .bind (J := fun r h => h.next = m ∨ h.next = m + 1 ∧ r.1 = .base m) ?_
    fun _ => .pure fun _ hh => hh
  refine insertNullCheck_triple _ ?_ fun _ hk => Or.inl hk
  refine .bind (E.sumAllocSizes_triple S _ _ _) fun size => ?_
  refine .bind (J := fun q h => h.next = m ∧ q = .null ∨ h.next = m + 1 ∧ q = .base m) ?_
    fun q => ?_
  · intro h q h' hk hrun
    unfold malloc at hrun
    split at hrun
    · cases hrun
      exact Or.inr ⟨by rw [Heap.next_push, hk], by rw [hk]⟩
    · cases hrun
      exact Or.inl ⟨hk, rfl⟩
  · unfold insertNullCheck
    refine .ite (fun hnot => ?_) fun hnull => .pure fun h hk => hk.elim (fun hn => Or.inl hn.1)
      fun hn => absurd (by rw [hn.2]; rfl) hnull
    refine .given (c := q = .base m) (fun h hk => hk.elim (fun hn => ?_) And.right) fun hq => ?_
    · rw [hn.2] at hnot
      exact absurd hnot (by decide)
    subst hq
    refine Triple.weaken (I := fun h => h.next = m + 1) ?_ (fun h hk => hk.elim
      (fun hn => nomatch hn.2) And.left) fun _ _ hh => hh
    refine .bind (.store (hupdate _) _ _) fun _ => ?_
    refine .bind (E.serializeEntries_triple S (hupdate _) flat hfun _ _ S.fields
      (fun _ hf => hf) _) fun _ => ?_
    exact .pure fun h hk => Or.inr ⟨hk, rfl⟩

/-- A field that is not a struct: one block if it is an array. -/
theorem next_fieldDeserializer (hs : f.isStruct = false)
    (hr : f.isRepeated = false → f.type.isPointerTy = false) (Self InBuf : Ptr) :
    Triple (fun h => h.next ≤ m) (E.fieldDeserializer S f Self InBuf) fun _ h =>
      h.next ≤ m + if f.isRepeated then 1 else 0 := by
  have hle : ∀ h : Heap, h.next ≤ m → h.next ≤ m + if f.isRepeated then 1 else 0 :=
    fun h hm => Nat.le_add_right_of_le hm
  have hupdate : ∀ (h : Heap) b old blk, h.next ≤ m + 1 → h.block? b = some old →
      (h.update b blk).next ≤ m + 1 := fun h b _ blk hk _ => by rwa [Heap.next_update]
  unfold fieldDeserializer
  refine insertNullCheck_triple _ ?_ hle
  rw [if_neg (by simp [hs])]
  refine .ite (fun hptr => ?_) fun _ => ?_
  · have harr : f.isRepeated = true := by
      by_contra h
      rw [hr ((Bool.not_eq_true _).mp h)] at hptr
      cases hptr
    rw [if_pos harr]
    split
    · refine .bind (E.loadI64_triple _) fun _ => .bind (.next_store _ _) fun _ => ?_
      refine .bind (E.getFieldAllocSize_triple S _ _) fun _ => ?_
      refine .bind (E.getFieldAllocSize_triple S _ _) fun _ => ?_
      refine .bind (.next_malloc _ _) fun _ => insertNullCheck_triple _ ?_ fun _ hm => hm
      refine .bind (.next_memcpy _ _ _) fun _ => ?_
      refine .bind (E.swapArrayBytes_triple hupdate _ _ _) fun _ => ?_
      exact .bind (.next_store _ _) fun _ => .pure fun _ hm => hm
    · exact .fault _
  · refine .bind (E.loadTy_triple _ _) fun _ => .bind (E.swapBytes_triple _ _) fun _ => ?_
    refine .bind (E.getFieldAllocSize_triple S _ _) fun _ => ?_
    exact .bind (.next_store _ _) fun _ => .pure hle

/-- A field of the constructor: one block if it is an immutable array. -/
theorem next_initField (hr : f.isRepeated = false → f.type.isPointerTy = false) (Self : Ptr)
    (Arg : Val) {Next : Prog Ptr} {k : Nat}
    (hnext : ∀ m, Triple (fun h => h.next ≤ m) Next fun _ h => h.next ≤ m + k) :
    Triple (fun h => h.next ≤ m) (E.initField S f Self Arg Next) fun _ h =>
      h.next ≤ m + ((if f.isRepeated && !f.isMutable then 1 else 0) + k) := by
  unfold initField
  refine .ite (fun _ => ?_) fun hm => .ite (fun hptr => ?_) fun _ => ?_
  · refine .bind (.next_store _ _) fun _ => (hnext m).post fun _ h hk => ?_
    exact Nat.le_trans hk (by omega)
  · have harr : f.isRepeated = true := by
      by_contra h
      rw [hr ((Bool.not_eq_true _).mp h)] at hptr
      cases hptr
    have hif : (f.isRepeated && !f.isMutable) = true := by simp [harr, hm]
    rw [if_pos hif, ← Nat.add_assoc]
    refine .bind (E.getFieldAllocSize_triple S _ _) fun _ => ?_
    refine .bind (.next_malloc _ _) fun _ => insertNullCheck_triple _ ?_ fun h hk => ?_
    · refine .bind (.next_memcpy _ _ _) fun _ => .bind (.next_store _ _) fun _ => ?_
      exact hnext (m + 1)
    · exact Nat.le_add_right_of_le hk
  · refine .bind (.next_store _ _) fun _ => (hnext m).post fun _ h hk => ?_
    exact Nat.le_trans hk (by omega)

/-- The number of blocks `create_S` makes for its arrays. -/
def immutableArrays : List Field := S.fields.filter fun f => f.isRepeated && !f.isMutable

def arrays : List Field := S.fields.filter fun f => f.isRepeated

theorem next_initFields (flat : S.IsFlat) (Self : Ptr) (fs : List Field)
    (hm : ∀ f ∈ fs, f ∈ S.fields) (args : List Val) (m : Nat) :
    Triple (fun h => h.next ≤ m) (E.initFields S Self fs args) fun _ h =>
      h.next ≤ m + (fs.filter fun f => f.isRepeated && !f.isMutable).length := by
  induction fs generalizing args m with
  | nil => exact .pure fun _ hk => hk
  | cons f fs ih =>
    have hf := hm f List.mem_cons_self
    have hr := not_pointer flat.toWellFormed hf (flat.isStruct f hf)
    have hlen : ((f :: fs).filter fun f => f.isRepeated && !f.isMutable).length =
        (if f.isRepeated && !f.isMutable then 1 else 0) +
          (fs.filter fun f => f.isRepeated && !f.isMutable).length := by
      rw [List.filter_cons]
      split <;> simp [Nat.add_comm]
    have ih' := ih fun g hg => hm g (List.mem_cons_of_mem f hg)
    unfold initFields
    rw [hlen]
    refine .ite (fun _ => E.next_initField S hr Self _ fun m => ih' args m) fun _ => ?_
    split
    · next arg args => exact E.next_initField S hr Self arg fun m => ih' args m
    · exact .fault _

theorem next_getConstructor (flat : S.IsFlat) (args : List Val) :
    Triple (fun h => h.next ≤ m) (E.getConstructor S args) fun _ h =>
      h.next ≤ m + 1 + (immutableArrays S).length := by
  unfold getConstructor
  refine .bind (.next_malloc _ _) fun q => insertNullCheck_triple _ ?_ fun h hk => ?_
  · exact E.next_initFields S flat q S.fields (fun _ hf => hf) args (m + 1)
  · exact Nat.le_add_right_of_le hk

theorem next_deserializeEntries (flat : S.IsFlat) (hfun : Resolves E S) (InBuf Self : Ptr)
    (fs : List Field) (hm : ∀ f ∈ fs, f ∈ S.fields) (idx : I64) (m : Nat) :
    Triple (fun h => h.next ≤ m) (E.deserializeEntries S InBuf Self fs idx) fun _ h =>
      h.next ≤ m + (fs.filter fun f => f.isRepeated).length := by
  induction fs generalizing idx m with
  | nil => exact .pure fun _ hk => hk
  | cons f fs ih =>
    have hf := hm f List.mem_cons_self
    have hs := flat.isStruct f hf
    have hr := not_pointer flat.toWellFormed hf hs
    have hlen : ((f :: fs).filter fun f => f.isRepeated).length =
        (if f.isRepeated then 1 else 0) + (fs.filter fun f => f.isRepeated).length := by
      rw [List.filter_cons]
      split <;> simp [Nat.add_comm]
    have ih' := ih fun g hg => hm g (List.mem_cons_of_mem f hg)
    unfold deserializeEntries
    rw [hlen]
    cases hc : f.isCount with
    | true =>
      rw [if_pos rfl]
      exact (ih' idx m).post fun _ h hk => Nat.le_trans hk (by omega)
    | false =>
      rw [if_neg Bool.false_ne_true, hfun.deserializer hf hc, ← Nat.add_assoc]
      exact .bind (E.next_fieldDeserializer S hs hr Self _) fun n => ih' _ _

theorem next_getDeserializer (flat : S.IsFlat) (hfun : Resolves E S) (InBuf : Ptr) :
    Triple (fun h => h.next ≤ m) (E.getDeserializer S InBuf) fun _ h =>
      h.next ≤ m + 1 + (arrays S).length := by
  unfold getDeserializer
  refine .bind (E.loadI64_triple _) fun header => ?_
  refine insertNullCheck_triple _ (.bind (.next_malloc _ _) fun q => ?_) fun h hk => ?_
  · refine insertNullCheck_triple _ ?_ fun h hk => Nat.le_add_right_of_le hk
    refine .bind (E.next_deserializeEntries S flat hfun InBuf q S.fields (fun _ hf => hf) 8 (m + 1))
      fun _ => .bind (E.sumAllocSizes_triple S q _ _) fun size => ?_
    exact .ite (fun _ => .pure fun _ hk => hk) fun _ => .pure fun _ hk => hk
  · exact Nat.le_trans hk (by omega)

end Next

section Setters

variable {E S} {I : Heap → Prop} {h h' : Heap} {b : Nat} {blk : Block} {f : Field} {n : I64}

theorem sizeIsRight_triple
    (hI : ∀ h b old blk, I h → h.block? b = some old → I (h.update b blk)) (f countField : Field)
    (Self src : Ptr) (n : I64) (mem : Ptr) :
    Triple I (E.sizeIsRight S f countField Self src n mem) fun _ h => I h := by
  unfold sizeIsRight
  refine .bind (.store hI _ _) fun _ => .bind (E.getFieldAllocSize_triple S _ _) fun _ => ?_
  exact .bind (.memcpy hI _ _ _) fun _ => .bind (.store hI _ _) fun _ => .pure fun _ hh => hh

/-- The item setter makes no block. -/
theorem next_getItemSetter {Self : Ptr} {idx : I64} {v : Val} {r : Bool}
    (hrun : E.getItemSetter S f Self idx v h = .ok (r, h')) : h'.next = h.next := by
  have key : Triple (fun g => g.next = h.next) (E.getItemSetter S f Self idx v)
      fun _ g => g.next = h.next := by
    unfold getItemSetter
    split
    · refine insertNullCheck_triple _ ?_ fun _ hg => hg
      refine .bind (E.loadTy_triple _ _) fun _ => .bind (E.loadI64_triple _) fun _ => ?_
      refine .ite (fun _ => ?_) fun _ => .pure fun _ hg => hg
      refine .bind (.store (fun g d _ new hg _ => ?_) _ _) fun _ => .pure fun _ hg => hg
      rwa [Heap.next_update]
    · exact .fault _
  exact key h r h' rfl hrun

variable (wf : S.WellFormed) (hb : E.Holds S blk) (hf : f ∈ S.fields)
  (hl : h.block? b = some blk)
include wf hb hf hl

/-- The array setter frees the array it replaces. -/
theorem setRepeated_replaces {src : Ptr} {r : Bool}
    (hrun : E.setRepeated S f (S.countOf f) (.base b) src n h = .ok (r, h')) :
    h'.Replaces h.next (E.ptrAt S blk f) := by
  have hupdate : ∀ (g : Heap) d old new, g.next = h.next → g.block? d = some old →
      (g.update d new).next = h.next := fun g d _ new hg _ => by rwa [Heap.next_update]
  have hreplaces : ∀ (g : Heap) d old new, g.Replaces h.next (E.ptrAt S blk f) →
      g.block? d = some old → (g.update d new).Replaces h.next (E.ptrAt S blk f) :=
    fun g d old new hg hd => hg.update hd new
  rw [setRepeated, bind_of_ok (loadTy_slot wf hl hb hf)] at hrun
  refine Triple.ite (I := fun g => g.next = h.next)
    (J := fun _ g => g.Replaces h.next (E.ptrAt S blk f)) (fun _ => ?_) (fun hnull => ?_) h r h' rfl
    hrun
  · refine .bind (E.loadI64_triple _) fun count => .ite (fun _ => ?_) fun _ => ?_
    · exact (sizeIsRight_triple hupdate _ _ _ _ _ _).post fun _ g hg =>
        ⟨Nat.le_succ_of_le (Nat.le_of_eq hg), Or.inl hg⟩
    · refine .bind (.store hupdate _ _) fun _ => ?_
      refine .bind (E.getFieldAllocSize_triple S _ _) fun _ => ?_
      refine .bind (.next_realloc _ _ _) fun q => insertNullCheck_triple _ ?_ fun _ hg => hg
      exact sizeIsRight_triple hreplaces _ _ _ _ _ _
  · have hp : E.ptrAt S blk f = .null := by
      have hnot : (E.ptrAt S blk f).isNotNull ≠ true := hnull
      cases he : E.ptrAt S blk f with
      | null => rfl
      | loc d o => exact absurd rfl (he ▸ hnot)
      | wild raw => exact absurd rfl (he ▸ hnot)
    rw [hp] at hreplaces ⊢
    refine .bind (.store hupdate _ _) fun _ => .bind (E.getFieldAllocSize_triple S _ _) fun _ => ?_
    refine .bind (J := fun _ g => g.Replaces h.next .null) ?_ fun q =>
      insertNullCheck_triple _ (sizeIsRight_triple hreplaces _ _ _ _ _ _) fun _ hg => hg
    exact (Triple.next_malloc _ _).weaken (fun _ hg => Nat.le_of_eq hg) fun _ g hg =>
      ⟨hg, Or.inr fun d hd => by cases hd⟩

/-- So does the count setter. -/
theorem setCount_replaces (hr : f.isRepeated = true) {r : Bool} (hn : n ≠ 0)
    (hrun : E.setCount S (S.countOf f) f (.base b) n h = .ok (r, h')) :
    h'.Replaces h.next (E.ptrAt S blk f) := by
  have hreplaces : ∀ (g : Heap) d old new, g.Replaces h.next (E.ptrAt S blk f) →
      g.block? d = some old → (g.update d new).Replaces h.next (E.ptrAt S blk f) :=
    fun g d old new hg hd => hg.update hd new
  rw [setCount_head wf hb hf hr hl hn] at hrun
  refine Triple.bind (K := fun _ g => g.Replaces h.next (E.ptrAt S blk f))
    (.next_realloc _ _ _) (fun q => ?_) _ r h' (Heap.next_update _ _ _) hrun
  refine .bind (.store hreplaces _ _) fun _ => insertNullCheck_triple _ ?_ fun _ hg => hg
  exact .bind (.store hreplaces _ _) fun _ => .bind (.store hreplaces _ _) fun _ =>
    .pure fun _ hg => hg

end Setters

/-! ## Accounts -/

/-- After a call on `w` each live block is owned, or was the caller's before, or is in `handed`. -/
def Accounted (w : World) (handed : Nat → Prop) (h' : Heap) (structs' : Set Nat) : Prop :=
  ∀ d, (h'.block? d).isSome → E.Owns S ⟨h', structs'⟩ d ∨
    ((w.heap.block? d).isSome ∧ ¬ E.Owns S w d) ∨ handed d

variable {E S} {w : World} {h' : Heap} {b d : Nat} {blk blk' arr obj : Block} {f : Field} {n : I64}
  {handed : Nat → Prop}

/-- Nothing that is owned has changed, and what is new is handed to the caller. -/
theorem accounted_frame (ho : E.Owned S w)
    (hk : ∀ d, E.Owns S w d → h'.block? d = w.heap.block? d)
    (hnew : ∀ d, (h'.block? d).isSome → (w.heap.block? d).isSome ∨ handed d) :
    E.Accounted S w handed h' w.structs := by
  intro d hd
  by_cases howns : E.Owns S w d
  · exact Or.inl (howns.imp id fun ⟨b, f, hb⟩ =>
      ⟨b, f, ((ho.frame ⟨h', w.structs⟩ rfl hk).2 b f d).mpr hb⟩)
  · exact Or.inr ((hnew d hd).imp (fun hlive => ⟨hlive, howns⟩) id)

theorem isSome_update {h : Heap} {x : Nat} {old : Block} (hx : h.block? x = some old) (blk : Block)
    (d : Nat) : ((h.update x blk).block? d).isSome = (h.block? d).isSome := by
  by_cases hd : d = x
  · subst hd
    rw [Heap.block?_update_self hx, hx]
    rfl
  · rw [Heap.block?_update_ne h hd]

/-- One struct was rewritten, and its arrays are where they were. -/
theorem accounted_same (hb : b ∈ w.structs) (hl : w.heap.block? b = some blk)
    (hl' : h'.block? b = some blk')
    (hp : ∀ f ∈ S.fields, f.isRepeated = true → E.ptrAt S blk' f = E.ptrAt S blk f)
    (hk : ∀ d ≠ b, h'.block? d = w.heap.block? d) : E.Accounted S w handed h' w.structs := by
  intro d hd
  by_cases howns : E.Owns S w d
  · refine Or.inl (howns.imp id fun ⟨x, f, hx, hf, hr, y, hy, hpy⟩ => ⟨x, f, hx, hf, hr, ?_⟩)
    by_cases hxb : x = b
    · subst hxb
      obtain rfl := Option.some.inj (hl.symm.trans hy)
      exact ⟨blk', hl', (hp f hf hr).trans hpy⟩
    · exact ⟨y, (hk x hxb).trans hy, hpy⟩
  · refine Or.inr (Or.inl ⟨?_, howns⟩)
    rwa [← hk d fun he => howns (Or.inl (he ▸ hb))]

/-- An array was installed, and the block it was in before is gone. -/
theorem Installs.accounted (ho : E.Owned S w) (wf : S.WellFormed) (hb : b ∈ w.structs)
    (hl : w.heap.block? b = some blk) (hf : f ∈ S.fields) (hr : f.isRepeated = true)
    (hi : E.Installs S w.heap b blk f n d arr h' blk')
    (hrep : h'.Replaces w.heap.next (E.ptrAt S blk f)) : E.Accounted S w handed h' w.structs := by
  intro x hx
  obtain ⟨xblk, hxl⟩ := Option.isSome_iff_exists.mp hx
  by_cases hxd : x = d
  · subst hxd
    exact Or.inl (Or.inr ⟨b, f, hb, hf, hr, blk', hi.block, hi.ptr⟩)
  have hd := Heap.lt_next hi.array
  have hxn := Heap.lt_next hxl
  obtain ⟨hnext, hgone⟩ := hrep
  -- the new block, if there is one, is `d`
  have hlt : x < w.heap.next := by
    rcases hi.origin with hp | hge
    · rcases hgone with heq | hgone
      · omega
      · have hdead := hgone d hp
        rw [hi.array] at hdead
        cases hdead
    · omega
  by_cases howns : E.Owns S w x
  · left
    rcases howns with hs | ⟨b', g, hg⟩
    · exact Or.inl hs
    · right
      by_cases hsame : b' = b ∧ g = f
      · obtain ⟨rfl, rfl⟩ := hsame
        obtain ⟨-, -, -, y, hy, hp⟩ := hg
        obtain rfl := Option.some.inj (hl.symm.trans hy)
        rcases hgone with heq | hgone
        · rcases hi.origin with hp' | hge
          · exact absurd (Ptr.loc.inj (hp.symm.trans hp')).1 hxd
          · omega
        · rw [hgone x hp] at hx
          cases hx
      · obtain ⟨hb', hgf, hgr, y, hy, hp⟩ := hg
        refine ⟨b', g, hb', hgf, hgr, ?_⟩
        by_cases hbb : b' = b
        · subst hbb
          obtain rfl := Option.some.inj (hl.symm.trans hy)
          refine ⟨blk', hi.block, ?_⟩
          rw [ptrAt_congr (hi.frame g hgf (fun he => hsame ⟨rfl, he⟩)
            (wf.countOf_ne_array hf hgf hr hgr).symm)]
          exact hp
        · exact ⟨y, (hi.struct_ne ho hb hl hf hr hb' hbb).trans hy, hp⟩
  · refine Or.inr (Or.inl ⟨?_, howns⟩)
    rwa [← hi.other x hlt (fun he => howns (Or.inl (he ▸ hb))) fun hp =>
      howns (Or.inr ⟨b, f, hb, hf, hr, blk, hl, hp⟩)]

/-- A setter that failed has kept everything. -/
theorem Keeps.accounted (hk : E.Keeps S w.heap b blk h' blk') (hb : b ∈ w.structs)
    (hl : w.heap.block? b = some blk) : E.Accounted S w handed h' w.structs := by
  refine accounted_same hb hl hk.block (fun f hf _ => ?_) hk.other
  show (E.valueAt S blk' f).asPtr = (E.valueAt S blk f).asPtr
  rw [hk.value f hf]

variable (E) in
/-- The blocks a call that returned `v` hands to the caller. -/
def Handed (h' : Heap) : Api → Val → Nat → Prop
  | .accessor (.get f _ p), _ => fun d =>
      (f.isRepeated && !f.isMutable) = true ∧ E.outVal h' f.type p = .ptr (.base d)
  | .serialize _, v => fun d => v = .ptr (.base d)
  | _, _ => fun _ => False

section Calls

variable (ho : E.Owned S w) (flat : S.IsFlat) (hfun : Resolves E S)
include ho flat hfun

theorem get_accounted {Self p : Ptr} (hc : E.Proper S w (.get f Self p)) {v : Val}
    (hrun : E.call S (.get f Self p) w.heap = .ok (v, h')) :
    E.Accounted S w (E.Handed h' (.accessor (.get f Self p)) v) h' w.structs := by
  obtain ⟨⟨b, hb, rfl⟩, hf, x, o, xblk, hout, hx⟩ := hc
  obtain ⟨blk, hl, hh, harr⟩ := ho.live b hb
  have wf := flat.toWellFormed
  have hs := flat.isStruct f hf
  have hne : ∀ d, E.Owns S w d → d ≠ x := fun d hd he => hx (he ▸ hd)
  rw [call_get hfun hf] at hrun
  cases hri : (f.isRepeated && !f.isMutable) with
  | false =>
    obtain ⟨rfl, rfl⟩ := returnBool_inj (getGetter_direct wf hh hf hl hs hri
      (length_encode_valueAt flat hf (harr f hf)) hout) hrun
    refine accounted_frame ho (fun d hd => Heap.block?_update_ne _ (hne d hd) _) fun d hd => ?_
    rw [isSome_update hout.live] at hd
    exact Or.inl hd
  | true =>
    obtain ⟨hr, hm⟩ : f.isRepeated = true ∧ f.isMutable = false := by simpa using hri
    rcases getGetter_copy wf hh hf hr hl hm ((harr f hf hr).readable hr).1 hout with
      ⟨-, copy, -, hget⟩ | ⟨-, hget⟩
    · obtain ⟨rfl, rfl⟩ := returnBool_inj hget hrun
      have hlive := Heap.block?_push_of_some hout.live copy
      refine accounted_frame ho (fun d hd => ?_) fun d hd => ?_
      · rw [Heap.block?_update_ne _ (hne d hd), Heap.block?_push_of_lt (ho.lt_next hd)]
      · rw [isSome_update hlive] at hd
        rcases Nat.lt_or_ge d w.heap.next with hlt | hge
        · rw [Heap.block?_push_of_lt hlt] at hd
          exact Or.inl hd
        · -- the copy is where the output parameter points
          obtain ⟨y, hy⟩ := Option.isSome_iff_exists.mp hd
          have hlt := Heap.lt_next hy
          rw [Heap.next_push] at hlt
          obtain rfl : d = w.heap.next := by omega
          refine Or.inr ⟨hri, outVal_eq hout ?_ ?_ (Heap.block?_update_self hlive _)⟩
          · exact length_ptr_slot wf hf hr _
          · rw [(wf.array_spec hf hr).1]
            exact decode_encode_loc E _ _ _ _
    · obtain ⟨rfl, rfl⟩ := returnBool_inj hget hrun
      exact accounted_frame ho (fun _ _ => rfl) fun d hd => Or.inl hd

theorem getItem_accounted {Self p : Ptr} {idx : I64} (hc : E.Proper S w (.getItem f Self idx p))
    {v : Val} (hrun : E.call S (.getItem f Self idx p) w.heap = .ok (v, h')) :
    E.Accounted S w handed h' w.structs := by
  obtain ⟨⟨b, hb, rfl⟩, hf, hr, x, o, xblk, hout, hx⟩ := hc
  obtain ⟨blk, hl, hh, harr⟩ := ho.live b hb
  rw [call_getItem hfun hf hr] at hrun
  rcases getItemGetter_ok flat.toWellFormed hh hf hr hl idx (harr f hf hr)
    (flat.elem_not_pointer hf hr) hout with ⟨-, d, arr, -, -, hget⟩ | ⟨-, hget⟩
  · obtain ⟨rfl, rfl⟩ := returnBool_inj hget hrun
    refine accounted_frame ho (fun d hd => Heap.block?_update_ne _ ?_ _) fun d hd => ?_
    · rintro rfl
      exact hx hd
    · rw [isSome_update hout.live] at hd
      exact Or.inl hd
  · obtain ⟨rfl, rfl⟩ := returnBool_inj hget hrun
    exact accounted_frame ho (fun _ _ => rfl) fun d hd => Or.inl hd

theorem setItem_accounted {Self : Ptr} {idx : I64} {a v : Val}
    (hc : E.Proper S w (.setItem f Self idx a))
    (hrun : E.call S (.setItem f Self idx a) w.heap = .ok (v, h')) :
    E.Accounted S w handed h' w.structs := by
  obtain ⟨⟨b, hb, rfl⟩, hf, hr, k, rfl⟩ := hc
  obtain ⟨blk, hl, hh, harr⟩ := ho.live b hb
  have wf := flat.toWellFormed
  rw [call_setItem hfun hf hr] at hrun
  rcases getItemSetter_ok wf hh hf hr hl idx k (harr f hf hr)
    (array_ne_struct ho hb hl hf hr) with ⟨-, h₁, d, arr, -, hset, hi⟩ | ⟨-, hset⟩
  · obtain ⟨rfl, rfl⟩ := returnBool_inj hset hrun
    have hnext := next_getItemSetter hset
    exact hi.accounted ho wf hb hl hf hr ⟨Nat.le_succ_of_le (Nat.le_of_eq hnext), Or.inl hnext⟩
  · obtain ⟨rfl, rfl⟩ := returnBool_inj hset hrun
    exact accounted_frame ho (fun _ _ => rfl) fun d hd => Or.inl hd

variable (hA : ∀ t n, E.alloc.succeeds t n = true)
include hA

theorem setArray_accounted {Self src : Ptr} {v : Val} (hc : E.Proper S w (.setArray f Self src n))
    (hsafe : E.Safe S w (.setArray f Self src n))
    (hrun : E.call S (.setArray f Self src n) w.heap = .ok (v, h')) :
    E.Accounted S w handed h' w.structs := by
  obtain ⟨⟨b, hb, rfl⟩, hf, hm, hr, hlt, hread, hown⟩ := hc
  obtain ⟨blk, hl, hh, harr⟩ := ho.live b hb
  have wf := flat.toWellFormed
  have hsrc : E.Source S w.heap b blk f src n :=
    { size := hlt
      readable := hread
      not_struct := fun o he => hown b o he (Or.inl hb)
      not_array := fun d o hp he => hown d o he (Or.inr ⟨b, f, hb, hf, hr, blk, hl, hp⟩) }
  rw [call_setArray hfun hf hm, getSetter_array flat hf hr] at hrun
  rcases setRepeated_ok wf hh hf hr hl (fun t k _ => hA t k)
    (E.layout.allocSize_pos (flat.elem_isScalar hf hr)) (harr f hf hr)
    (array_ne_struct ho hb hl hf hr) hsrc (fun h0 => hsafe h0 b blk rfl hl) with
    ⟨h₁, blk', d, arr, hset, hi, -⟩ | ⟨-, h₁, blk', hset, hk⟩
  · obtain ⟨rfl, rfl⟩ := returnBool_inj hset hrun
    exact hi.accounted ho wf hb hl hf hr (setRepeated_replaces wf hh hf hl hset)
  · obtain ⟨rfl, rfl⟩ := returnBool_inj hset hrun
    exact hk.accounted hb hl

theorem set_accounted {Self : Ptr} {a v : Val} (hc : E.Proper S w (.set f Self a))
    (hsafe : E.Safe S w (.set f Self a))
    (hrun : E.call S (.set f Self a) w.heap = .ok (v, h')) :
    E.Accounted S w handed h' w.structs := by
  obtain ⟨⟨b, hb, rfl⟩, hf, hm, hr, k, rfl⟩ := hc
  obtain ⟨blk, hl, hh, harr⟩ := ho.live b hb
  have wf := flat.toWellFormed
  have hs := flat.isStruct f hf
  rw [call_set hfun hf hm] at hrun
  cases hcount : f.isCount with
  | false =>
    obtain ⟨rfl, rfl⟩ := returnBool_inj (getSetter_scalar wf hh hf hl hs hr hcount k) hrun
    refine accounted_same hb hl (Heap.block?_update_self hl _) (fun g hg hrg => ?_)
      fun d hd => Heap.block?_update_ne _ hd _
    have hgf : g ≠ f := by
      rintro rfl
      rw [hr] at hrg
      cases hrg
    exact ptrAt_congr (slot_put_ne wf hh hf hg hgf (length_encode_int E _ _))
  | true =>
    obtain ⟨-, hg, hrg, -⟩ := wf.arrayOf_spec hf hcount
    rw [getSetter_count flat hf hcount hr] at hrun
    rcases setCount_ok wf hh hg hrg hl (fun t k _ => hA t k)
      (E.layout.allocSize_pos (flat.elem_isScalar hg hrg)) (harr _ hg hrg)
      (array_ne_struct ho hb hl hg hrg) (hsafe hcount b blk rfl hl) with
      ⟨hn, -, h₁, blk', d, arr, hset, hi, -⟩ | ⟨-, h₁, blk', hset, hk⟩
    · obtain ⟨rfl, rfl⟩ := returnBool_inj hset hrun
      exact hi.accounted ho wf hb hl hg hrg (setCount_replaces wf hh hg hl hrg hn hset)
    · obtain ⟨rfl, rfl⟩ := returnBool_inj hset hrun
      exact hk.accounted hb hl

omit flat hfun hA in
/-- All new blocks are the struct and its arrays. -/
theorem accounted_new {n : Nat} (hn : n = w.heap.next) (hobj : h'.block? n = some obj)
    (hk : ∀ d < n, h'.block? d = w.heap.block? d) {l : List Field}
    (hl : ∀ f ∈ l, f ∈ S.fields ∧ f.isRepeated = true) (hnd : l.Nodup)
    (hnext : h'.next ≤ n + 1 + l.length)
    (hp : ∀ f ∈ l, ∃ d, n < d ∧ d < h'.next ∧ E.ptrAt S obj f = .base d)
    (hapart : ∀ f ∈ l, ∀ g ∈ l, f ≠ g → E.ptrAt S obj f ≠ E.ptrAt S obj g) :
    E.Accounted S w handed h' (withResult w.structs (.base n)) := by
  subst hn
  rw [withResult_base]
  intro d hd
  obtain ⟨y, hy⟩ := Option.isSome_iff_exists.mp hd
  rcases Nat.lt_or_ge d w.heap.next with hlt | hge
  · rw [hk d hlt] at hd
    by_cases howns : E.Owns S w d
    · refine Or.inl (howns.imp Or.inr fun ⟨b, f, hb, hf, hr, blk, hbl, hpf⟩ => ?_)
      exact ⟨b, f, Or.inr hb, hf, hr, blk, (hk b (ho.lt_next (Or.inl hb))).trans hbl, hpf⟩
    · exact Or.inr (Or.inl ⟨hd, howns⟩)
  · left
    rcases Nat.eq_or_lt_of_le hge with rfl | hgt
    · exact Or.inl (Or.inl rfl)
    · -- as many arrays as there are blocks
      have hlt := Heap.lt_next hy
      have hblock : ∀ f ∈ l, w.heap.next < (E.ptrAt S obj f).block ∧
          (E.ptrAt S obj f).block < h'.next ∧
          E.ptrAt S obj f = .base (E.ptrAt S obj f).block := by
        intro f hf
        obtain ⟨d, h1, h2, h3⟩ := hp f hf
        rw [h3]
        exact ⟨h1, h2, rfl⟩
      have hinj : ∀ f ∈ l, ∀ g ∈ l, (E.ptrAt S obj f).block = (E.ptrAt S obj g).block → f = g := by
        intro f hf g hg he
        by_contra hne
        refine hapart f hf g hg hne ?_
        rw [(hblock f hf).2.2, (hblock g hg).2.2, he]
      obtain ⟨f, hf, rfl⟩ := exists_of_injOn hnd hinj
        (fun f hf => ⟨(hblock f hf).1, Nat.lt_of_lt_of_le (hblock f hf).2.1 hnext⟩) hgt
        (Nat.lt_of_lt_of_le hlt hnext)
      exact Or.inr ⟨w.heap.next, f, Or.inl rfl, (hl f hf).1, (hl f hf).2, obj, hobj,
        (hblock f hf).2.2⟩

theorem create_accounted (hstruct : E.layout.structSize S.packed S.elements < 2 ^ 64)
    (hcf : S.CountsFirst) {arg : Field → Val} (hc : E.Proper S w (.create arg)) {v : Val}
    (hrun : E.call S (.create arg) w.heap = .ok (v, h')) :
    E.Accounted S w handed h' (structsAfter w.structs (.create arg) v) := by
  rw [call_create hfun] at hrun
  rcases getConstructor_ok flat hcf hstruct hc with ⟨h₁, blk, hnew, hi⟩ | ⟨⟨t, n, hfail⟩, -⟩
  · obtain ⟨rfl, rfl⟩ : Val.ptr (.base w.heap.next) = v ∧ h₁ = h' := by
      have := (bind_of_ok hnew : returnPtr _ _ = _).symm.trans hrun
      simpa [pure_apply] using this
    have hset : structsAfter w.structs (.create arg) (.ptr (.base w.heap.next)) =
        withResult w.structs (.base w.heap.next) := by
      ext x
      exact or_congr_right ⟨fun h => Val.ptr.inj h, fun h => congrArg Val.ptr h⟩
    have hnext := E.next_getConstructor S flat _ _ _ _ (Nat.le_refl w.heap.next) hnew
    have hmem : ∀ f ∈ immutableArrays S, f ∈ S.fields ∧ f.isRepeated = true ∧
        f.isMutable = false := by
      intro f hf
      obtain ⟨hf, hif⟩ := List.mem_filter.mp hf
      simp only [Bool.and_eq_true, Bool.not_eq_true'] at hif
      exact ⟨hf, hif⟩
    rw [hset]
    refine accounted_new ho rfl hi.block hi.other
      (fun f hf => ⟨(hmem f hf).1, (hmem f hf).2.1⟩)
      (flat.toWellFormed.fields_nodup.filter _) hnext (fun f hf => ?_) fun f hf g hg hne => ?_
    · obtain ⟨hf, hr, hm⟩ := hmem f hf
      obtain ⟨d, arr, hp, hlt, hd, -⟩ := hi.array f hf hr hm
      exact ⟨d, hlt, Heap.lt_next hd, hp⟩
    · obtain ⟨hf, hr, hm⟩ := hmem f hf
      obtain ⟨hg, hrg, hmg⟩ := hmem g hg
      obtain ⟨d, -, hp, -⟩ := hi.array f hf hr hm
      exact fun he => hi.apart f hf g hg hr hrg hne d hp (he ▸ hp)
  · rw [hA] at hfail
    cases hfail

omit hfun hA in
theorem destroy_accounted (hfun : Resolves E S) {Self : Ptr} (hc : E.Proper S w (.destroy Self))
    {v : Val} (hrun : E.call S (.destroy Self) w.heap = .ok (v, h')) :
    E.Accounted S w handed h' (structsAfter w.structs (.destroy Self) v) := by
  obtain ⟨b, hb, rfl⟩ := hc
  obtain ⟨blk, hl, hh, -⟩ := ho.live b hb
  rw [call_destroy hfun] at hrun
  obtain ⟨h₁, hfree, hgone, harr, hk⟩ := getDestructor_ok flat hl hh (ho.disposable hb hl)
  obtain ⟨rfl, rfl⟩ : Val.int 0 = v ∧ h₁ = h' := by
    have := (bind_of_ok hfree : returnVoid _ _ = _).symm.trans hrun
    simpa [pure_apply] using this
  have hmem : ∀ x, x ∈ structsAfter w.structs (.destroy (.base b)) (.int 0) ↔
      x ∈ w.structs ∧ x ≠ b := fun x =>
    and_congr_right fun _ => not_congr ⟨fun h => (Ptr.loc.inj h).1.symm, fun h => by rw [h]⟩
  intro d hd
  have hdb : d ≠ b := by
    rintro rfl
    rw [hgone] at hd
    cases hd
  have hda : ∀ f ∈ S.fields, f.isRepeated = true → E.ptrAt S blk f ≠ .base d := by
    intro f hf hr hp
    rw [harr f hf hr d hp] at hd
    cases hd
  by_cases howns : E.Owns S w d
  · refine Or.inl (howns.imp (fun hs => (hmem d).mpr ⟨hs, hdb⟩) ?_)
    rintro ⟨x, f, hx, hf, hr, y, hy, hp⟩
    have hxb : x ≠ b := by
      rintro rfl
      obtain rfl := Option.some.inj (hl.symm.trans hy)
      exact hda f hf hr hp
    refine ⟨x, f, (hmem x).mpr ⟨hx, hxb⟩, hf, hr, y, ?_, hp⟩
    exact (hk x hxb fun g hg hrg hpg => ho.disjoint b g x ⟨hb, hg, hrg, blk, hl, hpg⟩ hx).trans hy
  · refine Or.inr (Or.inl ⟨?_, howns⟩)
    rwa [← hk d hdb hda]

/-- Every proper and safe call. -/
theorem call_accounted (hstruct : E.layout.structSize S.packed S.elements < 2 ^ 64) {c : Call}
    (hc : E.Proper S w c) (hsafe : E.Safe S w c) {v : Val}
    (hrun : E.call S c w.heap = .ok (v, h')) :
    E.Accounted S w (E.Handed h' (.accessor c) v) h' (structsAfter w.structs c v) := by
  cases c with
  | create arg => exact create_accounted ho flat hfun hA hstruct hsafe hc hrun
  | get f Self p => exact get_accounted ho flat hfun hc hrun
  | getItem f Self idx p => exact getItem_accounted ho flat hfun hc hrun
  | set f Self a => exact set_accounted ho flat hfun hA hc hsafe hrun
  | setArray f Self src n => exact setArray_accounted ho flat hfun hA hc hsafe hrun
  | setItem f Self idx a => exact setItem_accounted ho flat hfun hc hrun
  | destroy Self => exact destroy_accounted ho flat hfun hc hrun

end Calls

/-! ## Runs -/

variable (E S) in
/-- What a call has to be: of an accessor proper and safe, of `serialize_S` anything, of
    `deserialize_S` with a buffer that has a value. -/
def Allowed (w : World) : Api → Prop
  | .accessor c => E.Proper S w c ∧ E.Safe S w c
  | .serialize _ => True
  | .deserialize p => ∃ a buf V, p = .base a ∧ w.heap.block? a = some buf ∧
      E.Wire S V buf.cells ∧ V.Bounded E.layout S ∧
      ∀ f ∈ S.fields, f.isCount = false → E.FieldSwappable V f

/-- The structs alive after a call that returned `v`. -/
def structsLeft (structs : Set Nat) : Api → Val → Set Nat
  | .accessor c, v => structsAfter structs c v
  | .serialize _, _ => structs
  | .deserialize _, v => withResult structs v.asPtr

/-- The memory, and the blocks the caller has allocated or was handed. -/
structure Ledger where
  world : World
  known : Set Nat

variable (E S) in
/-- The caller works on its own memory and makes a call that is allowed. The blocks it has made
    and those it is handed are its own. -/
def LedgerStep (l : Ledger) (e : Api × Val) (l' : Ledger) : Prop :=
  ∃ w, E.CallerStep S l.world w ∧ E.Allowed S w e.1 ∧
    E.callApi S e.1 w.heap = .ok (e.2, l'.world.heap) ∧
    l'.world.structs = structsLeft w.structs e.1 e.2 ∧
    l'.known = {d | d ∈ l.known ∨
      ((w.heap.block? d).isSome ∧ ¬ (l.world.heap.block? d).isSome) ∨
      E.Handed l'.world.heap e.1 e.2 d}

/-- Each live block is a struct, or an array of one, or the caller's. -/
def Accounts (E : Env) (S : Struct) (l : Ledger) : Prop :=
  E.Owned S l.world ∧ ∀ d, (l.world.heap.block? d).isSome → E.Owns S l.world d ∨ d ∈ l.known

section Api

variable (ho : E.Owned S w) (flat : S.IsFlat) (hfun : Resolves E S) (hclosed : E.Closed)
  (hA : ∀ t n, E.alloc.succeeds t n = true)
  (hstruct : E.layout.structSize S.packed S.elements < 2 ^ 64)
include ho flat hfun hclosed

theorem serialize_accounted {Self : Ptr} {v : Val}
    (hrun : E.callApi S (.serialize Self) w.heap = .ok (v, h')) :
    E.Owned S ⟨h', w.structs⟩ ∧ E.Accounted S w (E.Handed h' (.serialize Self) v) h' w.structs := by
  obtain ⟨q, h₁, hser, hret⟩ := bind_eq_ok hrun
  obtain ⟨rfl, rfl⟩ : Val.ptr q = v ∧ h₁ = h' := by
    have := hret
    simpa [pure_apply] using this
  have hk := ((Heap.Extends.frame w.heap).getSerializer hclosed S Self w.heap q h₁
    (Heap.Extends.refl _) hser).1.block?_eq
  have hkept : ∀ d, E.Owns S w d → h₁.block? d = w.heap.block? d := fun d hd =>
    hk d (ho.lt_next hd)
  refine ⟨ho.frame_heap hkept, accounted_frame ho hkept fun d hd => ?_⟩
  obtain ⟨y, hy⟩ := Option.isSome_iff_exists.mp hd
  have hlt := Heap.lt_next hy
  rcases Nat.lt_or_ge d w.heap.next with hold | hge
  · rw [hk d hold] at hd
    exact Or.inl hd
  · rcases E.getSerializer_next S flat hfun Self w.heap q h₁ rfl hser with hn | ⟨hn, rfl⟩
    · omega
    · obtain rfl : d = w.heap.next := by omega
      exact Or.inr rfl

include hA hstruct

theorem deserialize_accounted {p : Ptr} (hc : E.Allowed S w (.deserialize p)) {v : Val}
    (hrun : E.callApi S (.deserialize p) w.heap = .ok (v, h')) :
    E.Owned S ⟨h', withResult w.structs v.asPtr⟩ ∧
      E.Accounted S w handed h' (withResult w.structs v.asPtr) := by
  obtain ⟨a, buf, V, rfl, ha, hw, hV, hsw⟩ := hc
  have wf := flat.toWellFormed
  obtain ⟨h₁, obj, hread, hobj, hval, hload, hapart, hk⟩ :=
    getDeserializer_new flat hfun hclosed hA hstruct hV hsw hw.carries ha
  obtain ⟨rfl, rfl⟩ : Val.ptr (.base w.heap.next) = v ∧ h₁ = h' := by
    have := (bind_of_ok hread : returnPtr _ _ = _).symm.trans hrun
    simpa [pure_apply] using this
  have harr : ∀ f ∈ S.fields, f.isRepeated = true → ∃ d arr, w.heap.next < d ∧
      E.ptrAt S obj f = .base d ∧ h₁.block? d = some arr ∧
      E.exactSizeFor f (E.countAt S obj (S.countOf f)) ≤ arr.cells.length := by
    intro f hf hr
    have hl := hload f hf (wf.array_spec hf hr).2.2.2.1
    unfold FieldLoaded at hl
    rw [if_pos hr] at hl
    obtain ⟨hcount, d, arr, hlt, hp, hd, hlen, -⟩ := hl
    refine ⟨d, arr, hlt, hp, hd, ?_⟩
    rw [hlen, Value.fieldSize_array hr, exactSizeFor, hcount]
  have hmem : ∀ f ∈ arrays S, f ∈ S.fields ∧ f.isRepeated = true := fun f hf =>
    ⟨(List.mem_filter.mp hf).1, by simpa using (List.mem_filter.mp hf).2⟩
  have hnext := E.next_getDeserializer S flat hfun _ _ _ _ (Nat.le_refl w.heap.next) hread
  refine ⟨ho.joined rfl hobj hval.holds harr hapart hk, accounted_new ho rfl hobj hk hmem
    (wf.fields_nodup.filter _) hnext (fun f hf => ?_) fun f hf g hg hne => ?_⟩
  · obtain ⟨d, arr, hlt, hp, hd, -⟩ := harr f (hmem f hf).1 (hmem f hf).2
    exact ⟨d, hlt, Heap.lt_next hd, hp⟩
  · exact hapart f (hmem f hf).1 g (hmem g hg).1 (hmem f hf).2 (hmem g hg).2 hne

/-- Every call that is allowed. -/
theorem api_accounted {c : Api} (hc : E.Allowed S w c) {v : Val}
    (hrun : E.callApi S c w.heap = .ok (v, h')) :
    E.Owned S ⟨h', structsLeft w.structs c v⟩ ∧
      E.Accounted S w (E.Handed h' c v) h' (structsLeft w.structs c v) := by
  cases c with
  | accessor c =>
    obtain ⟨hproper, hsafe⟩ := hc
    obtain ⟨v', h₁, hrun', ho'⟩ :=
      call_owned ho flat hfun (fun t n _ => hA t n) hstruct hproper hsafe
    obtain ⟨rfl, rfl⟩ := Prod.mk.inj (Except.ok.inj (hrun'.symm.trans hrun))
    exact ⟨ho', call_accounted ho flat hfun hA hstruct hproper hsafe hrun⟩
  | serialize Self => exact serialize_accounted ho flat hfun hclosed hrun
  | deserialize p => exact deserialize_accounted ho flat hfun hclosed hA hstruct hc hrun

end Api

theorem ledgerStep_accounts (flat : S.IsFlat) (hfun : Resolves E S) (hclosed : E.Closed)
    (hA : ∀ t n, E.alloc.succeeds t n = true)
    (hstruct : E.layout.structSize S.packed S.elements < 2 ^ 64) {l l' : Ledger} {e : Api × Val}
    (hl : Accounts E S l) (hstep : LedgerStep E S l e l') : Accounts E S l' := by
  obtain ⟨ho, hlive⟩ := hl
  obtain ⟨w, hw, hc, hrun, hs, hknown⟩ := hstep
  have how := ho.caller hw
  obtain ⟨ho', hacc⟩ := api_accounted how flat hfun hclosed hA hstruct hc hrun
  have hworld : l'.world = ⟨l'.world.heap, structsLeft w.structs e.1 e.2⟩ := by rw [← hs]
  rw [Accounts, hworld]
  refine ⟨ho', fun d hd => ?_⟩
  rcases hacc d hd with howns | ⟨hd, hno⟩ | hd
  · exact Or.inl howns
  · right
    rw [hknown]
    by_cases hold : (l.world.heap.block? d).isSome
    · refine Or.inl ((hlive d hold).resolve_left fun howns => hno ?_)
      exact howns.imp (fun h => hw.1 ▸ h) fun ⟨b, f, h⟩ =>
        ⟨b, f, ((ho.frame w hw.1 hw.2).2 b f d).mpr h⟩
    · exact Or.inr (Or.inl ⟨hd, hold⟩)
  · right
    rw [hknown]
    exact Or.inr (Or.inr hd)

/-- A safe call and what the caller knows after it. -/
theorem ledgerStep_of_worldStep (l : Ledger) {c : Call} {v : Val} {w' : World}
    (hstep : WorldStep E S (E.Safe S) l.world (c, v) w') :
    ∃ known, LedgerStep E S l (.accessor c, v) ⟨w', known⟩ := by
  obtain ⟨w, hw, hc, hsafe, hrun, hs⟩ := hstep
  exact ⟨{d | d ∈ l.known ∨ ((w.heap.block? d).isSome ∧ ¬ (l.world.heap.block? d).isSome) ∨
    E.Handed w'.heap (.accessor c) v d}, w, hw, ⟨hc, hsafe⟩, hrun, by rw [hw.1]; exact hs, rfl⟩

end Env

open Env

/-- In every run of calls that are `Allowed`, with allocations that succeed, a live block that is
    neither a struct nor an array of one was allocated by the caller or handed to it. So once the
    structs are destroyed no other block is left. -/
theorem nothing_lost {A : Allocator} {DL : DataLayout} {S : Struct} (flat : S.IsFlat)
    (hn : S.DistinctNames) (hstruct : DL.structSize S.packed S.elements < 2 ^ 64)
    (hA : ∀ t n, A.succeeds t n = true) {l₀ l : Ledger} (h₀ : l₀.world.structs = ∅)
    (hknown : ∀ d, (l₀.world.heap.block? d).isSome → d ∈ l₀.known) {es : List (Api × Val)}
    (hrun : Run (LedgerStep (Env.ofStruct A DL S) S) l₀ es l) :
    (∀ d, (l.world.heap.block? d).isSome →
      (Env.ofStruct A DL S).Owns S l.world d ∨ d ∈ l.known) ∧
    (l.world.structs = ∅ → ∀ d, (l.world.heap.block? d).isSome → d ∈ l.known) := by
  have hacc : Accounts (Env.ofStruct A DL S) S l :=
    hrun.invariant (fun _ _ _ hl hstep => ledgerStep_accounts flat (resolves_ofStruct A DL hn)
      (closed_ofStruct A DL S) hA hstruct hl hstep)
      ⟨owned_of_empty h₀, fun d hd => Or.inr (hknown d hd)⟩
  refine ⟨hacc.2, fun hempty d hd => (hacc.2 d hd).resolve_left ?_⟩
  rintro (hs | ⟨b, f, hb, -⟩)
  · rw [hempty] at hs
    exact hs
  · rw [hempty] at hb
    exact hb

/-- A path is created, gets two elements of `x` and is destroyed: no block is left. -/
theorem nothing_lost_path : ∃ l, Run (LedgerStep (Env.ofStruct .calloc .default pathStruct)
      pathStruct) ⟨⟨⟨[], 0⟩, ∅⟩, ∅⟩
      [(.accessor (.create fun _ => .int 7), .ptr (.base 0)),
        (.accessor (.set (pathStruct.countOf pathX) (.base 0) (.int 2)), .int 1),
        (.accessor (.destroy (.base 0)), .int 0)] l ∧
    (∀ d, (l.world.heap.block? d).isSome →
      (Env.ofStruct .calloc .default pathStruct).Owns pathStruct l.world d ∨ d ∈ l.known) ∧
    (l.world.structs = ∅ → ∀ d, (l.world.heap.block? d).isSome → d ∈ l.known) := by
  have hdestroy : WorldStep (Env.ofStruct .calloc .default pathStruct) pathStruct
      (Safe (Env.ofStruct .calloc .default pathStruct) pathStruct)
      (pathWorld [some (grownPath 2), some (Allocator.calloc.fresh 1 8)] 2)
      (.destroy (.base 0), .int 0) ⟨⟨[none, none], 2⟩, _⟩ :=
    ⟨_, ⟨rfl, fun _ _ => rfl⟩, ⟨0, mem_pathWorld _ _, rfl⟩, trivial, rfl, rfl⟩
  obtain ⟨k₁, h₁⟩ := ledgerStep_of_worldStep ⟨⟨⟨[], 0⟩, ∅⟩, ∅⟩
    (create_pathWorld _ (by unfold Safe; decide))
  obtain ⟨k₂, h₂⟩ := ledgerStep_of_worldStep ⟨_, k₁⟩ (setCount_pathWorld (n := 2) _
    (fun _ _ _ _ _ => Or.inl (by decide))
    ⟨[some (grownPath 2), some (Allocator.calloc.fresh 1 8)], 2⟩ rfl)
  obtain ⟨k₃, h₃⟩ := ledgerStep_of_worldStep ⟨_, k₂⟩ hdestroy
  have hrun := Run.cons h₁ (.cons h₂ (.cons h₃ (.nil _)))
  exact ⟨_, hrun, nothing_lost pathStruct_isFlat pathStruct_distinctNames (by decide)
    (fun _ _ => rfl) rfl (fun d hd => by simp [Heap.block?] at hd) hrun⟩

/-- In a module of any structs, `serialize_S` and `deserialize_S` change and free no block that was
    there, and what they return is NULL or new. -/
theorem readonly_sound (E : Env) (Ss : List Struct) (S : Struct) (p : Ptr) {h h' : Heap} {q : Ptr}
    (hrun : (E.link Ss).getSerializer S p h = .ok (q, h') ∨
      (E.link Ss).getDeserializer S p h = .ok (q, h')) :
    h.Extends h' ∧ q.LeadsTo (fun d => h.next ≤ d) h' := by
  have hclosed := closed_link E Ss
  have hframe := Heap.Extends.frame h
  rcases hrun with hrun | hrun
  · exact hframe.getSerializer hclosed S p h q h' (Heap.Extends.refl h) hrun
  · exact hframe.getDeserializer hclosed S p h q h' (Heap.Extends.refl h) hrun

theorem nestedMessage_fits :
    (encodeInt false 8 16 ++ (encodeInt false 8 9 ++ encodeInt false 1 7)).length < 2 ^ 64 := by
  decide

/-- A buffer for an `outerStruct`, with that of its `innerStruct` in it. -/
def nestedMessage : Block := ⟨_, nestedMessage_fits⟩

/-- Both structs are made, the inner one by the outer one's field. -/
theorem readonly_sound_nested : ∃ q h',
    (nestedEnv.link [innerStruct]).getDeserializer outerStruct (.base 0) ⟨[some nestedMessage], 1⟩ =
      .ok (q, h') ∧ h'.next = 3 ∧
    Heap.Extends ⟨[some nestedMessage], 1⟩ h' ∧ q.LeadsTo (fun d => 1 ≤ d) h' := by
  obtain ⟨q, h', hrun, hnext⟩ : ∃ q h', (nestedEnv.link [innerStruct]).getDeserializer outerStruct
      (.base 0) ⟨[some nestedMessage], 1⟩ = .ok (q, h') ∧ h'.next = 3 := ⟨_, _, rfl, rfl⟩
  exact ⟨q, h', hrun, hnext, readonly_sound _ _ _ _ (Or.inr hrun)⟩

end Tyr
