import Tyr.Access.Constructor
import Tyr.Access.Refinement
import Tyr.Access.Footprint

/-
  What keeps the immutable fields of a struct.

  `Shielded` speaks of one struct `s`, born in heap `h₁`: its immutable slots and the blocks of its
  immutable arrays are as they were, and no array that may be written or freed through a struct
  leads to a struct or to one of those blocks. All other blocks are `Outside`, and `Shielded`
  leaves them to the program (`Shielded.frame`). So the getters and `serialize_S` keep it by their
  footprint, and what is left are the functions that write to `Self`: each has its `_shielded`
  rule. `create_S` and `deserialize_S` make one more struct that may be passed.
-/

namespace Tyr

open Prog

namespace Env

variable (E : Env) (S : Struct) (s : Nat) (h₁ : Heap)

/-- Block `d` is an immutable array of struct `s`. -/
def Fixed (d : Nat) : Prop :=
  ∃ f ∈ S.fields, f.isRepeated = true ∧ f.isMutable = false ∧
    ∃ blk, h₁.block? s = some blk ∧ E.ptrAt S blk f = .base d

/-- Block `d` is neither a struct nor an immutable array of `s`. -/
def Outside (structs : Set Nat) (d : Nat) : Prop := d ∉ structs ∧ ¬ E.Fixed S s h₁ d

/-- Field `f` of struct `b` is none of the immutable fields of `s`. -/
def Open (b : Nat) (f : Field) : Prop := b = s → f.isMutable = true

structure Shielded (structs : Set Nat) (h : Heap) : Prop where
  self : ∃ blk₁ blk, h₁.block? s = some blk₁ ∧ h.block? s = some blk ∧
    ∀ f ∈ S.fields, f.isMutable = false → E.slot S blk f = E.slot S blk₁ f
  array : ∀ d, E.Fixed S s h₁ d → d < h.next ∧ h.block? d = h₁.block? d
  known : ∀ b ∈ structs, b < h.next ∧ ¬ E.Fixed S s h₁ b
  mem : s ∈ structs
  struct : ∀ b ∈ structs, ∀ blk, h.block? b = some blk → E.Holds S blk ∧
    ∀ f ∈ S.fields, f.isRepeated = true → Open s b f →
      PointersIn (E.Outside S s h₁ structs) (E.slot S blk f) h

variable {E S s h₁} {structs structs' : Set Nat} {h h' : Heap} {b : Nat} {blk : Block} {f : Field}

namespace Shielded

/-- Nothing but blocks outside has changed. -/
theorem congr (hs : E.Shielded S s h₁ structs h) (hle : h.next ≤ h'.next)
    (heq : ∀ d < h.next, ¬ E.Outside S s h₁ structs d → h'.block? d = h.block? d) :
    E.Shielded S s h₁ structs h' := by
  have hstruct : ∀ b ∈ structs, h'.block? b = h.block? b := fun b hb =>
    heq b (hs.known b hb).1 fun ho => ho.1 hb
  refine ⟨?_, fun d hd => ?_, fun b hb => ?_, hs.mem, fun b hb blk hl => ?_⟩
  · rw [hstruct s hs.mem]
    exact hs.self
  · obtain ⟨hlt, hd₁⟩ := hs.array d hd
    exact ⟨Nat.lt_of_lt_of_le hlt hle, (heq d hlt fun ho => ho.2 hd).trans hd₁⟩
  · exact ⟨Nat.lt_of_lt_of_le (hs.known b hb).1 hle, (hs.known b hb).2⟩
  · rw [hstruct b hb] at hl
    obtain ⟨hholds, hptr⟩ := hs.struct b hb blk hl
    exact ⟨hholds, fun f hf hr ho => (hptr f hf hr ho).mono hle⟩

theorem frame : Heap.Frame (E.Outside S s h₁ structs) (E.Shielded S s h₁ structs) where
  update h d blk hs hd := by
    refine hs.congr (by rw [Heap.next_update]) fun d' _ ho => ?_
    refine Heap.block?_update_ne h ?_ blk
    rintro rfl
    exact ho hd
  kill h d hs hd := by
    refine hs.congr (by rw [Heap.next_kill]) fun d' _ ho => ?_
    refine Heap.block?_kill_ne h ?_
    rintro rfl
    exact ho hd
  push h blk hs := by
    refine hs.congr (by rw [Heap.next_push]; exact Nat.le_succ _) fun d hlt _ => ?_
    exact Heap.block?_push_of_lt hlt blk
  tick h hs := hs.congr (Nat.le_refl _) fun d _ _ => Heap.block?_tick h d
  next h hs := ⟨fun hm => Nat.lt_irrefl _ (hs.known _ hm).1,
    fun hd => Nat.lt_irrefl _ (hs.array _ hd).1⟩

/-- A store to an open field of a struct. -/
theorem put (hs : E.Shielded S s h₁ structs h) (wf : S.WellFormed) (hb : b ∈ structs)
    (hl : h.block? b = some blk) (hf : f ∈ S.fields) (ho : Open s b f) {w : List Cell}
    (hw : w.length = E.layout.storeSize f.type)
    (hptr : f.isRepeated = true → PointersIn (E.Outside S s h₁ structs) w h) :
    E.Shielded S s h₁ structs (h.update b (E.put S blk f w)) := by
  obtain ⟨hholds, hslots⟩ := hs.struct b hb blk hl
  have hself := Heap.block?_update_self hl (E.put S blk f w)
  have hother : ∀ d, d ≠ b → (h.update b (E.put S blk f w)).block? d = h.block? d := fun d hd =>
    Heap.block?_update_ne h hd _
  have hnext := Heap.next_update h b (E.put S blk f w)
  refine ⟨?_, fun d hd => ?_, fun d hd => ?_, hs.mem, fun d hd blk' hl' => ?_⟩
  · obtain ⟨blk₁, sblk, h1, hsl, hsame⟩ := hs.self
    by_cases hbs : b = s
    · subst hbs
      obtain rfl : blk = sblk := Option.some.inj (hl.symm.trans hsl)
      refine ⟨blk₁, _, h1, hself, fun g hg hm => ?_⟩
      have hne : g ≠ f := by
        rintro rfl
        rw [ho rfl] at hm
        cases hm
      rw [slot_put_ne wf hholds hf hg hne hw, hsame g hg hm]
    · exact ⟨blk₁, sblk, h1, (hother s (Ne.symm hbs)).trans hsl, hsame⟩
  · have hne : d ≠ b := by
      rintro rfl
      exact (hs.known d hb).2 hd
    rw [hnext, hother d hne]
    exact hs.array d hd
  · rw [hnext]
    exact hs.known d hd
  · by_cases hdb : d = b
    · subst hdb
      obtain rfl : E.put S blk f w = blk' := Option.some.inj (hself.symm.trans hl')
      refine ⟨holds_put hholds, fun g hg hr hog => ?_⟩
      by_cases hgf : g = f
      · subst hgf
        rw [slot_put_self wf hholds hf hw]
        exact (hptr hr).mono (by rw [hnext])
      · rw [slot_put_ne wf hholds hf hg hgf hw]
        exact (hslots g hg hr hog).mono (by rw [hnext])
    · rw [hother d hdb] at hl'
      obtain ⟨hholds', hslots'⟩ := hs.struct d hd blk' hl'
      exact ⟨hholds', fun g hg hr hog => (hslots' g hg hr hog).mono (by rw [hnext])⟩

/-- Another struct is freed. -/
theorem kill (hs : E.Shielded S s h₁ structs h) (hb : b ∈ structs) (hne : b ≠ s) :
    E.Shielded S s h₁ structs (h.kill b) := by
  have hother : ∀ d, d ≠ b → (h.kill b).block? d = h.block? d := fun d hd =>
    Heap.block?_kill_ne h hd
  have hnext := Heap.next_kill h b
  refine ⟨?_, fun d hd => ?_, fun d hd => ?_, hs.mem, fun d hd blk' hl' => ?_⟩
  · obtain ⟨blk₁, sblk, h1, hsl, hsame⟩ := hs.self
    exact ⟨blk₁, sblk, h1, (hother s (Ne.symm hne)).trans hsl, hsame⟩
  · have hdb : d ≠ b := by
      rintro rfl
      exact (hs.known d hb).2 hd
    rw [hnext, hother d hdb]
    exact hs.array d hd
  · rw [hnext]
    exact hs.known d hd
  · have hdb : d ≠ b := by
      rintro rfl
      rw [Heap.block?_kill_self] at hl'
      cases hl'
    rw [hother d hdb] at hl'
    obtain ⟨hholds', hslots'⟩ := hs.struct d hd blk' hl'
    exact ⟨hholds', fun g hg hr hog => (hslots' g hg hr hog).mono (by rw [hnext])⟩

/-- Fewer structs to pass. -/
theorem anti (hs : E.Shielded S s h₁ structs' h) (hsub : structs ⊆ structs') (hm : s ∈ structs) :
    E.Shielded S s h₁ structs h where
  self := hs.self
  array := hs.array
  known b hb := hs.known b (hsub hb)
  mem := hm
  struct b hb blk hl := by
    obtain ⟨hholds, hslots⟩ := hs.struct b (hsub hb) blk hl
    refine ⟨hholds, fun f hf hr ho => (hslots f hf hr ho).imp fun d _ hd => ?_⟩
    exact ⟨fun hm => hd.1 (hsub hm), hd.2⟩

/-- A block fresh from the allocator becomes a struct. -/
theorem join (hs : E.Shielded S s h₁ structs h)
    (hstruct : E.layout.structSize S.packed S.elements < 2 ^ 64) :
    E.Shielded S s h₁ (insert h.next structs) (h.push (E.newStruct S h)) := by
  have hold : ∀ d < h.next, (h.push (E.newStruct S h)).block? d = h.block? d := fun d hd =>
    Heap.block?_push_of_lt hd _
  have hle : h.next ≤ (h.push (E.newStruct S h)).next := by
    rw [Heap.next_push]
    exact Nat.le_succ _
  have hs' := frame.push h (E.newStruct S h) hs
  refine ⟨hs'.self, hs'.array, ?_, Set.mem_insert_of_mem _ hs.mem, ?_⟩
  · intro b hb
    rcases Set.mem_insert_iff.mp hb with rfl | hb
    · exact ⟨by rw [Heap.next_push]; exact Nat.lt_succ_self _, (frame.next h hs).2⟩
    · exact hs'.known b hb
  · intro b hb blk hl
    rcases Set.mem_insert_iff.mp hb with rfl | hb
    · rw [Heap.block?_push_self] at hl
      obtain rfl := Option.some.inj hl
      refine ⟨?_, fun f _ _ _ => ?_⟩
      · rw [Holds, Allocator.length_fresh, getStructAllocSize, BitVec.toNat_ofNat,
          Nat.mod_eq_of_lt hstruct]
      · exact E.alloc.pointersIn_fresh _ _
          (fun c hc => List.mem_of_mem_drop (List.mem_of_mem_take hc)) _
    · obtain ⟨hholds, hslots⟩ := hs.struct b hb blk (by rwa [hold b (hs.known b hb).1] at hl)
      refine ⟨hholds, fun f hf hr ho => ((hslots f hf hr ho).imp fun d hlt hd => ?_).mono hle⟩
      refine ⟨fun hm => ?_, hd.2⟩
      rcases Set.mem_insert_iff.mp hm with rfl | hm
      · exact Nat.lt_irrefl _ hlt
      · exact hd.1 hm

end Shielded

/-! ## Functions that write to `Self` -/

variable (E) in
/-- Pointer `p` may be stored in an array field. -/
def Storable (Out : Nat → Prop) (p : Ptr) (h : Heap) : Prop :=
  (encodePtr E.layout.pointerSize p).length = E.layout.pointerSize ∧
    PointersIn Out (encodePtr E.layout.pointerSize p) h

namespace Storable

variable {Out : Nat → Prop} {p : Ptr}

theorem mono (h h' : Heap) (hle : h.next ≤ h'.next) (hp : E.Storable Out p h) :
    E.Storable Out p h' := ⟨hp.1, hp.2.mono hle⟩

theorem into (hp : E.Storable Out p h) : p.Into Out := hp.2.into E.layout.pointerSize_pos

theorem of_leadsTo (hp : p.LeadsTo Out h) : E.Storable Out p h := by
  refine ⟨?_, .encodePtr hp _⟩
  rcases hp with rfl | ⟨d, o, rfl, -⟩
  · exact length_encodePtr_null _
  · exact length_encodePtr_loc _ _ _

end Storable

section Self

variable (wf : S.WellFormed) (hb : b ∈ structs) (hf : f ∈ S.fields) (ho : Open s b f)
include wf hb hf ho

theorem store_shielded {P : Heap → Prop} (hP : ∀ h h', h.next ≤ h'.next → P h → P h')
    {w : List Cell} (hw : w.length = E.layout.storeSize f.type)
    (hptr : ∀ h, P h → f.isRepeated = true → PointersIn (E.Outside S s h₁ structs) w h) :
    Triple (fun h => E.Shielded S s h₁ structs h ∧ P h) (store (E.structGEP S (.base b) f) w)
      fun _ h => E.Shielded S s h₁ structs h ∧ P h := by
  intro h a h' ⟨hs, hp⟩ hrun
  obtain ⟨blk, hl⟩ := live_of_store hrun
  rw [store_slot wf hl (hs.struct b hb blk hl).1 hf hw] at hrun
  cases hrun
  exact ⟨hs.put wf hb hl hf ho hw (hptr h hp), hP h _ (by rw [Heap.next_update]) hp⟩

theorem storeScalar_shielded (hr : f.isRepeated = false) (k : Nat) :
    Triple (E.Shielded S s h₁ structs) (E.storeTy f.type (.int k) (E.structGEP S (.base b) f))
      fun _ h => E.Shielded S s h₁ structs h := by
  refine (store_shielded wf hb hf ho (P := fun _ => True) (fun _ _ _ h => h)
    (length_encode_int E _ _) fun h _ hr' => ?_).weaken (fun _ hs => ⟨hs, trivial⟩) fun _ _ h => h.1
  rw [hr] at hr'
  cases hr'

variable (hr : f.isRepeated = true)
include hr

theorem loadArray_shielded :
    Triple (E.Shielded S s h₁ structs) (E.loadTy f.type (E.structGEP S (.base b) f)) fun v h =>
      E.Shielded S s h₁ structs h ∧ E.Storable (E.Outside S s h₁ structs) v.asPtr h := by
  intro h v h' hs hrun
  obtain ⟨cs, h₂, hload, -⟩ := bind_eq_ok hrun
  obtain ⟨blk, hl⟩ := live_of_load hload
  obtain ⟨hholds, hslots⟩ := hs.struct b hb blk hl
  rw [loadTy_slot wf hl hholds hf] at hrun
  cases hrun
  have hlen : (E.slot S blk f).length = E.layout.storeSize f.type :=
    length_slice (fieldOffset_lt wf hholds hf)
  have hptr := hslots f hf hr ho
  rw [(wf.array_spec hf hr).1] at hlen ⊢
  rw [DataLayout.storeSize_ptr] at hlen
  refine ⟨hs, ?_⟩
  show E.Storable _ (decodePtr E.layout.pointerSize (E.slot S blk f)) h
  unfold Storable
  rw [encodePtr_decodePtr]
  exact ⟨hlen, hptr⟩

theorem storeCount_shielded_and {P : Heap → Prop} (hP : ∀ h h', h.next ≤ h'.next → P h → P h')
    (n : I64) :
    Triple (fun h => E.Shielded S s h₁ structs h ∧ P h)
      (E.storeI64 n (E.structGEP S (.base b) (S.countOf f)))
      fun _ h => E.Shielded S s h₁ structs h ∧ P h := by
  have hc := wf.countOf_mem hf hr
  have hopen : Open s b (S.countOf f) := fun he =>
    (wf.array_spec hf hr).2.2.2.2.2.2.2.2.1.trans (ho he)
  refine store_shielded wf hb hc hopen hP (length_count_slot wf hf hr n) fun _ _ hr' => ?_
  rw [(wf.count_spec hc (wf.array_spec hf hr).2.2.2.2.2.2.1).2.2.1] at hr'
  cases hr'

theorem storeCount_shielded (n : I64) :
    Triple (E.Shielded S s h₁ structs) (E.storeI64 n (E.structGEP S (.base b) (S.countOf f)))
      fun _ h => E.Shielded S s h₁ structs h :=
  (storeCount_shielded_and wf hb hf ho hr (P := fun _ => True) (fun _ _ _ h => h) n).weaken
    (fun _ hs => ⟨hs, trivial⟩) fun _ _ hs => hs.1

theorem storePtr_shielded (p : Ptr) :
    Triple (fun h => E.Shielded S s h₁ structs h ∧ E.Storable (E.Outside S s h₁ structs) p h)
      (E.storeTy f.type (.ptr p) (E.structGEP S (.base b) f))
      fun _ h => E.Shielded S s h₁ structs h := by
  refine .given (fun _ hs => hs.2.1) fun hlen => ?_
  refine (store_shielded wf hb hf ho Storable.mono ?_ fun h hp _ => hp.2).post fun _ _ h => h.1
  rw [(wf.array_spec hf hr).1, DataLayout.storeSize_ptr]
  exact hlen

/-! ### Setters -/

theorem sizeIsRight_shielded {mem : Ptr} (src : Ptr) (n : I64) :
    Triple (fun h => E.Shielded S s h₁ structs h ∧ E.Storable (E.Outside S s h₁ structs) mem h)
      (E.sizeIsRight S f (S.countOf f) (.base b) src n mem)
      fun _ h => E.Shielded S s h₁ structs h := by
  unfold sizeIsRight
  refine .given (fun _ hs => hs.2.into) fun hmem => ?_
  refine .bind (storeCount_shielded_and wf hb hf ho hr Storable.mono n) fun _ => ?_
  refine .bind (E.getFieldAllocSize_triple S f _) fun size => ?_
  refine .bind ((Shielded.frame.and Storable.mono).memcpy hmem src size) fun _ => ?_
  exact .bind (storePtr_shielded wf hb hf ho hr mem) fun _ => .pure fun _ hs => hs

theorem setRepeated_shielded (src : Ptr) (n : I64) :
    Triple (E.Shielded S s h₁ structs) (E.setRepeated S f (S.countOf f) (.base b) src n)
      fun _ h => E.Shielded S s h₁ structs h := by
  have hdone : ∀ q : Ptr, Triple
      (fun h => E.Shielded S s h₁ structs h ∧ q.LeadsTo (E.Outside S s h₁ structs) h)
      (insertNullCheck [q] false (E.sizeIsRight S f (S.countOf f) (.base b) src n q))
      fun _ h => E.Shielded S s h₁ structs h := fun q =>
    insertNullCheck_triple _ ((sizeIsRight_shielded wf hb hf ho hr src n).weaken
      (fun _ hs => ⟨hs.1, .of_leadsTo hs.2⟩) fun _ _ hs => hs) fun _ hs => hs.1
  unfold setRepeated
  refine .bind (loadArray_shielded wf hb hf ho hr) fun v => .ite (fun _ => ?_) fun _ => ?_
  · refine .bind (E.loadI64_triple _) fun count => .ite (fun _ => ?_) fun _ => ?_
    · exact sizeIsRight_shielded wf hb hf ho hr src n
    · refine .given (fun _ hs => hs.2.into) fun hinto => ?_
      refine Triple.weaken (I := E.Shielded S s h₁ structs) ?_ (fun _ hs => hs.1) fun _ _ hs => hs
      refine .bind (storeCount_shielded wf hb hf ho hr n) fun _ => ?_
      refine .bind (E.getFieldAllocSize_triple S f _) fun size => ?_
      exact .bind (Shielded.frame.realloc hinto size) hdone
  · refine Triple.weaken (I := E.Shielded S s h₁ structs) ?_ (fun _ hs => hs.1) fun _ _ hs => hs
    refine .bind (storeCount_shielded wf hb hf ho hr n) fun _ => ?_
    refine .bind (E.getFieldAllocSize_triple S f _) fun size => ?_
    exact .bind (Shielded.frame.malloc size) hdone

/-- The count setter of array `f`. -/
theorem setCount_shielded (n : I64) :
    Triple (E.Shielded S s h₁ structs) (E.setCount S (S.countOf f) f (.base b) n)
      fun _ h => E.Shielded S s h₁ structs h := by
  unfold setCount
  refine .ite (fun _ => .pure fun _ hs => hs) fun _ => .bind (E.loadI64_triple _) fun old => ?_
  refine .bind (storeCount_shielded wf hb hf ho hr n) fun _ => ?_
  refine .bind (loadArray_shielded wf hb hf ho hr) fun v => ?_
  refine .given (fun _ hs => hs.2.into) fun hinto => ?_
  refine Triple.weaken (I := E.Shielded S s h₁ structs) ?_ (fun _ hs => hs.1) fun _ _ hs => hs
  refine .bind (E.getFieldAllocSize_triple S f _) fun size => ?_
  refine .bind (Shielded.frame.realloc hinto size) fun q => ?_
  refine Triple.weaken (I := fun h => E.Shielded S s h₁ structs h ∧
    E.Storable (E.Outside S s h₁ structs) q h) ?_ (fun _ hs => ⟨hs.1, .of_leadsTo hs.2⟩)
    fun _ _ hs => hs
  refine .bind (storeCount_shielded_and wf hb hf ho hr Storable.mono old) fun _ => ?_
  refine insertNullCheck_triple _ ?_ fun _ hs => hs.1
  refine .bind (storePtr_shielded wf hb hf ho hr q) fun _ => ?_
  exact .bind (storeCount_shielded wf hb hf ho hr n) fun _ => .pure fun _ hs => hs

theorem getItemSetter_shielded (idx : I64) (v : Val) :
    Triple (E.Shielded S s h₁ structs) (E.getItemSetter S f (.base b) idx v)
      fun _ h => E.Shielded S s h₁ structs h := by
  unfold getItemSetter
  split
  · refine insertNullCheck_triple _ ?_ fun _ hs => hs
    refine .bind (loadArray_shielded wf hb hf ho hr) fun p => ?_
    refine .given (fun _ hs => hs.2.into) fun hinto => ?_
    refine Triple.weaken (I := E.Shielded S s h₁ structs) ?_ (fun _ hs => hs.1) fun _ _ hs => hs
    refine .bind (E.loadI64_triple _) fun count => .ite (fun _ => ?_) fun _ => .pure fun _ hs => hs
    exact .bind (Shielded.frame.storeTy E (hinto.add _) _ v) fun _ => .pure fun _ hs => hs
  · exact .fault _

end Self

/-- The setters that are generated: `f` is mutable. -/
theorem getSetter_shielded (flat : S.IsFlat) (hb : b ∈ structs) (hf : f ∈ S.fields)
    (hm : f.isMutable = true) {v : Val} (hv : f.isRepeated = false → ∃ k, v = .int k) (n : I64) :
    Triple (E.Shielded S s h₁ structs) (E.getSetter S f (.base b) v n)
      fun _ h => E.Shielded S s h₁ structs h := by
  have wf := flat.toWellFormed
  unfold getSetter
  rw [insertNullCheck_loc, if_neg (by simp [flat.isStruct f hf])]
  refine .ite (fun hr => ?_) fun hr => .ite (fun hc => ?_) fun hc => ?_
  · rw [(wf.array_spec hf hr).2.2.2.2.1]
    exact setRepeated_shielded wf hb hf (fun _ => hm) hr _ n
  · -- the count of a mutable array is mutable, so the array is
    obtain ⟨hd, ha, har, hco⟩ := wf.arrayOf_spec hf hc
    have ham : (S.arrayOf f).isMutable = true := by
      rw [← (wf.array_spec ha har).2.2.2.2.2.2.2.2.1, hco]
      exact hm
    rw [hd]
    have hset : Triple (E.Shielded S s h₁ structs)
        (E.setCount S (S.countOf (S.arrayOf f)) (S.arrayOf f) (.base b)
          (BitVec.ofNat 64 v.asInt)) fun _ h => E.Shielded S s h₁ structs h :=
      setCount_shielded wf hb ha (fun _ => ham) har _
    rwa [hco] at hset
  · have hr' : f.isRepeated = false := by simpa using hr
    obtain ⟨k, rfl⟩ := hv hr'
    refine .bind (storeScalar_shielded wf hb hf (fun _ => hm) hr' k) fun _ => ?_
    exact .pure fun _ hs => hs

/-- An item setter out of range. -/
theorem getItemSetter_out_of_range (wf : S.WellFormed) (hl : h.block? b = some blk)
    (hholds : E.Holds S blk) (hf : f ∈ S.fields) (hr : f.isRepeated = true) {idx : I64}
    (hidx : ¬ idx < E.countAt S blk (S.countOf f)) (v : Val) :
    E.getItemSetter S f (.base b) idx v h = .ok (false, h) := by
  obtain ⟨ht, -, -, -, hd, hcm, -⟩ := wf.array_spec hf hr
  have hpt := wf.pointee hf hr
  simp only [getItemSetter, hpt, hd]
  rw [insertNullCheck_loc, bind_of_ok (loadTy_slot wf hl hholds hf),
    bind_of_ok (loadI64_slot wf hl hholds hcm (wf.countOf_type hf hr)), if_neg hidx, pure_apply]

/-! ### The destructor -/

theorem destroyFields_shielded (flat : S.IsFlat) (hb : b ∈ structs) (hne : b ≠ s) :
    ∀ fs : List Field, (∀ g ∈ fs, g ∈ S.fields) →
      Triple (E.Shielded S s h₁ structs) (E.destroyFields S (.base b) fs)
        fun _ h => E.Shielded S s h₁ structs h
  | [], _ => .pure fun _ hs => hs
  | f :: fs, hmem => by
    have wf := flat.toWellFormed
    have hf := hmem f List.mem_cons_self
    unfold destroyFields destroyField
    refine .bind (J := fun _ h => E.Shielded S s h₁ structs h) (.ite (fun hp => ?_) fun _ =>
      .pure fun _ hs => hs) fun _ => destroyFields_shielded flat hb hne fs fun g hg =>
        hmem g (List.mem_cons_of_mem _ hg)
    have hr : f.isRepeated = true := by
      by_contra hr
      rw [not_pointer wf hf (flat.isStruct f hf) (by simpa using hr)] at hp
      cases hp
    refine .bind (loadArray_shielded wf hb hf (fun he => absurd he hne) hr) fun v => ?_
    refine .given (fun _ hs => hs.2.into) fun hinto => ?_
    exact (Shielded.frame.free hinto).weaken (fun _ hs => hs.1) fun _ _ hs => hs

theorem getDestructor_shielded (flat : S.IsFlat) (hb : b ∈ structs) (hne : b ≠ s) :
    Triple (E.Shielded S s h₁ structs) (E.getDestructor S (.base b))
      fun _ h => E.Shielded S s h₁ structs h := by
  unfold getDestructor
  refine .bind (destroyFields_shielded flat hb hne S.fields fun _ hg => hg) fun _ => ?_
  intro h a h' hs hrun
  simp only [free] at hrun
  split at hrun
  · rw [if_pos trivial] at hrun
    cases hrun
    exact hs.kill hb hne
  · cases hrun

/-- `destroy_S(NULL)` faults at the first array or does nothing. -/
theorem getDestructor_null (I : Heap → Prop) :
    Triple I (E.getDestructor S .null) fun _ h => I h := by
  have hfields : ∀ fs : List Field, Triple I (E.destroyFields S .null fs) fun _ h => I h := by
    intro fs
    induction fs with
    | nil => exact .pure fun _ hh => hh
    | cons f fs ih =>
      unfold destroyFields destroyField
      refine .bind (J := fun _ h => I h) (.ite (fun hp => ?_) fun _ => .pure fun _ hh => hh)
        fun _ => ih
      intro h a h' _ hrun
      obtain ⟨v, h₂, hload, -⟩ := bind_eq_ok hrun
      obtain ⟨cs, h₃, hload, -⟩ := bind_eq_ok hload
      have hnone : h.read (E.structGEP S .null f) (E.layout.storeSize f.type) = none := by
        rw [structGEP, Ptr.add]
        split
        · rfl
        · rfl
      simp only [load, hnone] at hload
      cases hload
  exact .bind (hfields S.fields) fun _ h _ h' hh hrun => by cases hrun; exact hh

/-! ### New structs -/

/-- The structs when a call has returned `r`. -/
def withResult (structs : Set Nat) (r : Ptr) : Set Nat := {b | b ∈ structs ∨ r = .base b}

theorem withResult_null : withResult structs .null = structs := by
  ext b
  exact ⟨fun h => h.resolve_right nofun, Or.inl⟩

theorem withResult_base : withResult structs (.base b) = insert b structs := by
  ext d
  refine ⟨fun h => h.elim Or.inr fun h => Or.inl (Ptr.loc.inj h).1.symm, fun h => ?_⟩
  exact h.elim (fun h => Or.inr (by rw [h])) Or.inl

/-- A function that allocates a struct and fills it in. -/
theorem allocStruct_shielded (hstruct : E.layout.structSize S.packed S.elements < 2 ^ 64)
    {k : Ptr → Prog Ptr}
    (hk : ∀ b, b ≠ s → Triple (E.Shielded S s h₁ (insert b structs)) (k (.base b)) fun r h =>
      E.Shielded S s h₁ (insert b structs) h ∧ (r = .null ∨ r = .base b)) :
    Triple (E.Shielded S s h₁ structs)
      (malloc E.alloc (E.getStructAllocSize S) >>= fun q => insertNullCheck [q] .null (k q))
      fun r h => E.Shielded S s h₁ (withResult structs r) h := by
  intro h r h' hs hrun
  cases hsuc : E.alloc.succeeds h.calls (E.getStructAllocSize S).toNat with
  | false =>
    rw [bind_of_ok (malloc_null hsuc), insertNullCheck_null] at hrun
    cases hrun
    rw [withResult_null]
    exact Shielded.frame.tick h hs
  | true =>
    rw [bind_of_ok (malloc_ok hsuc), insertNullCheck_loc] at hrun
    have hne : h.next ≠ s := fun he => Nat.lt_irrefl _ (he ▸ (hs.known s hs.mem).1)
    obtain ⟨hs', rfl | rfl⟩ := hk h.next hne _ _ _ (hs.join hstruct) hrun
    · rw [withResult_null]
      exact hs'.anti (Set.subset_insert _ _) hs.mem
    · rw [withResult_base]
      exact hs'

section Fill

variable (flat : S.IsFlat) (hb : b ∈ structs) (hne : b ≠ s)
include flat hb hne

theorem initField_shielded (hf : f ∈ S.fields) {arg : Val}
    (harg : f.isMutable = false → f.isRepeated = false → ∃ k, arg = .int k) {Next : Prog Ptr}
    {J : Ptr → Heap → Prop} (hnext : Triple (E.Shielded S s h₁ structs) Next J)
    (hnull : ∀ h, E.Shielded S s h₁ structs h → J .null h) :
    Triple (E.Shielded S s h₁ structs) (E.initField S f (.base b) arg Next) J := by
  have wf := flat.toWellFormed
  have ho : Open s b f := fun he => absurd he hne
  unfold initField
  cases hr : f.isRepeated with
  | false =>
    have hnp := not_pointer wf hf (flat.isStruct f hf) hr
    refine .ite (fun _ => ?_) fun hm => ?_
    · rw [zero, hnp]
      exact .bind (storeScalar_shielded wf hb hf ho hr 0) fun _ => hnext
    · obtain ⟨k, rfl⟩ := harg (by simpa using hm) hr
      rw [hnp, if_neg Bool.false_ne_true]
      exact .bind (storeScalar_shielded wf hb hf ho hr k) fun _ => hnext
  | true =>
    have hp : f.type.isPointerTy = true := by rw [(wf.array_spec hf hr).1]; rfl
    refine .ite (fun _ => ?_) fun _ => ?_
    · rw [zero, hp, if_pos rfl]
      refine .bind ((storePtr_shielded wf hb hf ho hr .null).weaken (fun h hs => ⟨hs, ?_⟩)
        fun _ _ hs => hs) fun _ => hnext
      exact .of_leadsTo (Ptr.leadsTo_null h)
    · rw [if_pos hp]
      refine .bind (E.getFieldAllocSize_triple S f _) fun size => ?_
      refine .bind (Shielded.frame.malloc size) fun q => .given (fun _ hs => hs.2.into) fun hq => ?_
      refine insertNullCheck_triple _ ?_ fun h hs => hnull h hs.1
      refine .bind ((Shielded.frame.and fun _ _ hle hq => hq.mono hle).memcpy hq _ size)
        fun _ => ?_
      refine .bind ((storePtr_shielded wf hb hf ho hr q).weaken
        (fun h hs => ⟨hs.1, .of_leadsTo hs.2⟩) fun _ _ hs => hs) fun _ => hnext

theorem initFields_shielded {arg : Field → Val} (harg : ScalarArgs S arg) :
    ∀ fs : List Field, (∀ g ∈ fs, g ∈ S.fields) → Triple (E.Shielded S s h₁ structs)
      (E.initFields S (.base b) fs ((fs.filter (! ·.isMutable)).map arg)) fun r h =>
        E.Shielded S s h₁ structs h ∧ (r = .null ∨ r = .base b)
  | [], _ => .pure fun _ hs => ⟨hs, Or.inr rfl⟩
  | f :: fs, hmem => by
    have hf := hmem f List.mem_cons_self
    rw [initFields_cons]
    refine initField_shielded flat hb hne hf (fun hm hr => ?_)
      (initFields_shielded harg fs fun g hg => hmem g (List.mem_cons_of_mem _ hg))
      fun _ hs => ⟨hs, Or.inl rfl⟩
    rw [hm, if_neg Bool.false_ne_true]
    exact harg f hf hm hr

theorem fieldDeserializer_shielded (hf : f ∈ S.fields) (InBuf : Ptr) :
    Triple (E.Shielded S s h₁ structs) (E.fieldDeserializer S f (.base b) InBuf)
      fun _ h => E.Shielded S s h₁ structs h := by
  have wf := flat.toWellFormed
  have ho : Open s b f := fun he => absurd he hne
  unfold fieldDeserializer
  rw [insertNullCheck_loc, if_neg (by simp [flat.isStruct f hf])]
  cases hr : f.isRepeated with
  | false =>
    have hnp := not_pointer wf hf (flat.isStruct f hf) hr
    rw [hnp, if_neg Bool.false_ne_true]
    refine .bind (E.loadScalar_triple hnp _) fun v => .given (fun _ hs => hs.2) ?_
    rintro ⟨k, rfl⟩
    refine .bind (E.swapScalar_triple f.type k) fun w => .given (fun _ hs => hs.2) ?_
    rintro ⟨j, rfl⟩
    refine Triple.weaken (I := E.Shielded S s h₁ structs) ?_ (fun _ hs => hs.1.1) fun _ _ hs => hs
    refine .bind (E.getFieldAllocSize_triple S f _) fun _ => ?_
    exact .bind (storeScalar_shielded wf hb hf ho hr j) fun _ => .pure fun _ hs => hs
  | true =>
    obtain ⟨ht, -, -, -, hd, -⟩ := wf.array_spec hf hr
    have hp : f.type.isPointerTy = true := by rw [ht]; rfl
    have hpt := wf.pointee hf hr
    rw [if_pos hp, hpt, hd]
    refine .bind (E.loadI64_triple _) fun swapped => ?_
    refine .bind (storeCount_shielded wf hb hf ho hr _) fun _ => ?_
    refine .bind (E.getFieldAllocSize_triple S _ _) fun outSize => ?_
    refine .bind (E.getFieldAllocSize_triple S f _) fun size => ?_
    refine .bind (Shielded.frame.malloc size) fun q => .given (fun _ hs => hs.2.into) fun hq => ?_
    refine insertNullCheck_triple _ ?_ fun _ hs => hs.1
    have hframe : Heap.Frame (E.Outside S s h₁ structs) fun h =>
        E.Shielded S s h₁ structs h ∧ q.LeadsTo (E.Outside S s h₁ structs) h :=
      Shielded.frame.and fun _ _ hle hq => hq.mono hle
    refine .bind (hframe.memcpy hq _ size) fun _ => ?_
    refine .bind (hframe.swapArrayBytes E hq _ _) fun _ => ?_
    refine .bind ((storePtr_shielded wf hb hf ho hr q).weaken
      (fun h hs => ⟨hs.1, .of_leadsTo hs.2⟩) fun _ _ hs => hs) fun _ => ?_
    exact .pure fun _ hs => hs

theorem deserializeEntries_shielded (hfun : Resolves E S) (SerializedSelf : Ptr) :
    ∀ (fs : List Field) (idx : I64), (∀ g ∈ fs, g ∈ S.fields) →
      Triple (E.Shielded S s h₁ structs) (E.deserializeEntries S SerializedSelf (.base b) fs idx)
        fun _ h => E.Shielded S s h₁ structs h
  | [], idx, _ => .pure fun _ hs => hs
  | f :: fs, idx, hmem => by
    have hf := hmem f List.mem_cons_self
    have hmem' : ∀ g ∈ fs, g ∈ S.fields := fun g hg => hmem g (List.mem_cons_of_mem _ hg)
    unfold deserializeEntries
    refine .ite (fun _ => deserializeEntries_shielded hfun SerializedSelf fs idx hmem') fun hc => ?_
    rw [hfun.deserializer hf (by simpa using hc)]
    refine .bind (fieldDeserializer_shielded flat hb hne hf _) fun n => ?_
    exact deserializeEntries_shielded hfun SerializedSelf fs _ hmem'

end Fill

section Create

variable (flat : S.IsFlat) (hstruct : E.layout.structSize S.packed S.elements < 2 ^ 64)
include flat hstruct

theorem getConstructor_shielded {arg : Field → Val} (harg : ScalarArgs S arg) :
    Triple (E.Shielded S s h₁ structs)
      (E.getConstructor S ((S.fields.filter (! ·.isMutable)).map arg))
      fun r h => E.Shielded S s h₁ (withResult structs r) h :=
  allocStruct_shielded hstruct fun b hne =>
    initFields_shielded flat (Set.mem_insert b structs) hne harg S.fields fun _ hg => hg

theorem getDeserializer_shielded (hfun : Resolves E S) (SerializedSelf : Ptr) :
    Triple (E.Shielded S s h₁ structs) (E.getDeserializer S SerializedSelf)
      fun r h => E.Shielded S s h₁ (withResult structs r) h := by
  unfold getDeserializer
  refine .bind (E.loadI64_triple _) fun header => insertNullCheck_triple _ ?_ fun h hs => ?_
  · refine allocStruct_shielded hstruct fun b hne => ?_
    have hb := Set.mem_insert b structs
    refine .bind (deserializeEntries_shielded flat hb hne hfun _ S.fields 8 fun _ hg => hg)
      fun _ => .bind (E.sumAllocSizes_triple S _ _ _) fun size => ?_
    exact .ite (fun _ => .pure fun _ hs => ⟨hs, Or.inr rfl⟩) fun _ =>
      .pure fun _ hs => ⟨hs, Or.inl rfl⟩
  · rw [withResult_null]
    exact hs

end Create

end Env

end Tyr
