import Tyr.Llvm.Module
import Tyr.Lib.Cfg

/-
  The generators get through, and what they leave is a control-flow graph.

  For each generator: with its callees declared it completes all the blocks it creates, by the
  rules of `Tyr.Lib.Cfg`. `visit_wellFormed_iff`: the pass gets through a module of structs exactly
  when no field is a struct and, in a big-endian layout, no array has elements that are pointers;
  and then the code of every function is well-formed.
-/

namespace Tyr

/-- What is no pointer and no array is a scalar. -/
theorem Struct.WellFormed.scalar_of_plain {S : Struct} {f : Field} (wf : S.WellFormed)
    (hf : f ∈ S.fields) (hs : f.isStruct = false) (hr : f.isRepeated = false) :
    f.type.IsScalar := by
  cases hc : f.isCount with
  | true =>
    rw [(wf.count_spec hf hc).1]
    decide
  | false =>
    obtain ⟨hptr, ht⟩ := wf.plain_spec hf hr hc
    rw [hs] at hptr
    cases hty : f.type with
    | ptr t => rw [hty] at hptr; cases hptr
    | int n => rwa [hty] at ht
    | float => trivial
    | double => trivial
    | struct i n => rwa [hty] at ht

namespace Llvm

open Ssa Builder

/-- The builtins are declared. -/
structure Context.Declares (C : Context) : Prop where
  malloc : C.hasFunction C.malloc = true
  realloc : C.hasFunction C.realloc = true
  free : C.hasFunction C.free = true

/-! ## What generators share -/

section Parts

variable {C : Context} {S : Struct} {f : Field} {j : Option Join} {Λ : List Nat} {b l : Nat}
  {p x : Value} {ps : List Value} {fail : Value}

theorem completes_createCall {name : String} {args : List Value} {k : Value → IRBuilder Unit}
    (h : C.hasFunction name = true) (hk : ∀ r, Completes j Λ (some b) (k r)) :
    Completes j Λ (some b) (createCall C name args >>= k) := by
  unfold createCall
  rw [if_pos h]
  exact Completes.emit hk

theorem completes_allocSize (wf : S.WellFormed) (hf : f ∈ S.fields) {k : Value → IRBuilder Unit}
    (hk : ∀ r, Completes j Λ (some b) (k r)) :
    Completes j Λ (some b) (getFieldAllocSize C S f p >>= k) := by
  unfold getFieldAllocSize
  split
  · next hr =>
    obtain ⟨-, -, -, -, hc, -⟩ := wf.array_spec hf hr
    rw [wf.pointee hf hr, hc]
    simp only [Builder.bind_assoc]
    exact Completes.emit fun _ => Completes.emit fun _ => Completes.emit hk
  · exact hk _

theorem completes_orNotNull {k : Value → IRBuilder Unit}
    (hk : ∀ r, Completes j Λ (some b) (k r)) :
    Completes j Λ (some b) (orNotNull x ps >>= k) := by
  induction ps generalizing x with
  | nil => exact hk x
  | cons p ps ih =>
    unfold orNotNull
    simp only [Builder.bind_assoc]
    exact Completes.emit fun _ => Completes.emit fun _ => ih

/-- A null check that goes on in a new block. -/
theorem completes_insertNullCheck_none {k : Nat → IRBuilder Unit}
    (hk : ∀ l, Completes none (l :: Λ) none (k l)) :
    Completes none Λ (some b) (insertNullCheck (p :: ps) fail none >>= k) := by
  unfold insertNullCheck
  simp only [Builder.bind_assoc]
  refine Completes.emit fun _ => completes_orNotNull fun _ => ?_
  refine Completes.createBlock fun IsNull _ _ _ => Completes.createBlock fun IsNotNull _ _ _ => ?_
  refine Completes.condBr (by simp) (by simp) ?_
  exact Completes.enter (List.Perm.swap _ _ _) (Completes.ret (hk IsNotNull))

/-- A null check followed by the code for its success. -/
theorem completes_insertNullCheck {k : Unit → IRBuilder Unit}
    (hk : ∀ b', Completes none Λ (some b') (k ())) :
    Completes none Λ (some b)
      (insertNullCheck (p :: ps) fail none >>= fun l => setInsertPoint l >>= k) :=
  completes_insertNullCheck_none fun l =>
    Completes.enter (List.Perm.refl _) (hk l)

/-- A null check that goes on in a block that is there. -/
theorem completes_insertNullCheck_some {k : Nat → IRBuilder Unit} (hl : l ∈ Λ)
    (hk : Completes none Λ none (k l)) :
    Completes none Λ (some b) (insertNullCheck (p :: ps) fail (some l) >>= k) := by
  unfold insertNullCheck
  simp only [Builder.bind_assoc, Builder.pure_bind]
  refine Completes.emit fun _ => completes_orNotNull fun _ => ?_
  refine Completes.createBlock fun IsNull _ _ _ => ?_
  refine Completes.condBr (List.mem_cons_of_mem _ hl) List.mem_cons_self ?_
  exact Completes.enter (List.Perm.refl _) (Completes.ret hk)

/-- The new block will begin with a PHI. -/
theorem completes_insertNullCheck_join {k : Nat → IRBuilder Unit}
    (hk : ∀ l, l ∉ Λ → Completes (some ⟨l, [b], none⟩) (l :: Λ) none (k l)) :
    Completes none Λ (some b) (insertNullCheck (p :: ps) fail none >>= k) := by
  unfold insertNullCheck
  simp only [Builder.bind_assoc]
  refine Completes.emit fun _ => completes_orNotNull fun _ => ?_
  refine Completes.createBlock fun IsNull _ _ _ => Completes.createJoin fun l _ hl _ => ?_
  obtain ⟨hne, hl⟩ := not_or.mp (List.mem_cons.not.mp hl)
  refine Completes.branch rfl (by simp [Inst.targets]) (fun t ht => Or.inl ?_) ?_
  · rcases List.mem_pair.mp ht with rfl | rfl <;> simp
  · exact Completes.setInsertPoint (List.Perm.swap _ _ _) (by simpa using hne)
      (Completes.ret (hk l hl))

/-- The block that is there will begin with a PHI. -/
theorem completes_insertNullCheck_some_join {preds : List Nat} {k : Nat → IRBuilder Unit}
    (hl : l ∈ Λ) (hk : Completes (some ⟨l, preds ++ [b], none⟩) Λ none (k l)) :
    Completes (some ⟨l, preds, none⟩) Λ (some b)
      (insertNullCheck (p :: ps) fail (some l) >>= k) := by
  unfold insertNullCheck
  simp only [Builder.bind_assoc, Builder.pure_bind]
  refine Completes.emit fun _ => completes_orNotNull fun _ => ?_
  refine Completes.createBlock fun IsNull hnew _ _ => ?_
  have hne : l ≠ IsNull := fun he => hnew (he ▸ hl)
  refine Completes.branch rfl (by simp [Inst.targets]) (fun t ht => Or.inl ?_) ?_
  · rcases List.mem_pair.mp ht with rfl | rfl
    · exact List.mem_cons_of_mem _ hl
    · exact List.mem_cons_self
  · exact Completes.setInsertPoint (List.Perm.refl _) (by simpa using hne) (Completes.ret hk)

theorem completes_swapBytes {t : Ty} (ht : C.layout.bigEndian = true → t.IsScalar)
    {k : Value → IRBuilder Unit} (hk : ∀ r, Completes j Λ (some b) (k r)) :
    Completes j Λ (some b) (swapBytes C t x >>= k) := by
  unfold swapBytes
  split
  · exact hk x
  · next hbig =>
    have hscalar := ht (by simpa using hbig)
    cases t with
    | int n =>
      dsimp only
      split
      · exact hk x
      · exact Completes.emit hk
    | float => exact Completes.emit hk
    | double => exact Completes.emit hk
    | struct i n => exact hscalar.elim
    | ptr t => exact hscalar.elim

/-- The loop's block branches back to itself. -/
theorem completes_swapLoop {t : Ty} {bits : Nat} {k : Unit → IRBuilder Unit}
    (hk : ∀ b', Completes none Λ (some b') (k ())) :
    Completes none Λ (some b) (swapLoop t bits p x >>= k) := by
  unfold swapLoop
  simp only [Builder.bind_assoc]
  refine Completes.getInsertBlock (Completes.createJoin fun loop hpos _ hb => ?_)
  refine Completes.createBlock fun next _ _ _ => ?_
  have hprev : loop ≠ b := fun he => hb (he ▸ rfl)
  refine Completes.branch rfl (by simp [Inst.targets]) (fun t ht => Or.inl ?_) ?_
  · rw [List.mem_singleton.mp ht]
    simp
  · refine Completes.enter_phi (List.Perm.swap _ _ _) fun li => ?_
    refine Completes.addIncoming List.not_mem_nil ?_
    refine Completes.emit fun _ => Completes.emit fun _ => Completes.emit fun _ => ?_
    refine Completes.emit fun _ => Completes.emit fun _ => Completes.emit fun _ => ?_
    refine Completes.branch rfl (by simp [Inst.targets]) (fun t ht => ?_) ?_
    · rcases List.mem_pair.mp ht with rfl | rfl
      · exact Or.inl List.mem_cons_self
      · exact Or.inr ⟨hpos, rfl, rfl⟩
    · refine Completes.addIncoming (by simpa using hprev) (Completes.merge ?_)
      exact Completes.enter (List.Perm.refl _) (hk next)

theorem completes_swapArrayBytes {t : Ty} (ht : C.layout.bigEndian = true → t.IsScalar)
    {k : Unit → IRBuilder Unit} (hk : ∀ b', Completes none Λ (some b') (k ())) :
    Completes none Λ (some b) (swapArrayBytes C t p x >>= k) := by
  unfold swapArrayBytes
  split
  · exact hk b
  · next hbig =>
    have hscalar := ht (by simpa using hbig)
    cases t with
    | int n =>
      dsimp only
      split
      · exact hk b
      · exact completes_swapLoop hk
    | float => exact completes_swapLoop hk
    | double => exact completes_swapLoop hk
    | struct i n => exact hscalar.elim
    | ptr t => exact hscalar.elim

end Parts

/-! ## Functions of a field -/

section Field

variable {C : Context} {S : Struct} {f : Field} {b : Nat} (hC : C.Declares) (wf : S.WellFormed)
  (hf : f ∈ S.fields) (hs : f.isStruct = false)
include wf hf

include hC hs in
theorem completes_getGetter : Completes none [] (some b) (getGetter C S f) := by
  unfold getGetter
  refine completes_insertNullCheck fun _ => Completes.emit fun _ => Completes.emit fun _ => ?_
  rw [hs, Bool.false_and, if_neg Bool.false_ne_true]
  split
  · refine completes_allocSize wf hf fun _ => completes_createCall hC.malloc fun _ => ?_
    refine completes_insertNullCheck fun _ => Completes.emit fun _ => Completes.emit fun _ => ?_
    exact Completes.ret_done
  · exact Completes.emit fun _ => Completes.ret_done

theorem completes_getItemGetter (hr : f.isRepeated = true) :
    Completes none [] (some b) (getItemGetter S f) := by
  obtain ⟨-, -, -, -, hc, -⟩ := wf.array_spec hf hr
  unfold getItemGetter
  rw [wf.pointee hf hr, hc]
  refine completes_insertNullCheck fun _ => Completes.emit fun _ => Completes.emit fun _ => ?_
  refine Completes.emit fun _ => Completes.emit fun _ => ?_
  refine Completes.createBlock fun OutOfBounds _ _ _ => ?_
  refine Completes.createBlock fun InBounds _ _ _ => ?_
  refine Completes.emit fun _ => Completes.condBr (by simp) (by simp) ?_
  refine Completes.enter (List.Perm.swap _ _ _) (Completes.ret ?_)
  refine Completes.enter (List.Perm.refl _) (Completes.emit fun _ => ?_)
  exact Completes.emit fun _ => Completes.emit fun _ => Completes.ret_done

theorem completes_getItemSetter (hr : f.isRepeated = true) :
    Completes none [] (some b) (getItemSetter S f) := by
  obtain ⟨-, -, -, -, hc, -⟩ := wf.array_spec hf hr
  unfold getItemSetter
  rw [wf.pointee hf hr, hc]
  refine completes_insertNullCheck fun _ => Completes.emit fun _ => Completes.emit fun _ => ?_
  refine Completes.emit fun _ => Completes.emit fun _ => ?_
  refine Completes.createBlock fun OutOfBounds _ _ _ => ?_
  refine Completes.createBlock fun InBounds _ _ _ => ?_
  refine Completes.emit fun _ => Completes.condBr (by simp) (by simp) ?_
  refine Completes.enter (List.Perm.swap _ _ _) (Completes.ret ?_)
  refine Completes.enter (List.Perm.refl _) (Completes.emit fun _ => ?_)
  exact Completes.emit fun _ => Completes.ret_done

include hC

/-- Three blocks branch to the one with the PHI. -/
theorem completes_setRepeated {countField : Field} {Self ToInsert NumElts FieldGEP : Value} :
    Completes none [] (some b)
      (setRepeated C S f countField Self ToInsert NumElts FieldGEP) := by
  unfold setRepeated
  refine Completes.emit fun _ => Completes.emit fun LoadedField => Completes.emit fun _ => ?_
  refine Completes.createBlock fun FieldIsNull _ _ _ => ?_
  refine Completes.createBlock fun CheckSize h _ _ => ?_
  have hfc : CheckSize ≠ FieldIsNull := by simpa using h
  refine Completes.condBr (by simp) (by simp) ?_
  refine Completes.enter (List.Perm.swap _ _ _) (Completes.emit fun _ => ?_)
  refine completes_allocSize wf hf fun _ => completes_createCall hC.malloc fun AllocdMem => ?_
  refine completes_insertNullCheck_join fun SizeIsRight hjoin => ?_
  have hrc : SizeIsRight ≠ CheckSize := by simpa using hjoin
  refine Completes.setInsertPoint (List.Perm.swap _ _ _) (by simpa using hrc) ?_
  refine Completes.emit fun _ => Completes.emit fun _ => ?_
  refine Completes.createBlock fun SizeIsWrong hwrong hcur hpreds => ?_
  have hwr : SizeIsWrong ≠ SizeIsRight := by simpa using hwrong
  refine Completes.branch rfl (by simp [Inst.targets]) (fun t ht => Or.inl ?_) ?_
  · rcases List.mem_pair.mp ht with rfl | rfl <;> simp
  -- `CheckSize` is closed, and `SizeIsWrong` is filled
  refine Completes.setInsertPoint (List.Perm.refl _) (by simpa using hwr.symm) ?_
  refine Completes.emit fun _ => completes_allocSize wf hf fun _ => ?_
  refine completes_createCall hC.realloc fun ReallocFieldMem => ?_
  refine completes_insertNullCheck_some_join List.mem_cons_self ?_
  unfold sizeIsRight
  refine Completes.enter_phi (List.Perm.refl _) fun FinalFieldMem => ?_
  refine Completes.addIncoming List.not_mem_nil (Completes.addIncoming (by simpa using hfc) ?_)
  have hwf : SizeIsWrong ≠ FieldIsNull := by simpa using hpreds
  have hwc : SizeIsWrong ≠ CheckSize := fun he => hcur (he ▸ rfl)
  refine Completes.addIncoming (by simp [hwf, hwc]) (Completes.merge ?_)
  refine Completes.emit fun _ => completes_allocSize wf hf fun _ => ?_
  exact Completes.emit fun _ => Completes.emit fun _ => Completes.ret_done

omit hf in
theorem completes_setCount {countsFor : Field} (hm : countsFor ∈ S.fields)
    {Self ToInsert FieldGEP : Value} :
    Completes none [] (some b) (setCount C S f countsFor Self ToInsert FieldGEP) := by
  unfold setCount
  refine Completes.createBlock fun NewSizeIsZero _ _ _ => ?_
  refine Completes.createBlock fun NewSizeIsNotZero _ _ _ => Completes.emit fun _ => ?_
  refine Completes.condBr (by simp) (by simp) ?_
  refine Completes.enter (List.Perm.swap _ _ _) (Completes.ret ?_)
  refine Completes.enter (List.Perm.refl _) (Completes.emit fun _ => ?_)
  refine Completes.emit fun _ => Completes.emit fun _ => Completes.emit fun _ => ?_
  refine completes_allocSize wf hm fun _ => completes_createCall hC.realloc fun _ => ?_
  refine Completes.emit fun _ => Completes.createBlock fun SizeIsRight _ _ _ => ?_
  refine completes_insertNullCheck_some List.mem_cons_self ?_
  refine Completes.enter (List.Perm.refl _) (Completes.emit fun _ => ?_)
  exact Completes.emit fun _ => Completes.ret_done

include hs

theorem completes_getSetter : Completes none [] (some b) (getSetter C S f) := by
  unfold getSetter
  refine completes_insertNullCheck fun _ => Completes.emit fun _ => ?_
  rw [hs, if_neg Bool.false_ne_true]
  split
  · next hr =>
    obtain ⟨-, -, -, -, hc, -⟩ := wf.array_spec hf hr
    rw [hc]
    exact completes_setRepeated hC wf hf
  split
  · next hcount =>
    obtain ⟨-, -, -, r, hm, -, hr, -⟩ := wf.count_spec hf hcount
    rw [hr]
    exact completes_setCount (f := f) hC wf hm
  · exact Completes.emit fun _ => Completes.ret_done

variable (hswap : C.layout.bigEndian = true → f.isRepeated = true → f.elem.IsScalar)
include hswap

omit hC in
theorem completes_fieldSerializer :
    Completes none [] (some b) (fieldSerializer C S f) := by
  unfold fieldSerializer
  refine completes_insertNullCheck fun _ => Completes.emit fun _ => Completes.emit fun _ => ?_
  refine Completes.emit fun _ => ?_
  rw [hs, if_neg Bool.false_ne_true]
  split
  · next hr =>
    obtain ⟨-, -, -, -, hc, hm, hmc, -⟩ := wf.array_spec hf hr
    obtain ⟨ht, -⟩ := wf.count_spec hm hmc
    rw [wf.pointee hf hr, hc]
    dsimp only
    rw [ht]
    refine Completes.emit fun _ => Completes.emit fun _ => ?_
    refine completes_swapBytes (fun _ => by decide) fun _ => Completes.emit fun _ => ?_
    refine completes_allocSize wf hm fun _ => Completes.emit fun _ => ?_
    refine completes_allocSize wf hf fun _ => Completes.emit fun _ => ?_
    refine completes_swapArrayBytes (fun h => hswap h hr) fun _ => Completes.emit fun _ => ?_
    exact Completes.ret_done
  · next hr =>
    have hscalar := wf.scalar_of_plain hf hs (by simpa using hr)
    refine completes_swapBytes (fun _ => hscalar) fun _ => completes_allocSize wf hf fun _ => ?_
    exact Completes.emit fun _ => Completes.ret_done

theorem completes_fieldDeserializer :
    Completes none [] (some b) (fieldDeserializer C S f) := by
  unfold fieldDeserializer
  refine completes_insertNullCheck fun _ => Completes.emit fun _ => ?_
  rw [hs, if_neg Bool.false_ne_true]
  split
  · next hp =>
    have hr := wf.isRepeated_of_pointer hf hs hp
    obtain ⟨-, -, -, -, hc, hm, hmc, -⟩ := wf.array_spec hf hr
    obtain ⟨ht, -⟩ := wf.count_spec hm hmc
    rw [wf.pointee hf hr, hc]
    dsimp only
    rw [ht]
    refine Completes.emit fun _ => completes_swapBytes (fun _ => by decide) fun _ => ?_
    refine Completes.emit fun _ => Completes.emit fun _ => completes_allocSize wf hm fun _ => ?_
    refine Completes.emit fun _ => completes_allocSize wf hf fun _ => ?_
    refine completes_createCall hC.malloc fun _ => completes_insertNullCheck fun _ => ?_
    refine Completes.emit fun _ => completes_swapArrayBytes (fun h => hswap h hr) fun _ => ?_
    refine Completes.emit fun _ => Completes.emit fun _ => Completes.emit fun _ => ?_
    exact Completes.ret_done
  · next hp =>
    have hr : f.isRepeated = false := by
      by_contra hr
      exact hp (wf.isPointerTy_repeated hf (by simpa using hr))
    have hscalar := wf.scalar_of_plain hf hs hr
    refine Completes.emit fun _ => completes_swapBytes (fun _ => hscalar) fun _ => ?_
    refine completes_allocSize wf hf fun _ => Completes.emit fun _ => Completes.emit fun _ => ?_
    exact Completes.ret_done

theorem completes_fieldFunction {g : Func} (hg : g ∈ fieldFunctions f) :
    Completes none [] (some b) (body C S g) := by
  rcases mem_fieldFunctions.mp hg with rfl | ⟨hr, rfl⟩ | ⟨-, rfl⟩ | ⟨hr, rfl⟩ | ⟨-, rfl⟩ | ⟨-, rfl⟩
  · exact completes_getGetter hC wf hf hs
  · exact completes_getItemGetter wf hf hr
  · exact completes_getSetter hC wf hf hs
  · exact completes_getItemSetter wf hf hr
  · exact completes_fieldSerializer wf hf hs hswap
  · exact completes_fieldDeserializer hC wf hf hs hswap

end Field

/-! ## Functions of a struct -/

/-- The functions of the fields are declared too. -/
structure Context.DeclaresFields (C : Context) (S : Struct) : Prop where
  serializer : ∀ f ∈ S.fields, f.isCount = false → C.hasFunction (getSerializerName f) = true
  deserializer : ∀ f ∈ S.fields, f.isCount = false → C.hasFunction (getDeserializerName f) = true

section Struct

variable {C : Context} {S : Struct} {b : Nat} {Self p q x : Value} {fs : List Field}
  (hC : C.Declares) (wf : S.WellFormed) (hfs : ∀ f ∈ fs, f ∈ S.fields)

include hC wf hfs in
theorem completes_initFields {i : Nat} {k : Unit → IRBuilder Unit}
    (hk : ∀ b', Completes none [] (some b') (k ())) :
    Completes none [] (some b) (initFields C S Self fs i >>= k) := by
  induction fs generalizing i b with
  | nil => exact hk b
  | cons f fs ih =>
    have hf := hfs f List.mem_cons_self
    have hrest := fun {i b} => ih (i := i) (b := b) fun g hg => hfs g (List.mem_cons_of_mem f hg)
    unfold initFields initField
    cases hm : f.isMutable with
    | true =>
      simp only [Bool.not_true, Bool.false_eq_true, if_false, if_true, Builder.bind_assoc,
        Builder.pure_bind]
      exact Completes.emit fun _ => Completes.emit fun _ => hrest
    | false =>
      simp only [Bool.not_false, Bool.false_eq_true, if_false, if_true]
      split
      · simp only [Builder.bind_assoc, Builder.pure_bind]
        refine completes_allocSize wf hf fun _ => completes_createCall hC.malloc fun _ => ?_
        refine completes_insertNullCheck fun _ => Completes.emit fun _ => ?_
        exact Completes.emit fun _ => Completes.emit fun _ => hrest
      · simp only [Builder.bind_assoc, Builder.pure_bind]
        exact Completes.emit fun _ => Completes.emit fun _ => hrest

include hC in
theorem completes_destroyFields {k : Unit → IRBuilder Unit}
    (hk : Completes none [] (some b) (k ())) :
    Completes none [] (some b) (destroyFields C S Self fs >>= k) := by
  induction fs with
  | nil => exact hk
  | cons f fs ih =>
    unfold destroyFields destroyField
    simp only [Builder.bind_assoc]
    refine Completes.emit fun _ => ?_
    split
    · simp only [Builder.bind_assoc, Builder.pure_bind]
      exact Completes.emit fun _ => completes_createCall hC.free fun _ => ih
    · exact ih

include wf hfs in
theorem completes_sumAllocSizes {k : Value → IRBuilder Unit}
    (hk : ∀ r, Completes none [] (some b) (k r)) :
    Completes none [] (some b) (sumAllocSizes C S Self fs x >>= k) := by
  induction fs generalizing x with
  | nil => exact hk x
  | cons f fs ih =>
    unfold sumAllocSizes
    simp only [Builder.bind_assoc]
    refine completes_allocSize wf (hfs f List.mem_cons_self) fun _ => Completes.emit fun _ => ?_
    exact ih fun g hg => hfs g (List.mem_cons_of_mem f hg)

section Entries

variable (hD : C.DeclaresFields S) {k : Unit → IRBuilder Unit}
  (hk : Completes none [] (some b) (k ()))
include hfs hD hk

theorem completes_serializeEntries :
    Completes none [] (some b) (serializeEntries C p q fs x >>= k) := by
  induction fs generalizing x with
  | nil => exact hk
  | cons f fs ih =>
    have hrest := fun {x} => ih (x := x) fun g hg => hfs g (List.mem_cons_of_mem f hg)
    unfold serializeEntries
    split
    · exact hrest
    · next hc =>
      simp only [Builder.bind_assoc]
      have hcall := hD.serializer f (hfs f List.mem_cons_self) (by simpa using hc)
      exact Completes.emit fun _ => completes_createCall hcall fun _ =>
        Completes.emit fun _ => hrest

theorem completes_deserializeEntries :
    Completes none [] (some b) (deserializeEntries C p q fs x >>= k) := by
  induction fs generalizing x with
  | nil => exact hk
  | cons f fs ih =>
    have hrest := fun {x} => ih (x := x) fun g hg => hfs g (List.mem_cons_of_mem f hg)
    unfold deserializeEntries
    split
    · exact hrest
    · next hc =>
      simp only [Builder.bind_assoc]
      have hcall := hD.deserializer f (hfs f List.mem_cons_self) (by simpa using hc)
      exact Completes.emit fun _ => completes_createCall hcall fun _ =>
        Completes.emit fun _ => hrest

end Entries

include hC wf in
theorem completes_structFunction (hD : C.DeclaresFields S) {g : Func}
    (hg : g ∈ structFunctions S) : Completes none [] (some b) (body C S g) := by
  have hall : ∀ f ∈ S.fields, f ∈ S.fields := fun f hf => hf
  have hi64 : C.layout.bigEndian = true → (Ty.int 64).IsScalar := fun _ => by decide
  simp only [structFunctions, List.mem_cons, List.not_mem_nil, or_false] at hg
  rcases hg with rfl | rfl | rfl | rfl
  · show Completes _ _ _ (getConstructor C S)
    unfold getConstructor
    refine completes_createCall hC.malloc fun _ => completes_insertNullCheck fun _ => ?_
    exact completes_initFields hC wf hall fun _ => Completes.ret_done
  · show Completes _ _ _ (getSerializer C S)
    unfold getSerializer
    refine completes_insertNullCheck fun _ => completes_sumAllocSizes wf hall fun _ => ?_
    refine completes_createCall hC.malloc fun _ => completes_insertNullCheck fun _ => ?_
    refine completes_swapBytes hi64 fun _ => Completes.emit fun _ => ?_
    exact completes_serializeEntries hall hD Completes.ret_done
  · show Completes _ _ _ (getDeserializer C S)
    unfold getDeserializer
    refine Completes.emit fun _ => completes_swapBytes hi64 fun _ => ?_
    refine completes_insertNullCheck fun _ => completes_createCall hC.malloc fun _ => ?_
    refine completes_insertNullCheck fun _ => completes_deserializeEntries hall hD ?_
    refine completes_sumAllocSizes wf hall fun _ => Completes.emit fun _ => ?_
    refine Completes.createBlock fun SizeIsRight _ _ _ => ?_
    refine Completes.createBlock fun SizeIsWrong _ _ _ => Completes.condBr (by simp) (by simp) ?_
    refine Completes.enter (List.Perm.refl _) (Completes.ret ?_)
    exact Completes.enter (List.Perm.refl _) Completes.ret_done
  · show Completes _ _ _ (getDestructor C S)
    unfold getDestructor
    refine completes_destroyFields hC ?_
    exact completes_createCall hC.free fun _ => Completes.ret_done

end Struct

/-! ## Generators that break off -/

/-- `m` breaks off wherever it begins. -/
def Fails {α : Type} (m : IRBuilder α) : Prop := ∀ s, m.run s = none

theorem Fails.bind {α β : Type} {m : IRBuilder α} {k : α → IRBuilder β} (h : Fails m) :
    Fails (m >>= k) := fun s => congrArg (Option.bind · _) (h s)

theorem Fails.of_bind {α β : Type} {m : IRBuilder α} {k : α → IRBuilder β} (h : ∀ a, Fails (k a)) :
    Fails (m >>= k) := by
  intro s
  cases hrun : m.run s with
  | none => exact congrArg (Option.bind · _) hrun
  | some r => exact (congrArg (Option.bind · _) hrun).trans (h r.1 r.2)

/-- There is code for every field: none is a struct, and a big-endian module has no arrays of
    pointers. -/
def Emittable (DL : DataLayout) (S : Struct) : Prop := ∀ f ∈ S.fields, f.isStruct = false ∧
  (DL.bigEndian = true → f.isRepeated = true → f.elem.IsScalar)

section Fails

variable {C : Context} {S : Struct} {f : Field} (wf : S.WellFormed) (hf : f ∈ S.fields)
include wf hf

/-- The name of a pointer type is asked for. -/
theorem fails_of_isStruct (hs : f.isStruct = true) : Fails (fieldSerializer C S f) := by
  have hcall : ∀ p, Fails (callSerializer C f.type p) := by
    intro p
    rw [callSerializer, wf.getStructName_eq_none hf hs]
    exact fun _ => rfl
  unfold fieldSerializer
  refine Fails.of_bind fun _ => Fails.of_bind fun _ => Fails.of_bind fun _ => ?_
  refine Fails.of_bind fun _ => Fails.of_bind fun _ => ?_
  rw [if_pos hs]
  exact (hcall _).bind

/-- A pointer is cast to an integer. -/
theorem fails_of_pointers (hbig : C.layout.bigEndian = true) (hr : f.isRepeated = true)
    (helem : ¬ f.elem.IsScalar) : Fails (fieldSerializer C S f) := by
  obtain ⟨ht, he, hs, -, hc, -⟩ := wf.array_spec hf hr
  have hswap : ∀ p n, Fails (swapArrayBytes C f.elem p n) := by
    intro p n s
    unfold swapArrayBytes
    rw [hbig]
    cases hel : f.elem with
    | ptr t => rfl
    | struct i name => rfl
    | int n =>
      rw [hel] at he helem
      exact absurd he helem
    | float => exact absurd (hel ▸ trivial) helem
    | double => exact absurd (hel ▸ trivial) helem
  unfold fieldSerializer
  refine Fails.of_bind fun _ => Fails.of_bind fun _ => Fails.of_bind fun _ => ?_
  refine Fails.of_bind fun _ => Fails.of_bind fun _ => ?_
  rw [hs, if_neg Bool.false_ne_true, if_pos hr, wf.pointee hf hr, hc]
  refine Fails.of_bind fun _ => Fails.of_bind fun _ => Fails.of_bind fun _ => ?_
  refine Fails.of_bind fun _ => Fails.of_bind fun _ => Fails.of_bind fun _ => ?_
  exact Fails.of_bind fun _ => Fails.of_bind fun _ => (hswap _ _).bind

end Fails

/-! ## The module -/

section Visit

variable {DL : DataLayout} {B : Builtins} {S : Struct} {M : Module} {gs : List Func}
  {known : List String}

/-- The functions of these names are declared. -/
def Knows (fs : Functions) (names : List String) : Prop := ∀ n, (fs.lookup n).isSome ↔ n ∈ names

theorem declares_context {fs : Functions} (h : ∀ n ∈ B.names, (fs.lookup n).isSome) :
    (context DL B fs).Declares where
  malloc := h B.malloc (by simp [Builtins.names])
  realloc := h B.realloc (by simp [Builtins.names])
  free := h B.free (by simp [Builtins.names])

theorem Knows.getOrInsertFunction {fs : Functions} (h : Knows fs known) (name : String)
    (type : FunctionType) : Knows (getOrInsertFunction fs name type) (known ++ [name]) := by
  intro n
  rw [List.mem_append, List.mem_singleton, ← h n]
  unfold Llvm.getOrInsertFunction
  split
  · next hsome =>
    refine (or_iff_left_of_imp ?_).symm
    rintro rfl
    exact hsome
  · rw [Table.lookup_isSome_iff, Table.lookup_isSome_iff]
    simp

theorem knows_finalizeBuiltins : Knows (finalizeBuiltins B).functions B.names :=
  (((show Knows [] [] from fun _ => by simp).getOrInsertFunction _ _).getOrInsertFunction _ _)
    |>.getOrInsertFunction _ _

theorem declare_new {g : Func} {fs : Functions} (h : Knows fs known) (hnew : g.name ∉ known)
    (htype : g.functionType.isSome) :
    ∃ fs', declare g fs = .ok fs' ∧ Knows fs' (known ++ [g.name]) := by
  obtain ⟨type, htype⟩ := Option.isSome_iff_exists.mp htype
  have hnone : fs.lookup g.name = none := by
    rw [← Option.not_isSome_iff_eq_none, h]
    exact hnew
  refine ⟨fs ++ [(g.name, type)], ?_, fun n => ?_⟩
  · refine LLVMIRGenPass.declare_eq_ok_iff.mpr ⟨type, htype, ?_⟩
    unfold Table.insert
    rw [hnone]
  · rw [Table.lookup_isSome_iff, List.map_append, List.mem_append, List.mem_append,
      ← Table.lookup_isSome_iff, h n]
    rfl

/-- One generator. -/
theorem addFunction_wellFormed {g : Func} (hM : Knows M.functions known) (hnew : g.name ∉ known)
    (hcode : M.code g.name = .empty) (htype : g.functionType.isSome)
    (hbody : ∀ fs, (∀ n ∈ known, (fs.lookup n).isSome) →
      Completes none [] (some 0) (body (context DL B fs) S g)) :
    ∃ M', addFunction DL B S M g = some M' ∧ Knows M'.functions (known ++ [g.name]) ∧
      (M'.code g.name).WellFormed ∧ ∀ n, n ≠ g.name → M'.code n = M.code n := by
  obtain ⟨fs, hfs, hknows⟩ := declare_new hM hnew htype
  obtain ⟨s, hrun, hs⟩ := (hbody fs fun n hn =>
    (hknows n).mpr (List.mem_append_left _ hn)).wellFormed
  refine ⟨⟨fs, Function.update M.code g.name s.toCode⟩, ?_, hknows, ?_, fun n hn =>
    Function.update_of_ne hn _ _⟩
  · unfold addFunction
    rw [hfs, hcode, Except.toOption]
    exact congrArg (Option.bind · _) hrun
  · show (Function.update M.code g.name s.toCode g.name).WellFormed
    rw [Function.update_self]
    exact hs

/-- A list of generators whose functions are new. -/
theorem addFunctions_wellFormed (hM : Knows M.functions known)
    (hn : (known ++ gs.map Func.name).Nodup) (hcode : ∀ g ∈ gs, M.code g.name = .empty)
    (htype : ∀ g ∈ gs, g.functionType.isSome)
    (hbody : ∀ g ∈ gs, ∀ fs, (∀ n ∈ known, (fs.lookup n).isSome) →
      Completes none [] (some 0) (body (context DL B fs) S g)) :
    ∃ M', gs.foldlM (addFunction DL B S) M = some M' ∧
      Knows M'.functions (known ++ gs.map Func.name) ∧
      (∀ g ∈ gs, (M'.code g.name).WellFormed) ∧
      ∀ n, n ∉ gs.map Func.name → M'.code n = M.code n := by
  induction gs generalizing M known with
  | nil =>
    exact ⟨M, rfl, by simpa using hM, fun g hg => (List.not_mem_nil hg).elim, fun _ _ => rfl⟩
  | cons g gs ih =>
    have hsplit : known ++ (g :: gs).map Func.name = known ++ [g.name] ++ gs.map Func.name := by
      simp
    rw [hsplit] at hn ⊢
    obtain ⟨hfirst, -, hdisj⟩ := List.nodup_append.mp hn
    have hnew : g.name ∉ known := fun hm =>
      (List.nodup_append.mp hfirst).2.2 _ hm _ List.mem_cons_self rfl
    have hne : ∀ k ∈ gs, k.name ≠ g.name := fun k hk he =>
      hdisj g.name (by simp) k.name (List.mem_map_of_mem hk) he.symm
    obtain ⟨M₁, h₁, hknows, hwf, hkeep⟩ := addFunction_wellFormed (S := S) hM hnew
      (hcode g List.mem_cons_self) (htype g List.mem_cons_self) (hbody g List.mem_cons_self)
    obtain ⟨M', h', hknows', hwf', hkeep'⟩ := ih hknows hn
      (fun k hk => (hkeep _ (hne k hk)).trans (hcode k (List.mem_cons_of_mem g hk)))
      (fun k hk => htype k (List.mem_cons_of_mem g hk))
      (fun k hk fs hfs => hbody k (List.mem_cons_of_mem g hk) fs fun n hn =>
        hfs n (List.mem_append_left _ hn))
    have hlast : g.name ∉ gs.map Func.name := fun hm => by
      obtain ⟨k, hk, he⟩ := List.mem_map.mp hm
      exact hne k hk he
    refine ⟨M', by rw [List.foldlM_cons, h₁]; exact h', hknows', ?_, fun n hn => ?_⟩
    · refine List.forall_mem_cons.mpr ⟨?_, hwf'⟩
      rw [hkeep' _ hlast]
      exact hwf
    · rw [List.map_cons, List.mem_cons, not_or] at hn
      rw [hkeep' n hn.2, hkeep n hn.1]

/-- The functions of one struct: those of its fields first, then those that call them. -/
theorem visitStruct_wellFormed (wf : S.WellFormed) (hS : Emittable DL S)
    (hM : Knows M.functions known) (hbuiltin : ∀ n ∈ B.names, n ∈ known)
    (hn : (known ++ (generatedFunctions S).map Func.name).Nodup)
    (hcode : ∀ g ∈ generatedFunctions S, M.code g.name = .empty)
    (htype : ∀ g ∈ generatedFunctions S, g.functionType.isSome) :
    ∃ M', visitStruct DL B S M = some M' ∧
      Knows M'.functions (known ++ (generatedFunctions S).map Func.name) ∧
      (∀ g ∈ generatedFunctions S, (M'.code g.name).WellFormed) ∧
      ∀ n, n ∉ (generatedFunctions S).map Func.name → M'.code n = M.code n := by
  unfold visitStruct
  unfold generatedFunctions at *
  rw [List.map_append, ← List.append_assoc] at hn ⊢
  rw [List.foldlM_append]
  obtain ⟨hnfields, -, hdisj⟩ := List.nodup_append.mp hn
  obtain ⟨M₁, h₁, hknows, hwf, hkeep⟩ := addFunctions_wellFormed (S := S) hM
    hnfields (fun g hg => hcode g (List.mem_append_left _ hg))
    (fun g hg => htype g (List.mem_append_left _ hg)) fun g hg fs hfs => by
      obtain ⟨f, hf, hg⟩ := List.mem_flatMap.mp hg
      exact completes_fieldFunction (declares_context fun n hn => hfs n (hbuiltin n hn)) wf hf
        (hS f hf).1 (hS f hf).2 hg
  have hfresh : ∀ g ∈ structFunctions S, g.name ∉ (S.fields.flatMap fieldFunctions).map Func.name :=
    fun g hg hm => hdisj _ (List.mem_append_right _ hm) _ (List.mem_map_of_mem hg) rfl
  obtain ⟨M', h', hknows', hwf', hkeep'⟩ := addFunctions_wellFormed (S := S)
    hknows hn (fun g hg => (hkeep _ (hfresh g hg)).trans (hcode g (List.mem_append_right _ hg)))
    (fun g hg => htype g (List.mem_append_right _ hg)) fun g hg fs hfs => by
      have hmem : ∀ {f k}, f ∈ S.fields → k ∈ fieldFunctions f → (fs.lookup k.name).isSome :=
        fun hf hk => hfs _ (List.mem_append_right _
          (List.mem_map_of_mem (List.mem_flatMap.mpr ⟨_, hf, hk⟩)))
      refine completes_structFunction (C := context DL B fs) (declares_context fun n hn =>
        hfs n (List.mem_append_left _ (hbuiltin n hn))) wf ⟨fun f hf hc => ?_, fun f hf hc => ?_⟩ hg
      · exact hmem (k := .fieldSerializer f) hf (by simp [mem_fieldFunctions, hc])
      · exact hmem (k := .fieldDeserializer f) hf (by simp [mem_fieldFunctions, hc])
  refine ⟨M', by rw [h₁]; exact h', hknows', fun g hg => ?_, fun n hn => ?_⟩
  · rcases List.mem_append.mp hg with hg | hg
    · rw [hkeep' _ fun hm => ?_]
      · exact hwf g hg
      · obtain ⟨k, hk, he⟩ := List.mem_map.mp hm
        exact hfresh k hk (he ▸ List.mem_map_of_mem hg)
    · exact hwf' g hg
  · rw [List.mem_append, not_or] at hn
    rw [hkeep' n hn.2, hkeep n hn.1]

/-- All structs. -/
theorem visitStructs_wellFormed {order : List Struct} (wf : ∀ S ∈ order, S.WellFormed)
    (hS : ∀ S ∈ order, Emittable DL S) (hM : Knows M.functions known)
    (hbuiltin : ∀ n ∈ B.names, n ∈ known)
    (hn : (known ++ (order.flatMap generatedFunctions).map Func.name).Nodup)
    (hcode : ∀ S ∈ order, ∀ g ∈ generatedFunctions S, M.code g.name = .empty)
    (htype : ∀ S ∈ order, ∀ g ∈ generatedFunctions S, g.functionType.isSome) :
    ∃ M', order.foldlM (fun M S => visitStruct DL B S M) M = some M' ∧
      (∀ S ∈ order, ∀ g ∈ generatedFunctions S, (M'.code g.name).WellFormed) ∧
      ∀ n, n ∉ (order.flatMap generatedFunctions).map Func.name → M'.code n = M.code n := by
  induction order generalizing M known with
  | nil => exact ⟨M, rfl, fun S hS => (List.not_mem_nil hS).elim, fun _ _ => rfl⟩
  | cons S order ih =>
    rw [List.flatMap_cons, List.map_append, ← List.append_assoc] at hn
    obtain ⟨hnS, -, hdisj⟩ := List.nodup_append.mp hn
    have hfresh : ∀ T ∈ order, ∀ g ∈ generatedFunctions T,
        g.name ∉ (generatedFunctions S).map Func.name := fun T hT g hg hm =>
      hdisj _ (List.mem_append_right _ hm) _
        (List.mem_map_of_mem (List.mem_flatMap.mpr ⟨T, hT, hg⟩)) rfl
    obtain ⟨M₁, h₁, hknows, hwf, hkeep⟩ := visitStruct_wellFormed (wf S List.mem_cons_self)
      (hS S List.mem_cons_self) hM hbuiltin hnS (hcode S List.mem_cons_self)
      (htype S List.mem_cons_self)
    obtain ⟨M', h', hwf', hkeep'⟩ := ih (fun T hT => wf T (List.mem_cons_of_mem S hT))
      (fun T hT => hS T (List.mem_cons_of_mem S hT)) hknows
      (fun n hn => List.mem_append_left _ (hbuiltin n hn)) hn
      (fun T hT g hg => (hkeep _ (hfresh T hT g hg)).trans
        (hcode T (List.mem_cons_of_mem S hT) g hg))
      (fun T hT => htype T (List.mem_cons_of_mem S hT))
    refine ⟨M', by rw [List.foldlM_cons, h₁]; exact h', fun T hT g hg => ?_, fun n hn => ?_⟩
    · rcases List.mem_cons.mp hT with rfl | hT
      · rw [hkeep' _ fun hm => ?_]
        · exact hwf g hg
        · obtain ⟨k, hk, he⟩ := List.mem_map.mp hm
          obtain ⟨U, hU, hk⟩ := List.mem_flatMap.mp hk
          exact hfresh U hU k hk (he ▸ List.mem_map_of_mem hg)
      · exact hwf' T hT g hg
    · rw [List.flatMap_cons, List.map_append, List.mem_append, not_or] at hn
      rw [hkeep' n hn.2, hkeep n hn.1]

end Visit

/-- A finalized struct's functions have types. -/
theorem functionType_isSome {S : Struct} (wf : S.WellFormed) :
    ∀ g ∈ generatedFunctions S, g.functionType.isSome := by
  obtain ⟨T, hT⟩ := Option.isSome_iff_exists.mp wf.isSome_type
  intro g hg
  rcases List.mem_append.mp hg with hg | hg
  · obtain ⟨f, hf, hg⟩ := List.mem_flatMap.mp hg
    have hP : f.parentType = some T := (wf.parentType_eq f hf).trans hT
    rcases mem_fieldFunctions.mp hg with rfl | ⟨-, rfl⟩ | ⟨-, rfl⟩ | ⟨hr, rfl⟩ | ⟨-, rfl⟩ | ⟨-, rfl⟩
    all_goals simp only [Func.functionType, hP, Option.map_some, Option.bind_some,
      Option.isSome_some]
    rw [wf.pointee hf hr]
    rfl
  · simp only [structFunctions, List.mem_cons, List.not_mem_nil, or_false] at hg
    rcases hg with rfl | rfl | rfl | rfl <;> simp [Func.functionType, hT]

/-- The structs can be emitted. -/
theorem visit_wellFormed {DL : DataLayout} {B : Builtins} {order : List Struct}
    (wf : ∀ S ∈ order, S.WellFormed) (hn : Tyr.DistinctNames order) (hB : B.names.Nodup)
    (hnames : ∀ S ∈ order, ∀ g ∈ generatedFunctions S, g.name ∉ B.names)
    (hS : ∀ S ∈ order, Emittable DL S) :
    ∃ M, visit DL B order = some M ∧
      ∀ S ∈ order, ∀ g ∈ generatedFunctions S, (M.code g.name).WellFormed := by
  have hnodup : (B.names ++ (order.flatMap generatedFunctions).map Func.name).Nodup := by
    refine List.nodup_append.mpr ⟨hB, hn, ?_⟩
    rintro n hn _ hm rfl
    obtain ⟨g, hg, rfl⟩ := List.mem_map.mp hm
    obtain ⟨S, hS, hg⟩ := List.mem_flatMap.mp hg
    exact hnames S hS g hg hn
  obtain ⟨M, hM, hwf, -⟩ := visitStructs_wellFormed wf hS knows_finalizeBuiltins (fun _ hn => hn)
    hnodup (fun _ _ _ _ => rfl) fun S hS => functionType_isSome (wf S hS)
  exact ⟨M, hM, hwf⟩

/-- The pass gets through a module and leaves a control-flow graph in every function exactly when
    every struct can be emitted: no field is a struct and, in a big-endian layout, no array has
    elements that are pointers. -/
theorem visit_wellFormed_iff {DL : DataLayout} {B : Builtins} {order : List Struct}
    (wf : ∀ S ∈ order, S.WellFormed) (hn : Tyr.DistinctNames order) (hB : B.names.Nodup)
    (hnames : ∀ S ∈ order, ∀ g ∈ generatedFunctions S, g.name ∉ B.names) :
    (∃ M, visit DL B order = some M ∧
      ∀ S ∈ order, ∀ g ∈ generatedFunctions S, (M.code g.name).WellFormed) ↔
    ∀ S ∈ order, Emittable DL S := by
  constructor
  · rintro ⟨M, hvisit, -⟩ S hS f hf
    have hempty : ∀ S ∈ order, ∀ g ∈ generatedFunctions S,
        (finalizeBuiltins B).code g.name = .empty := fun _ _ _ _ => rfl
    unfold visit at hvisit
    have hcode := (visitStructs_emit hn hempty hvisit).1 S hS
    have hruns : f.isCount = false →
        ∃ fs, ¬ Fails (fieldSerializer (context DL B fs) S f) := by
      intro hc
      obtain ⟨fs, u, s, hrun, -⟩ := hcode (.fieldSerializer f) (mem_generatedFunctions hf
        (by simp [mem_fieldFunctions, hc]))
      exact ⟨fs, fun hfails => by cases (hfails _).symm.trans hrun⟩
    have hs : f.isStruct = false := by
      by_contra hs
      rw [Bool.not_eq_false] at hs
      have hc : f.isCount = false := by
        by_contra hc
        rw [(wf S hS).count_spec hf (by simpa using hc) |>.2.1] at hs
        cases hs
      obtain ⟨fs, hok⟩ := hruns hc
      exact hok (fails_of_isStruct (wf S hS) hf hs)
    refine ⟨hs, fun hbig hr => ?_⟩
    by_contra helem
    obtain ⟨fs, hok⟩ := hruns ((wf S hS).array_spec hf hr).2.2.2.1
    exact hok (fails_of_pointers (wf S hS) hf hbig hr helem)
  · exact fun hS => visit_wellFormed wf hn hB hnames hS

/-- `path`'s module. -/
theorem visit_wellFormed_path : ∃ M,
    visit .default ⟨"malloc", "realloc", "free"⟩ [pathStruct] = some M ∧
    ∀ S ∈ [pathStruct], ∀ g ∈ generatedFunctions S, (M.code g.name).WellFormed := by
  refine (visit_wellFormed_iff (List.forall_mem_singleton.mpr pathStruct_isFlat.toWellFormed)
    (by unfold Tyr.DistinctNames; decide) (by decide)
    (List.forall_mem_singleton.mpr (by decide))).mpr (List.forall_mem_singleton.mpr ?_)
  unfold Emittable
  decide

end Llvm

end Tyr
