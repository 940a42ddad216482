import Tyr.Llvm.Rules

/-
  The blocks of a field's functions run as its functions.

  For each generator of a field: the code it emits is the program that `Tyr.CodeGen` has for the
  function (`emits_getGetter` and so on), whatever the code calls, as long as the builtins are the
  allocator's functions.
-/

namespace Tyr

open Prog

namespace Struct.WellFormed

variable {S : Struct} {f cf : Field}

theorem deref_count (wf : S.WellFormed) (hf : f ∈ S.fields) (hr : f.isRepeated = true)
    (h : S.deref f.countField = some cf) :
    cf.type = .int 64 ∧ cf.isRepeated = false ∧ cf ∈ S.fields := by
  obtain ⟨-, -, -, -, hd, hm, hc, -⟩ := wf.array_spec hf hr
  obtain rfl := Option.some.inj (h.symm.trans hd)
  obtain ⟨ht, -, hr', -⟩ := wf.count_spec hm hc
  exact ⟨ht, hr', hm⟩

/-- A struct-typed field's type is a pointer, and a pointer type has no struct's name. -/
theorem getStructName_eq_none (wf : S.WellFormed) (hf : f ∈ S.fields) (hs : f.isStruct = true) :
    f.type.getStructName = none := by
  cases wf.kind f hf with
  | plain hs' hr hc ht =>
    rw [hs] at hs'
    obtain ⟨t, ht⟩ := Ty.exists_pointee hs'.symm
    rw [ht]
    rfl
  | count r hs' => rw [hs] at hs'; cases hs'
  | array t c hs' => rw [hs] at hs'; cases hs'

theorem count_countsFor (wf : S.WellFormed) (hf : f ∈ S.fields) (hc : f.isCount = true)
    {r : Field} (h : S.deref f.countsFor = some r) : f.type = .int 64 ∧ r ∈ S.fields := by
  obtain ⟨ht, -, -, r', hm, -, hd, -⟩ := wf.count_spec hf hc
  obtain rfl := Option.some.inj (h.symm.trans hd)
  exact ⟨ht, hm⟩

/-- A pointer that is no struct is an array. -/
theorem isRepeated_of_pointer (wf : S.WellFormed) (hf : f ∈ S.fields) (hs : f.isStruct = false)
    (hp : f.type.isPointerTy = true) : f.isRepeated = true := by
  cases wf.kind f hf with
  | plain hs' => rw [hs, hp] at hs'; cases hs'
  | count r hs' hr hc ht => rw [ht] at hp; cases hp
  | array t c hs' hr => exact hr

theorem isPointerTy_repeated (wf : S.WellFormed) (hf : f ∈ S.fields) (hr : f.isRepeated = true) :
    f.type.isPointerTy = true := by
  rw [(wf.array_spec hf hr).1]
  rfl

end Struct.WellFormed

/-- What a load of a pointer type gives. -/
theorem Env.loadTy_ptr {E : Env} {t : Ty} {p : Ptr} (ht : t.isPointerTy = true) {v : Val}
    (hv : (E.loadTy t p).Returns v) : ∃ a, v = .ptr a := by
  obtain ⟨h, h', hrun⟩ := hv
  obtain ⟨cs, h₁, -, hp⟩ := bind_eq_ok hrun
  cases hp
  unfold decode
  rw [ht]
  exact ⟨_, rfl⟩

namespace Llvm

open Ssa Builder

variable {E : Env} {callee : String → List Val → Nat → Part Val} {F : Code Op Val}
  {Γ : Facts Val} {Λ : List Nat} {b : Nat} {C : Context} {S : Struct} {f : Field}

theorem Emits.ite {m m' : IRBuilder Unit} {p : Prop} [Decidable p] {c c' : Prog Val}
    (h : p → Emits (machine E callee) F Γ Λ b m c)
    (h' : ¬ p → Emits (machine E callee) F Γ Λ b m' c') :
    Emits (machine E callee) F Γ Λ b (if p then m else m') (if p then c else c') := by
  split
  · next hp => exact h hp
  · next hp => exact h' hp

section

variable (hlink : Links C E callee) (wf : S.WellFormed) (hf : f ∈ S.fields)
include wf hf

theorem emits_callSerializer {k : Value → IRBuilder Unit} {p : Value} {c : Prog Val}
    (hs : f.isStruct = true) :
    Emits (machine E callee) F Γ Λ b (callSerializer C f.type p >>= k) c := by
  rw [callSerializer, wf.getStructName_eq_none hf hs]
  exact Emits.fail

theorem emits_callDeserializer {k : Value → IRBuilder Unit} {p : Value} {c : Prog Val}
    (hs : f.isStruct = true) :
    Emits (machine E callee) F Γ Λ b (callDeserializer C f.type p >>= k) c := by
  rw [callDeserializer, wf.getStructName_eq_none hf hs]
  exact Emits.fail

include hlink

theorem emits_allocSize {k : Value → IRBuilder Unit} {p : Value} {a : Ptr} {c : I64 → Prog Val}
    (hp : PtrAt Γ p a)
    (hk : ∀ r n, Emits (machine E callee) F ((r, .i64 n) :: Γ) Λ b (k r) (c n)) :
    Emits (machine E callee) F Γ Λ b (getFieldAllocSize C S f p >>= k)
      (E.getFieldAllocSize S f a >>= c) :=
  emits_getFieldAllocSize hlink.layout (fun _ hr h => (wf.deref_count hf hr h).1) hp hk

/-! ## Getters -/

theorem emits_getGetter (Self OutVal : Ptr) :
    Emits (machine E callee) F [(.arg 0, .ptr Self), (.arg 1, .ptr OutVal)] Λ b
      (getGetter C S f) (returnBool (E.getGetter S f Self OutVal)) := by
  rw [returnBool_eq]
  unfold getGetter Env.getGetter
  simp only [thenReturn_insertNullCheck, thenReturn_bind, thenReturn_ite, thenReturn_pure]
  refine emits_insertNullCheck (by simp) (by simp) fun b' => ?_
  refine emits_structGEP Self (by simp) fun FieldGEP => ?_
  refine emits_load (by simp) fun FieldLoad v hv => ?_
  refine Emits.ite (fun hs => ?_) fun _ => Emits.ite (fun hr => ?_) fun _ => ?_
  · exact emits_callSerializer wf hf (Bool.and_eq_true_iff.mp hs).1
  · refine emits_allocSize hlink wf hf (by simp) fun FieldAllocSize n => ?_
    refine emits_malloc hlink (by simp) fun AllocdMem a => ?_
    refine emits_insertNullCheck (by simp) (by simp) fun b'' => ?_
    refine emits_memcpy (by simp) (by simp) (by simp) fun _ => ?_
    refine emits_store (by simp) (by simp) fun _ => ?_
    exact Emits.ret (by simp)
  · exact emits_store (by simp) (by simp) fun _ => Emits.ret (by simp)

omit hlink in
theorem emits_getItemGetter (hr : f.isRepeated = true) (Self OutVal : Ptr) (IDX : I64) :
    Emits (machine E callee) F [(.arg 0, .ptr Self), (.arg 1, .i64 IDX), (.arg 2, .ptr OutVal)] Λ b
      (getItemGetter S f) (returnBool (E.getItemGetter S f Self IDX OutVal)) := by
  rw [returnBool_eq]
  unfold getItemGetter Env.getItemGetter
  cases ht : f.type.getPointerElementType with
  | none => exact fun _ _ _ hrun => nomatch hrun
  | some t =>
    cases hc : S.deref f.countField with
    | none => exact fun _ _ _ hrun => nomatch hrun
    | some countField =>
      simp only [thenReturn_insertNullCheck, thenReturn_bind, thenReturn_ite, thenReturn_pure,
        (wf.deref_count hf hr hc).1]
      refine emits_insertNullCheck (by simp) (by simp) fun b' => ?_
      refine emits_structGEP Self (by simp) fun FieldGEP => ?_
      refine emits_load (by simp) fun FieldLoad v hv => ?_
      refine emits_structGEP Self (by simp) fun CountGEP => ?_
      refine emits_loadI64 (by simp) fun Count n => ?_
      refine Emits.createBlock fun OutOfBounds => Emits.createBlock fun InBounds => ?_
      refine emits_icmpULT IDX n (by simp) (by simp) fun IsInBounds => ?_
      refine emits_condBr (by simp) (fun _ => ?_) fun _ => ?_
      · refine Gives.setInsertPoint (List.Perm.swap _ _ _) (Gives.terminate ?_)
        refine Gives.enter (List.Perm.refl _) ?_
        refine emits_gep v.asPtr IDX (by simp) (by simp) fun ItemGEP => ?_
        refine emits_load (by simp) fun Item w hw => ?_
        exact emits_store (by simp) (by simp) fun _ => Emits.ret (by simp)
      · exact Gives.enter (List.Perm.swap _ _ _) (Emits.ret_bind (by simp))

/-! ## Setters -/

variable {countField : Field} {Self ToInsert NumElts FieldGEP PtrFieldCount : Value}
  {self src : Ptr} {n : I64}

/-- The last block of the array setter, from any block it is entered from. -/
theorem gives_sizeIsRight (hr : f.isRepeated = true) (hc : S.deref f.countField = some countField)
    {SizeIsRight FieldIsNull CheckSize SizeIsWrong pred : Nat}
    {AllocdMem LoadedField ReallocFieldMem o : Value} {a : Ptr}
    (hpred : (o, pred) ∈ [(AllocdMem, FieldIsNull), (LoadedField, CheckSize),
      (ReallocFieldMem, SizeIsWrong)])
    (ho : Denotes Γ o (.ptr a)) (hself : PtrAt Γ Self self) (hsrc : PtrAt Γ ToInsert src)
    (hnum : Denotes Γ NumElts (.i64 n)) (hfield : PtrAt Γ FieldGEP (E.structGEP S self f))
    (hcount : PtrAt Γ PtrFieldCount (E.structGEP S self countField)) {Λ' : List Nat}
    (hΛ : Λ.Perm (SizeIsRight :: Λ')) :
    Gives F Γ Λ b (sizeIsRight C S f countField Self ToInsert NumElts FieldGEP PtrFieldCount
        SizeIsRight AllocdMem FieldIsNull LoadedField CheckSize ReallocFieldMem SizeIsWrong)
      (Reaches (machine E callee) F Γ pred SizeIsRight
        (returnBool (E.sizeIsRight S f countField self src n a))) := by
  rw [returnBool_eq]
  unfold sizeIsRight Env.sizeIsRight
  simp only [thenReturn_bind, thenReturn_pure, (wf.deref_count hf hr hc).1]
  refine Gives.enter_phi ho hΛ (fun li => ?_) fun li => ?_
  · simp only [List.mem_cons, Prod.mk.injEq, List.not_mem_nil, or_false] at hpred
    rcases hpred with ⟨rfl, rfl⟩ | ⟨rfl, rfl⟩ | ⟨rfl, rfl⟩
    · exact Gives.edge
    · exact Gives.addIncoming Gives.edge
    · exact Gives.addIncoming (Gives.addIncoming Gives.edge)
  · refine Emits.addIncoming (Emits.addIncoming (Emits.addIncoming ?_))
    refine emits_storeI64 (by simp [hnum]) (by simp [hcount]) fun _ => ?_
    refine emits_allocSize hlink wf hf (by simp [hself]) fun FieldAllocSize m => ?_
    refine emits_memcpy (by simp) (by simp [hsrc]) (by simp) fun _ => ?_
    refine emits_store (by simp) (by simp [hfield]) fun _ => ?_
    exact Emits.ret (by simp)

theorem emits_setRepeated (hr : f.isRepeated = true) (hc : S.deref f.countField = some countField)
    (hself : PtrAt Γ Self self) (hsrc : PtrAt Γ ToInsert src) (hnum : Denotes Γ NumElts (.i64 n))
    (hfield : PtrAt Γ FieldGEP (E.structGEP S self f)) :
    Emits (machine E callee) F Γ Λ b (setRepeated C S f countField Self ToInsert NumElts FieldGEP)
      (returnBool (E.setRepeated S f countField self src n)) := by
  have hnum' : I64At Γ NumElts n := ⟨_, hnum, Val.asI64_i64 n⟩
  rw [returnBool_eq]
  unfold setRepeated Env.setRepeated
  simp only [thenReturn_bind, thenReturn_ite, thenReturn_insertNullCheck,
    (wf.deref_count hf hr hc).1]
  refine emits_structGEP self hself fun PtrFieldCount => ?_
  refine emits_load (by simp [hfield]) fun LoadedField v hv => ?_
  obtain ⟨a, rfl⟩ := Env.loadTy_ptr (wf.isPointerTy_repeated hf hr) hv
  simp only [Val.asPtr_ptr]
  refine emits_isNotNull a (by simp) fun FieldNotNull => ?_
  refine Emits.createBlock fun FieldIsNull => Emits.createBlock fun CheckSize => ?_
  show Emits _ _ _ _ _ _ (if a.isNotNull = true then _ else _)
  refine emits_condBr (by simp) (fun _ => ?_) fun _ => ?_
  · -- `CheckSize` is filled after `FieldIsNull`
    refine Gives.setInsertPoint (List.Perm.swap _ _ _) (Gives.emit fun _ => ?_)
    refine gives_getFieldAllocSize fun _ => gives_createCall fun AllocdMem => ?_
    refine gives_insertNullCheck fun SizeIsRight b' => Gives.enter (List.Perm.swap _ _ _) ?_
    refine emits_loadI64 (by simp) fun FieldCount m => ?_
    refine emits_icmpEQ m n (by simp) (by simp [hnum']) fun SizeMatches => ?_
    refine Emits.createBlock fun SizeIsWrong => emits_condBr (by simp) (fun _ => ?_) fun _ => ?_
    · refine Gives.setInsertPoint (List.Perm.refl _) (Gives.emit fun _ => ?_)
      refine gives_getFieldAllocSize fun _ => gives_createCall fun _ => ?_
      refine gives_insertNullCheck_some fun _ => ?_
      refine gives_sizeIsRight hlink wf hf hr hc (o := LoadedField) (by simp) (by simp) ?_ ?_ ?_ ?_
        ?_ (List.Perm.refl _)
      all_goals simp [hself, hsrc, hnum, hfield]
    · refine Gives.enter (List.Perm.refl _) ?_
      refine emits_storeI64 (by simp [hnum]) (by simp) fun _ => ?_
      refine emits_allocSize hlink wf hf (by simp [hself]) fun FieldAllocSize m' => ?_
      refine emits_realloc hlink (by simp) (by simp) fun ReallocFieldMem a' => ?_
      refine emits_insertNullCheck_some (by simp) (by simp) fun _ => ?_
      refine gives_sizeIsRight hlink wf hf hr hc (o := ReallocFieldMem) (by simp) (by simp) ?_ ?_ ?_
        ?_ ?_ (List.Perm.refl _)
      all_goals simp [hself, hsrc, hnum, hfield]
  · refine Gives.enter (List.Perm.swap _ _ _) ?_
    refine emits_storeI64 (by simp [hnum]) (by simp) fun _ => ?_
    refine emits_allocSize hlink wf hf (by simp [hself]) fun FieldAllocSize m => ?_
    refine emits_malloc hlink (by simp) fun AllocdMem a' => ?_
    refine emits_insertNullCheck_gives (by simp) (by simp) fun SizeIsRight b' => ?_
    -- the other ways into `SizeIsRight` are written in between
    refine Gives.setInsertPoint (List.Perm.swap _ _ _) (Gives.emit fun _ => Gives.emit fun _ => ?_)
    refine Gives.createBlock fun SizeIsWrong => Gives.terminate ?_
    refine Gives.setInsertPoint (List.Perm.refl _) (Gives.emit fun _ => ?_)
    refine gives_getFieldAllocSize fun _ => gives_createCall fun _ => ?_
    refine gives_insertNullCheck_some fun _ => ?_
    refine gives_sizeIsRight hlink wf hf hr hc (o := AllocdMem) (by simp) (by simp) ?_ ?_ ?_ ?_ ?_
      (List.Perm.refl _)
    all_goals simp [hself, hsrc, hnum, hfield]

theorem emits_setCount (hcount : f.isCount = true) {countsFor : Field}
    (hc : S.deref f.countsFor = some countsFor) (hself : PtrAt Γ Self self)
    (hto : Denotes Γ ToInsert (.i64 n)) (hfield : PtrAt Γ FieldGEP (E.structGEP S self f)) :
    Emits (machine E callee) F Γ Λ b (setCount C S f countsFor Self ToInsert FieldGEP)
      (returnBool (E.setCount S f countsFor self n)) := by
  obtain ⟨ht, hm⟩ := wf.count_countsFor hf hcount hc
  have hto' : I64At Γ ToInsert n := ⟨_, hto, Val.asI64_i64 n⟩
  rw [returnBool_eq]
  unfold setCount Env.setCount
  simp only [thenReturn_bind, thenReturn_ite, thenReturn_insertNullCheck, thenReturn_pure, ht]
  refine Emits.createBlock fun NewSizeIsZero => Emits.createBlock fun NewSizeIsNotZero => ?_
  refine emits_icmpEQ n 0 hto' (i64At_getInt64 0) fun InputSizeIsZero => ?_
  refine emits_condBr (by simp) (fun _ => ?_) fun _ => ?_
  · exact Gives.enter (List.Perm.swap _ _ _) (Emits.ret_bind (by simp))
  · refine Gives.setInsertPoint (List.Perm.swap _ _ _) (Gives.terminate ?_)
    refine Gives.enter (List.Perm.refl _) ?_
    refine emits_loadI64 (by simp [hfield]) fun LoadedCount m => ?_
    refine emits_storeI64 (by simp [hto]) (by simp [hfield]) fun _ => ?_
    refine emits_structGEP self (by simp [hself]) fun RepeatedFieldGEP => ?_
    refine emits_load (by simp) fun LoadedRepeatedField v hv => ?_
    refine emits_allocSize hlink wf hm (by simp [hself]) fun FieldAllocSize m' => ?_
    refine emits_realloc hlink (by simp) (by simp) fun ReallocFieldMem a => ?_
    refine emits_storeI64 (by simp) (by simp [hfield]) fun _ => ?_
    refine Emits.createBlock fun SizeIsRight => ?_
    refine emits_insertNullCheck_some (by simp) (by simp) fun _ => ?_
    refine Gives.enter (List.Perm.refl _) ?_
    refine emits_store (by simp) (by simp) fun _ => ?_
    exact emits_storeI64 (by simp [hto]) (by simp [hfield]) fun _ => Emits.ret (by simp)

/-- `NumElts` is an argument of the array setter only. -/
theorem emits_getSetter {v : Val} (hself : PtrAt Γ (.arg 0) self) (hto : Denotes Γ (.arg 1) v)
    (hnum : f.isRepeated = true → Denotes Γ (.arg 2) (.i64 n))
    (hint : f.isCount = true → ∃ m : I64, v = .i64 m) :
    Emits (machine E callee) F Γ Λ b (getSetter C S f) (returnBool (E.getSetter S f self v n)) := by
  have hpass : ∀ {x : Prog Bool}, returnBool (Tyr.insertNullCheck [self] false x) =
      Tyr.insertNullCheck [self] (.bool false) (returnBool x) :=
    thenReturn_insertNullCheck _ _ _ _
  unfold getSetter Env.getSetter
  rw [hpass]
  refine emits_insertNullCheck (by simp [hself]) (by simp) fun b' => ?_
  refine emits_structGEP self (by simp [hself]) fun FieldGEP => ?_
  split
  · next hs => exact emits_callSerializer wf hf hs
  split
  · next hr =>
    cases hc : S.deref f.countField with
    | none => exact fun _ _ _ hrun => nomatch hrun
    | some countField =>
      exact emits_setRepeated hlink wf hf hr hc (by simp [hself]) ⟨v, by simp [hto], rfl⟩
        (by simp [hnum hr]) (by simp)
  split
  · next hcount =>
    cases hc : S.deref f.countsFor with
    | none => exact fun _ _ _ hrun => nomatch hrun
    | some countsFor =>
      obtain ⟨m, rfl⟩ := hint hcount
      have hm : BitVec.ofNat 64 (Val.i64 m).asInt = m := Val.asI64_i64 m
      simp only [hm]
      exact emits_setCount hlink wf hf hcount hc (by simp [hself]) (by simp [hto]) (by simp)
  · rw [returnBool_eq]
    simp only [thenReturn_bind, thenReturn_pure]
    exact emits_store (by simp [hto]) (by simp) fun _ => Emits.ret (by simp)

omit hlink in
theorem emits_getItemSetter (hr : f.isRepeated = true) (Self : Ptr) (IDX : I64) (ValToSet : Val) :
    Emits (machine E callee) F [(.arg 0, .ptr Self), (.arg 1, .i64 IDX), (.arg 2, ValToSet)] Λ b
      (getItemSetter S f) (returnBool (E.getItemSetter S f Self IDX ValToSet)) := by
  rw [returnBool_eq]
  unfold getItemSetter Env.getItemSetter
  cases ht : f.type.getPointerElementType with
  | none => exact fun _ _ _ hrun => nomatch hrun
  | some t =>
    cases hc : S.deref f.countField with
    | none => exact fun _ _ _ hrun => nomatch hrun
    | some countField =>
      simp only [thenReturn_insertNullCheck, thenReturn_bind, thenReturn_ite, thenReturn_pure,
        (wf.deref_count hf hr hc).1]
      refine emits_insertNullCheck (by simp) (by simp) fun b' => ?_
      refine emits_structGEP Self (by simp) fun FieldGEP => ?_
      refine emits_load (by simp) fun FieldLoad v hv => ?_
      refine emits_structGEP Self (by simp) fun CountGEP => ?_
      refine emits_loadI64 (by simp) fun Count n => ?_
      refine Emits.createBlock fun OutOfBounds => Emits.createBlock fun InBounds => ?_
      refine emits_icmpULT IDX n (by simp) (by simp) fun IsInBounds => ?_
      refine emits_condBr (by simp) (fun _ => ?_) fun _ => ?_
      · refine Gives.setInsertPoint (List.Perm.swap _ _ _) (Gives.terminate ?_)
        refine Gives.enter (List.Perm.refl _) ?_
        refine emits_gep v.asPtr IDX (by simp) (by simp) fun ItemGEP => ?_
        exact emits_store (by simp) (by simp) fun _ => Emits.ret (by simp)
      · exact Gives.enter (List.Perm.swap _ _ _) (Emits.ret_bind (by simp))

end

/-! ## Field functions -/

/-- The result of a field function. -/
def returnI64 (x : Prog I64) : Prog Val := thenReturn .i64 x

theorem itemGEP_i8 (E : Env) (a : Ptr) (n : I64) : E.itemGEP (.int 8) a n = a.add n := by
  rw [Env.itemGEP, allocSize_i8, BitVec.mul_one]

theorem itemGEP_i8_zero (E : Env) (a : Ptr) : E.itemGEP (.int 8) a 0 = a := by
  rw [itemGEP_i8]
  cases a with
  | null => rfl
  | loc d o => exact congrArg (Ptr.loc d) (BitVec.add_zero o)
  | wild raw => rfl

section

variable (hlink : Links C E callee) (wf : S.WellFormed) (hf : f ∈ S.fields)
include hlink wf hf

theorem emits_fieldSerializer (Self OutBuf : Ptr) :
    Emits (machine E callee) F [(.arg 0, .ptr Self), (.arg 1, .ptr OutBuf)] Λ b
      (fieldSerializer C S f) (returnI64 (E.fieldSerializer S f Self OutBuf)) := by
  have hpass : ∀ {x : Prog I64}, returnI64 (Tyr.insertNullCheck [Self, OutBuf] 0 x) =
      Tyr.insertNullCheck [Self, OutBuf] (.i64 0) (returnI64 x) :=
    thenReturn_insertNullCheck _ _ _ _
  unfold fieldSerializer Env.fieldSerializer
  rw [hpass]
  refine emits_insertNullCheck (by simp) (denotes_getInt64 0) fun b' => ?_
  refine emits_structGEP Self (by simp) fun FieldGEP => ?_
  rw [returnI64, thenReturn_bind]
  refine emits_load (by simp) fun FieldData v hv => ?_
  refine emits_gep OutBuf 0 (by simp) (i64At_getInt64 0) fun CurrentPtr => ?_
  rw [itemGEP_i8_zero]
  split
  · next hs => exact emits_callSerializer wf hf hs
  split
  · next hr =>
    rw [wf.pointee hf hr]
    cases hc : S.deref f.countField with
    | none => exact fun _ _ _ hrun => nomatch hrun
    | some countField =>
      obtain ⟨ht, hr', hm⟩ := wf.deref_count hf hr hc
      simp only [thenReturn_bind, thenReturn_pure, ht]
      refine emits_structGEP Self (by simp) fun CountGEP => ?_
      refine emits_loadI64 (by simp) fun Count n => ?_
      refine emits_swapI64 hlink.layout n (by simp) fun SwappedCount => ?_
      refine emits_storeI64 (by simp) (by simp) fun _ => ?_
      refine emits_allocSize hlink wf hm (by simp) fun OutSize m => ?_
      refine emits_gep OutBuf m (by simp) (by simp) fun CurrentPtr' => ?_
      rw [itemGEP_i8]
      refine emits_allocSize hlink wf hf (by simp) fun PtrFieldAllocSize m' => ?_
      refine emits_memcpy (by simp) (by simp) (by simp) fun _ => ?_
      refine emits_swapArrayBytes hlink.layout (by simp) (by simp) fun b'' => ?_
      exact emits_add m m' (by simp) (by simp) fun OutSize' => Emits.ret (by simp)
  · simp only [thenReturn_bind, thenReturn_pure]
    refine emits_swapBytes hlink.layout (by simp) (fun ht => Env.loadTy_int ht hv)
      fun SwappedData w _ => ?_
    refine emits_allocSize hlink wf hf (by simp) fun OutSize m => ?_
    exact emits_store (by simp) (by simp) fun _ => Emits.ret (by simp)

theorem emits_fieldDeserializer (Self InBuf : Ptr) :
    Emits (machine E callee) F [(.arg 0, .ptr Self), (.arg 1, .ptr InBuf)] Λ b
      (fieldDeserializer C S f) (returnI64 (E.fieldDeserializer S f Self InBuf)) := by
  have hpass : ∀ {x : Prog I64}, returnI64 (Tyr.insertNullCheck [Self, InBuf] 0 x) =
      Tyr.insertNullCheck [Self, InBuf] (.i64 0) (returnI64 x) :=
    thenReturn_insertNullCheck _ _ _ _
  unfold fieldDeserializer Env.fieldDeserializer
  rw [hpass]
  refine emits_insertNullCheck (by simp) (denotes_getInt64 0) fun b' => ?_
  refine emits_gep InBuf 0 (by simp) (i64At_getInt64 0) fun CurrentPtr => ?_
  rw [itemGEP_i8_zero, returnI64]
  split
  · next hs => exact emits_callDeserializer wf hf hs
  split
  · next hs hp =>
    have hr : f.isRepeated = true := wf.isRepeated_of_pointer hf (by simpa using hs) hp
    rw [wf.pointee hf hr]
    cases hc : S.deref f.countField with
    | none => exact fun _ _ _ hrun => nomatch hrun
    | some countField =>
      obtain ⟨ht, hr', hm⟩ := wf.deref_count hf hr hc
      simp only [thenReturn_bind, thenReturn_insertNullCheck, thenReturn_pure, ht]
      refine emits_loadI64 (by simp) fun SwappedCount n => ?_
      refine emits_swapI64 hlink.layout n (by simp) fun Count => ?_
      refine emits_structGEP Self (by simp) fun CountGEP => ?_
      refine emits_storeI64 (by simp) (by simp) fun _ => ?_
      refine emits_allocSize hlink wf hm (by simp) fun OutSize m => ?_
      refine emits_gep InBuf m (by simp) (by simp) fun CurrentPtr' => ?_
      rw [itemGEP_i8]
      refine emits_allocSize hlink wf hf (by simp) fun PtrFieldAllocSize m' => ?_
      refine emits_malloc hlink (by simp) fun FieldMem a => ?_
      refine emits_insertNullCheck (by simp) (denotes_getInt64 0) fun b'' => ?_
      refine emits_memcpy (by simp) (by simp) (by simp) fun _ => ?_
      refine emits_swapArrayBytes hlink.layout (by simp) (by simp) fun b'' => ?_
      refine emits_structGEP Self (by simp) fun FieldGEP => ?_
      refine emits_store (by simp) (by simp) fun _ => ?_
      exact emits_add m m' (by simp) (by simp) fun OutSize' => Emits.ret (by simp)
  · simp only [thenReturn_bind, thenReturn_pure]
    refine emits_load (by simp) fun Loaded v hv => ?_
    refine emits_swapBytes hlink.layout (by simp) (fun ht => Env.loadTy_int ht hv)
      fun FieldData w _ => ?_
    refine emits_allocSize hlink wf hf (by simp) fun OutSize m => ?_
    refine emits_structGEP Self (by simp) fun FieldGEP => ?_
    exact emits_store (by simp) (by simp) fun _ => Emits.ret (by simp)

end

end Llvm

end Tyr
