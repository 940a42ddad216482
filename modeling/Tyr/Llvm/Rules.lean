import Tyr.Llvm.Generate
import Tyr.Lib.Emits
import Tyr.CodeGen.Target
import Tyr.Access.Calls

/-
  The rules of `Tyr.Lib.Emits` for the instructions and for the parts generators share.

  `Links C E callee`: what the emitted code calls does what `E` says. The rules then turn builder
  calls into the programs of `Tyr.CodeGen`: `emits_getFieldAllocSize`, `emits_insertNullCheck`,
  `emits_swapBytes`, `emits_swapArrayBytes`.
-/

namespace Tyr

open Prog

theorem Prog.bind_assoc {α β γ : Type} (x : Prog α) (f : α → Prog β) (g : β → Prog γ) :
    x >>= f >>= g = x >>= fun a => f a >>= g := by
  funext h
  simp only [Bind.bind]
  cases x h <;> rfl

/-! ## Results as register values -/

/-- The result of `x`, as a register value. -/
def thenReturn {α : Type} (g : α → Val) (x : Prog α) : Prog Val := do
  let a ← x
  pure (g a)

section ThenReturn

variable {α β : Type} (g : α → Val)

theorem returnBool_eq : returnBool = thenReturn .bool := rfl

theorem returnPtr_eq : returnPtr = thenReturn .ptr := rfl

theorem returnVoid_eq : returnVoid = thenReturn fun _ => .int 0 := rfl

theorem thenReturn_bind (x : Prog β) (f : β → Prog α) :
    thenReturn g (x >>= f) = x >>= fun a => thenReturn g (f a) := Prog.bind_assoc _ _ _

theorem thenReturn_pure (a : α) : thenReturn g (pure a) = pure (g a) := rfl

theorem thenReturn_ite (p : Prop) [Decidable p] (x y : Prog α) :
    thenReturn g (if p then x else y) = if p then thenReturn g x else thenReturn g y :=
  apply_ite _ _ _ _

theorem thenReturn_insertNullCheck (Ptrs : List Ptr) (ReturnFail : α) (IsNotNull : Prog α) :
    thenReturn g (insertNullCheck Ptrs ReturnFail IsNotNull) =
      insertNullCheck Ptrs (g ReturnFail) (thenReturn g IsNotNull) := thenReturn_ite g _ _ _

end ThenReturn

/-- An integer of a register's width. -/
theorem Env.loadTy_i64 (E : Env) (p : Ptr) :
    E.loadTy (.int 64) p = E.loadI64 p >>= fun n => pure (.i64 n) := by
  unfold loadTy loadI64
  rw [Prog.bind_assoc]
  simp only [decode_i64, DataLayout.storeSize_i64]
  rfl

theorem Env.storeTy_i64 (E : Env) (n : I64) (p : Ptr) :
    E.storeTy (.int 64) (.i64 n) p = E.storeI64 n p := by
  have hencode : E.encode (.int 64) (.i64 n) = E.encodeI64 n := by
    unfold encode encodeI64 Val.i64
    simp only [DataLayout.storeSize_i64]
    exact congrArg _ (Nat.mod_eq_of_lt n.isLt)
  unfold storeTy storeI64
  rw [hencode]

/-- What a load of a type that is no pointer gives. -/
theorem Env.loadTy_int {E : Env} {t : Ty} {p : Ptr} (ht : t.isPointerTy = false) {v : Val}
    (hv : (E.loadTy t p).Returns v) : ∃ n, v = .int n := by
  obtain ⟨h, h', hrun⟩ := hv
  obtain ⟨cs, h₁, -, hp⟩ := bind_eq_ok hrun
  cases hp
  unfold decode
  rw [ht]
  exact ⟨_, rfl⟩

namespace Llvm

open Ssa Builder

/-- What the emitted code calls does what `E` says. -/
structure Links (C : Context) (E : Env) (callee : String → List Val → Nat → Part Val) : Prop where
  layout : C.layout = E.layout
  malloc : ∀ n, Runs (callee C.malloc [n]) (returnPtr (Tyr.malloc E.alloc n.asI64))
  realloc : ∀ p n, Runs (callee C.realloc [p, n])
    (returnPtr (Tyr.realloc E.alloc p.asPtr n.asI64))
  free : ∀ p, Runs (callee C.free [p]) (returnVoid (Tyr.free p.asPtr))

/-- The operand is worth the pointer `a`. -/
def PtrAt (Γ : Facts Val) (o : Value) (a : Ptr) : Prop := ∃ v, Denotes Γ o v ∧ v.asPtr = a

def I64At (Γ : Facts Val) (o : Value) (n : I64) : Prop := ∃ v, Denotes Γ o v ∧ v.asI64 = n

section Facts

variable {Γ Γ' : Facts Val} {o o' : Value} {v : Val} {a : Ptr} {n : I64}

@[simp] theorem ptrAt_cons : PtrAt ((o', v) :: Γ) o a ↔ o = o' ∧ v.asPtr = a ∨ PtrAt Γ o a := by
  simp only [PtrAt, denotes_cons, or_and_right, exists_or]
  refine or_congr ⟨?_, ?_⟩ Iff.rfl
  · rintro ⟨_, ⟨rfl, rfl⟩, h⟩
    exact ⟨rfl, h⟩
  · rintro ⟨rfl, h⟩
    exact ⟨_, ⟨rfl, rfl⟩, h⟩

@[simp] theorem i64At_cons : I64At ((o', v) :: Γ) o n ↔ o = o' ∧ v.asI64 = n ∨ I64At Γ o n := by
  simp only [I64At, denotes_cons, or_and_right, exists_or]
  refine or_congr ⟨?_, ?_⟩ Iff.rfl
  · rintro ⟨_, ⟨rfl, rfl⟩, h⟩
    exact ⟨rfl, h⟩
  · rintro ⟨rfl, h⟩
    exact ⟨_, ⟨rfl, rfl⟩, h⟩

@[simp] theorem i64At_getInt64 (n : Nat) : I64At Γ (getInt64 n) (BitVec.ofNat 64 n) :=
  ⟨_, denotes_const, Val.asI64_i64 _⟩

@[simp] theorem denotes_getInt64 (n : Nat) :
    Denotes Γ (getInt64 n) (.i64 (BitVec.ofNat 64 n)) := denotes_const

@[simp] theorem denotes_getInt1 (b : Bool) : Denotes Γ (getInt1 b) (.bool b) := denotes_const

@[simp] theorem denotes_nullPointer : Denotes Γ nullPointer (.ptr .null) := denotes_const

theorem PtrAt.mono (h : PtrAt Γ o a) (hsub : Γ ⊆ Γ') : PtrAt Γ' o a := by
  obtain ⟨v, hv, ha⟩ := h
  exact ⟨v, hv.mono hsub, ha⟩

end Facts

section Rules

variable {E : Env} {callee : String → List Val → Nat → Part Val} {F : Code Op Val}
  {Γ : Facts Val} {Λ : List Nat} {b : Nat} {α : Type} {k : Value → IRBuilder α} {c : Prog Val}
  {p q x y : Value} {v : Val} {a a' : Ptr} {n m : I64}

/-! ## Instructions -/

theorem emits_load {t : Ty} {c : Val → Prog Val} (hp : PtrAt Γ p a)
    (hk : ∀ r w, (E.loadTy t a).Returns w →
      Emits (machine E callee) F ((r, w) :: Γ) Λ b (k r) (c w)) :
    Emits (machine E callee) F Γ Λ b (createLoad t p >>= k) (E.loadTy t a >>= c) := by
  obtain ⟨v, hp, rfl⟩ := hp
  refine Emits.op (g := id) (.cons hp .nil) ?_ hk
  rw [show (E.loadTy t v.asPtr >>= fun a => pure (id a)) = E.loadTy t v.asPtr from ?_]
  · exact Runs.const _
  · funext h
    simp only [Bind.bind]
    cases E.loadTy t v.asPtr h <;> rfl

theorem emits_loadI64 {c : I64 → Prog Val} (hp : PtrAt Γ p a)
    (hk : ∀ r n, Emits (machine E callee) F ((r, .i64 n) :: Γ) Λ b (k r) (c n)) :
    Emits (machine E callee) F Γ Λ b (createLoad (.int 64) p >>= k) (E.loadI64 a >>= c) := by
  obtain ⟨v, hp, rfl⟩ := hp
  refine Emits.op (g := Val.i64) (.cons hp .nil) ?_ fun r n _ => hk r n
  rw [← E.loadTy_i64]
  exact Runs.const _

theorem emits_store {t : Ty} (hx : Denotes Γ x v) (hp : PtrAt Γ p a)
    (hk : ∀ r, Emits (machine E callee) F ((r, .int 0) :: Γ) Λ b (k r) c) :
    Emits (machine E callee) F Γ Λ b (createStore t x p >>= k)
      (E.storeTy t v a >>= fun _ => c) := by
  obtain ⟨w, hp, rfl⟩ := hp
  exact Emits.op (g := fun _ => Val.int 0) (.cons hx (.cons hp .nil)) (Runs.const _)
    fun r _ _ => hk r

theorem emits_storeI64 (hx : Denotes Γ x (.i64 n)) (hp : PtrAt Γ p a)
    (hk : ∀ r, Emits (machine E callee) F ((r, .int 0) :: Γ) Λ b (k r) c) :
    Emits (machine E callee) F Γ Λ b (createStore (.int 64) x p >>= k)
      (E.storeI64 n a >>= fun _ => c) := by
  rw [← E.storeTy_i64]
  exact emits_store hx hp hk

theorem emits_structGEP {S : Struct} {f : Field} (a : Ptr) (hp : PtrAt Γ p a)
    (hk : ∀ r, Emits (machine E callee) F ((r, .ptr (E.structGEP S a f)) :: Γ) Λ b (k r) c) :
    Emits (machine E callee) F Γ Λ b (createStructGEP S p f >>= k) c := by
  obtain ⟨v, hp, rfl⟩ := hp
  exact Emits.pure_op (.cons hp .nil) (Runs.pure _) hk

theorem emits_gep {t : Ty} (a : Ptr) (n : I64) (hp : PtrAt Γ p a) (hx : I64At Γ x n)
    (hk : ∀ r, Emits (machine E callee) F ((r, .ptr (E.itemGEP t a n)) :: Γ) Λ b (k r) c) :
    Emits (machine E callee) F Γ Λ b (createGEP t p x >>= k) c := by
  obtain ⟨v, hp, rfl⟩ := hp
  obtain ⟨w, hx, rfl⟩ := hx
  exact Emits.pure_op (.cons hp (.cons hx .nil)) (Runs.pure _) hk

theorem emits_mul (m n : I64) (hx : I64At Γ x m) (hy : I64At Γ y n)
    (hk : ∀ r, Emits (machine E callee) F ((r, .i64 (m * n)) :: Γ) Λ b (k r) c) :
    Emits (machine E callee) F Γ Λ b (createMul x y >>= k) c := by
  obtain ⟨v, hx, rfl⟩ := hx
  obtain ⟨w, hy, rfl⟩ := hy
  exact Emits.pure_op (.cons hx (.cons hy .nil)) (Runs.pure _) hk

theorem emits_add (m n : I64) (hx : I64At Γ x m) (hy : I64At Γ y n)
    (hk : ∀ r, Emits (machine E callee) F ((r, .i64 (m + n)) :: Γ) Λ b (k r) c) :
    Emits (machine E callee) F Γ Λ b (createAdd x y >>= k) c := by
  obtain ⟨v, hx, rfl⟩ := hx
  obtain ⟨w, hy, rfl⟩ := hy
  exact Emits.pure_op (.cons hx (.cons hy .nil)) (Runs.pure _) hk

theorem emits_icmpEQ (m n : I64) (hx : I64At Γ x m) (hy : I64At Γ y n)
    (hk : ∀ r, Emits (machine E callee) F ((r, .bool (m = n)) :: Γ) Λ b (k r) c) :
    Emits (machine E callee) F Γ Λ b (createICmpEQ x y >>= k) c := by
  obtain ⟨v, hx, rfl⟩ := hx
  obtain ⟨w, hy, rfl⟩ := hy
  exact Emits.pure_op (.cons hx (.cons hy .nil)) (Runs.pure _) hk

theorem emits_icmpULT (m n : I64) (hx : I64At Γ x m) (hy : I64At Γ y n)
    (hk : ∀ r, Emits (machine E callee) F ((r, .bool (m < n)) :: Γ) Λ b (k r) c) :
    Emits (machine E callee) F Γ Λ b (createICmpULT x y >>= k) c := by
  obtain ⟨v, hx, rfl⟩ := hx
  obtain ⟨w, hy, rfl⟩ := hy
  exact Emits.pure_op (.cons hx (.cons hy .nil)) (Runs.pure _) hk

theorem emits_isNotNull (a : Ptr) (hp : PtrAt Γ p a)
    (hk : ∀ r, Emits (machine E callee) F ((r, .bool a.isNotNull) :: Γ) Λ b (k r) c) :
    Emits (machine E callee) F Γ Λ b (createIsNotNull p >>= k) c := by
  obtain ⟨v, hp, rfl⟩ := hp
  exact Emits.pure_op (.cons hp .nil) (Runs.pure _) hk

theorem emits_memcpy {i j : Nat} (hp : PtrAt Γ p a) (hq : PtrAt Γ q a') (hx : I64At Γ x n)
    (hk : ∀ r, Emits (machine E callee) F ((r, .int 0) :: Γ) Λ b (k r) c) :
    Emits (machine E callee) F Γ Λ b (createMemCpy p i q j x >>= k)
      (memcpy a a' n >>= fun _ => c) := by
  obtain ⟨u, hp, rfl⟩ := hp
  obtain ⟨v, hq, rfl⟩ := hq
  obtain ⟨w, hx, rfl⟩ := hx
  exact Emits.op (g := fun _ => Val.int 0) (.cons hp (.cons hq (.cons hx .nil))) (Runs.const _)
    fun r _ _ => hk r

/-- A branch on a comparison. -/
theorem emits_condBr {P : Prop} [Decidable P] {t e : Nat} {c₁ c₂ : Prog Val}
    {k : Unit → IRBuilder α} (hx : Denotes Γ x (.bool P))
    (ht : P → Gives F Γ Λ b (k ()) (Reaches (machine E callee) F Γ b t c₁))
    (he : ¬ P → Gives F Γ Λ b (k ()) (Reaches (machine E callee) F Γ b e c₂)) :
    Emits (machine E callee) F Γ Λ b (condBr x t e >>= k) (if P then c₁ else c₂) := by
  have htrue : (machine E callee).isTrue (.bool P) = decide P := Val.isTrue_bool _
  have h := Emits.condBr (M := machine E callee) (F := F) (c := c₁) (d := c₂) hx
    (fun h => ht (of_decide_eq_true (htrue ▸ h))) fun h => he (of_decide_eq_false (htrue ▸ h))
  rw [htrue] at h
  simpa only [decide_eq_true_eq] using h

section Calls

variable {C : Context}

theorem emits_call {β : Type} {prog : Prog β} {g : β → Val} {c : β → Prog Val} {name : String}
    {args : List Value} {vs : List Val} (hvs : List.Forall₂ (Denotes Γ) args vs)
    (hcall : C.hasFunction name = true → Runs (callee name vs) (thenReturn g prog))
    (hk : ∀ r a, Emits (machine E callee) F ((r, g a) :: Γ) Λ b (k r) (c a)) :
    Emits (machine E callee) F Γ Λ b (createCall C name args >>= k) (prog >>= c) := by
  unfold createCall
  split
  · next h => exact Emits.op hvs (hcall h) fun r a _ => hk r a
  · exact Emits.fail

variable (hlink : Links C E callee)
include hlink

theorem emits_malloc {c : Ptr → Prog Val} (hx : I64At Γ x n)
    (hk : ∀ r a, Emits (machine E callee) F ((r, .ptr a) :: Γ) Λ b (k r) (c a)) :
    Emits (machine E callee) F Γ Λ b (createCall C C.malloc [x] >>= k)
      (malloc E.alloc n >>= c) := by
  obtain ⟨v, hx, rfl⟩ := hx
  exact emits_call (.cons hx .nil) (fun _ => hlink.malloc v) hk

theorem emits_realloc {c : Ptr → Prog Val} (hp : PtrAt Γ p a) (hx : I64At Γ x n)
    (hk : ∀ r a, Emits (machine E callee) F ((r, .ptr a) :: Γ) Λ b (k r) (c a)) :
    Emits (machine E callee) F Γ Λ b (createCall C C.realloc [p, x] >>= k)
      (realloc E.alloc a n >>= c) := by
  obtain ⟨v, hp, rfl⟩ := hp
  obtain ⟨w, hx, rfl⟩ := hx
  exact emits_call (.cons hp (.cons hx .nil)) (fun _ => hlink.realloc v w) hk

theorem emits_free (hp : PtrAt Γ p a)
    (hk : ∀ r, Emits (machine E callee) F ((r, .int 0) :: Γ) Λ b (k r) c) :
    Emits (machine E callee) F Γ Λ b (createCall C C.free [p] >>= k) (free a >>= fun _ => c) := by
  obtain ⟨v, hp, rfl⟩ := hp
  exact emits_call (.cons hp .nil) (fun _ => hlink.free v) fun r _ => hk r

end Calls

/-! ## Null checks -/

theorem runs_or (e e' : Bool) :
    Runs ((machine E callee).eval .or [.bool e, .bool e']) (pure (.bool (e || e'))) := by
  cases e <;> cases e' <;> exact Runs.pure _

theorem emits_orNotNull {ps : List Value} {as : List Ptr} {e : Bool}
    (hps : List.Forall₂ (PtrAt Γ) ps as) (hx : Denotes Γ x (.bool e))
    (hk : ∀ r, Emits (machine E callee) F ((r, .bool (e || as.any Ptr.isNotNull)) :: Γ) Λ b (k r)
      c) : Emits (machine E callee) F Γ Λ b (orNotNull x ps >>= k) c := by
  induction ps generalizing as x e Γ with
  | nil =>
    cases hps
    exact Emits.of_denotes (by rwa [List.any_nil, Bool.or_false]) (hk x)
  | cons p ps ih =>
    obtain ⟨a, as, hp, hrest, rfl⟩ := List.forall₂_cons_left_iff.mp hps
    unfold orNotNull
    rw [Builder.bind_assoc]
    refine emits_isNotNull a hp fun r => ?_
    rw [Builder.bind_assoc]
    refine Emits.pure_op (.cons (hx.cons _) (.cons denotes_head .nil)) (runs_or _ _) fun r' => ?_
    have hsub : ∀ e e' : Value × Val, Γ ⊆ e :: e' :: Γ := fun _ _ =>
      List.subset_cons_of_subset _ (List.subset_cons_self _ _)
    refine ih (hrest.imp fun _ _ h => h.mono (hsub _ _)) denotes_head fun r'' => ?_
    rw [Bool.or_assoc]
    exact (hk r'').mono (List.cons_subset_cons _ (hsub _ _))

/-- The branch of a null check, with the failing block next to be filled. -/
theorem emits_branchNull {l IsNull : Nat} {Λ' : List Nat} {r fail : Value} {as : List Ptr}
    {k : Nat → IRBuilder α} (hr : Denotes Γ r (.bool (as.any Ptr.isNotNull)))
    (hfail : Denotes Γ fail v) (hΛ : Λ'.Perm (IsNull :: Λ))
    (hk : Gives F Γ Λ IsNull (k l) (Reaches (machine E callee) F Γ b l c)) :
    Emits (machine E callee) F Γ Λ' b
      (condBr r l IsNull >>= fun _ =>
        (setInsertPoint IsNull >>= fun _ => ret fail >>= fun _ => pure l) >>= k)
      (Tyr.insertNullCheck as v c) := by
  have h := Emits.condBr (M := machine E callee) (F := F) (Λ := Λ') (b := b) (c := c)
    (d := pure v) (t := l) (e := IsNull)
    (k := fun _ => (setInsertPoint IsNull >>= fun _ => ret fail >>= fun _ => pure l) >>= k) hr
    (fun _ => by
      rw [Builder.bind_assoc]
      refine Gives.setInsertPoint hΛ ?_
      rw [Builder.bind_assoc]
      exact Gives.terminate hk)
    (fun _ => by
      rw [Builder.bind_assoc]
      refine Gives.enter hΛ ?_
      rw [Builder.bind_assoc]
      exact Emits.ret_bind hfail)
  have htrue : (machine E callee).isTrue (.bool (as.any Ptr.isNotNull)) = as.any Ptr.isNotNull :=
    Val.isTrue_bool _
  rwa [htrue] at h

section NullCheck

variable {ps : List Value} {as : List Ptr} {fail : Value} (hps : List.Forall₂ (PtrAt Γ) ps as)
  (hfail : Denotes Γ fail v)
include hps hfail

/-- A null check that goes on in a new block. -/
theorem emits_insertNullCheck_gives {k : Nat → IRBuilder α}
    (hk : ∀ l b', Gives F Γ (l :: Λ) b' (k l) (Reaches (machine E callee) F Γ b l c)) :
    Emits (machine E callee) F Γ Λ b (insertNullCheck ps fail none >>= k)
      (Tyr.insertNullCheck as v c) := by
  cases hps with
  | nil => exact Emits.fail
  | cons hp hps =>
    unfold insertNullCheck
    rw [Builder.bind_assoc]
    refine emits_isNotNull _ hp fun r => ?_
    rw [Builder.bind_assoc]
    refine emits_orNotNull (hps.imp fun _ _ h => h.mono (List.subset_cons_self _ _)) denotes_head
      fun r' => Emits.forget_second ?_
    rw [Builder.bind_assoc]
    refine Emits.createBlock fun IsNull => ?_
    rw [Builder.bind_assoc]
    refine Emits.createBlock fun l => ?_
    rw [Builder.bind_assoc]
    exact emits_branchNull denotes_head (hfail.cons _) (List.Perm.swap _ _ _)
      (((hk l IsNull).mono fun h => h.mono (List.subset_cons_self _ _)).weaken
        (List.subset_cons_self _ _))

/-- A null check that goes on in a block that is there. -/
theorem emits_insertNullCheck_some {k : Nat → IRBuilder α} {l : Nat}
    (hk : ∀ b', Gives F Γ Λ b' (k l) (Reaches (machine E callee) F Γ b l c)) :
    Emits (machine E callee) F Γ Λ b (insertNullCheck ps fail (some l) >>= k)
      (Tyr.insertNullCheck as v c) := by
  cases hps with
  | nil => exact Emits.fail
  | cons hp hps =>
    unfold insertNullCheck
    rw [Builder.bind_assoc]
    refine emits_isNotNull _ hp fun r => ?_
    rw [Builder.bind_assoc]
    refine emits_orNotNull (hps.imp fun _ _ h => h.mono (List.subset_cons_self _ _)) denotes_head
      fun r' => Emits.forget_second ?_
    rw [Builder.bind_assoc]
    refine Emits.createBlock fun IsNull => ?_
    rw [Builder.bind_assoc, Builder.pure_bind, Builder.bind_assoc]
    exact emits_branchNull denotes_head (hfail.cons _) (List.Perm.refl _)
      (((hk IsNull).mono fun h => h.mono (List.subset_cons_self _ _)).weaken
        (List.subset_cons_self _ _))

/-- A null check followed by the code for its success. -/
theorem emits_insertNullCheck {k : Unit → IRBuilder α}
    (hk : ∀ b', Emits (machine E callee) F Γ Λ b' (k ()) c) :
    Emits (machine E callee) F Γ Λ b
      (insertNullCheck ps fail none >>= fun l => setInsertPoint l >>= k)
      (Tyr.insertNullCheck as v c) :=
  emits_insertNullCheck_gives hps hfail fun l _ => Gives.enter (List.Perm.refl _) (hk l)

end NullCheck

/-! ## What the shared parts leave to be written -/

section Gives

variable {P : Prop} {C : Context}

theorem gives_createCall {name : String} {args : List Value}
    (hk : ∀ r, Gives F Γ Λ b (k r) P) : Gives F Γ Λ b (createCall C name args >>= k) P := by
  unfold createCall
  split
  · exact Gives.emit hk
  · exact Gives.fail

theorem gives_getFieldAllocSize {S : Struct} {f : Field} (hk : ∀ r, Gives F Γ Λ b (k r) P) :
    Gives F Γ Λ b (getFieldAllocSize C S f p >>= k) P := by
  unfold getFieldAllocSize
  split
  · split
    · simp only [Builder.bind_assoc]
      exact Gives.emit fun _ => Gives.emit fun _ => Gives.emit hk
    · exact Gives.fail
  · exact hk _

theorem gives_orNotNull {ps : List Value} (hk : ∀ r, Gives F Γ Λ b (k r) P) :
    Gives F Γ Λ b (orNotNull x ps >>= k) P := by
  induction ps generalizing x with
  | nil => exact hk x
  | cons p ps ih =>
    unfold orNotNull
    simp only [Builder.bind_assoc]
    exact Gives.emit fun _ => Gives.emit fun _ => ih

theorem gives_insertNullCheck {ps : List Value} {fail : Value} {k : Nat → IRBuilder α}
    (hk : ∀ l b', Gives F Γ (l :: Λ) b' (k l) P) :
    Gives F Γ Λ b (insertNullCheck ps fail none >>= k) P := by
  cases ps with
  | nil => exact Gives.fail
  | cons p ps =>
    unfold insertNullCheck
    simp only [Builder.bind_assoc]
    refine Gives.emit fun _ => gives_orNotNull fun _ => Gives.createBlock fun IsNull => ?_
    exact Gives.createBlock fun l => Gives.terminate
      (Gives.setInsertPoint (List.Perm.swap _ _ _) (Gives.terminate (hk l IsNull)))

theorem gives_insertNullCheck_some {ps : List Value} {fail : Value} {k : Nat → IRBuilder α}
    {l : Nat} (hk : ∀ b', Gives F Γ Λ b' (k l) P) :
    Gives F Γ Λ b (insertNullCheck ps fail (some l) >>= k) P := by
  cases ps with
  | nil => exact Gives.fail
  | cons p ps =>
    unfold insertNullCheck
    simp only [Builder.bind_assoc, Builder.pure_bind]
    refine Gives.emit fun _ => gives_orNotNull fun _ => Gives.createBlock fun IsNull => ?_
    exact Gives.terminate (Gives.setInsertPoint (List.Perm.refl _) (Gives.terminate (hk IsNull)))

end Gives

/-! ## Sizes and byte order -/

section Layout

variable {C : Context} (hlayout : C.layout = E.layout)
include hlayout

theorem emits_getFieldAllocSize {S : Struct} {f : Field} {c : I64 → Prog Val}
    (hcount : ∀ cf, f.isRepeated = true → S.deref f.countField = some cf → cf.type = .int 64)
    (hp : PtrAt Γ p a)
    (hk : ∀ r n, Emits (machine E callee) F ((r, .i64 n) :: Γ) Λ b (k r) (c n)) :
    Emits (machine E callee) F Γ Λ b (getFieldAllocSize C S f p >>= k)
      (E.getFieldAllocSize S f a >>= c) := by
  unfold getFieldAllocSize Env.getFieldAllocSize
  rw [hlayout]
  split
  · next hr =>
    cases ht : f.type.getPointerElementType with
    | none => exact Emits.fail
    | some t =>
      cases hcf : S.deref f.countField with
      | none => exact Emits.fail
      | some cf =>
        simp only [Builder.bind_assoc, Prog.bind_assoc, hcount cf hr hcf]
        refine emits_structGEP a hp fun r => emits_loadI64 (by simp) fun r' n => ?_
        refine emits_mul _ n (i64At_getInt64 _) (by simp) fun r'' => ?_
        exact (hk r'' _).forget_second.forget_second
  · exact Emits.of_denotes (denotes_getInt64 _) (hk _ _)

omit hlayout in
theorem runs_bswap {n : Nat} (h : n % 16 = 0) (i : Nat) :
    Runs ((machine E callee).eval (.bswap n) [.int i]) (pure (.int (Env.bswap (n / 8) i))) := by
  have heval : (machine E callee).eval (.bswap n) [.int i] =
      fun _ => pure (.int (Env.bswap (n / 8) i)) := funext fun _ => if_pos h
  rw [heval]
  exact Runs.pure _

omit hlayout in
theorem runs_bswap_fault {bits : Nat} (h : ¬ bits % 16 = 0) (v : Val) :
    Runs ((machine E callee).eval (.bswap bits) [v]) (fault .invalid) := by
  have heval : (machine E callee).eval (.bswap bits) [v] = fun _ => Part.fault .invalid :=
    funext fun _ => if_neg h
  rw [heval]
  exact Runs.fault _

theorem emits_swapBytes {t : Ty} {c : Val → Prog Val} (hx : Denotes Γ x v)
    (hv : t.isPointerTy = false → ∃ i, v = .int i)
    (hk : ∀ r w, (E.swapBytes t v).Returns w →
      Emits (machine E callee) F ((r, w) :: Γ) Λ b (k r) (c w)) :
    Emits (machine E callee) F Γ Λ b (swapBytes C t x >>= k) (E.swapBytes t v >>= c) := by
  have hpure : ∀ w, E.swapBytes t v = pure w → (E.swapBytes t v).Returns w := fun w he =>
    he ▸ ⟨⟨[], 0⟩, _, rfl⟩
  unfold swapBytes
  unfold Env.swapBytes at hk hpure ⊢
  rw [hlayout]
  split
  · next h =>
    rw [if_pos h] at hpure
    exact Emits.of_denotes hx (hk x v (by rw [if_pos h]; exact hpure v rfl))
  · next h =>
    rw [if_neg h] at hk hpure
    cases t with
    | ptr t => exact Emits.fail
    | struct i name => exact Emits.fail
    | float =>
      obtain ⟨i, rfl⟩ := hv rfl
      exact Emits.pure_op (.cons hx .nil) (runs_bswap (n := 32) (by decide) i) fun r =>
        hk r _ (hpure _ rfl)
    | double =>
      obtain ⟨i, rfl⟩ := hv rfl
      exact Emits.pure_op (.cons hx .nil) (runs_bswap (n := 64) (by decide) i) fun r =>
        hk r _ (hpure _ rfl)
    | int bits =>
      obtain ⟨i, rfl⟩ := hv rfl
      dsimp only at hk hpure ⊢
      split
      · next h8 => exact Emits.of_denotes hx (hk x _ (hpure _ (if_pos h8)))
      · next h8 =>
        rw [if_neg h8] at hk hpure
        split
        · next h16 =>
          exact Emits.pure_op (.cons hx .nil) (runs_bswap h16 i) fun r =>
            hk r _ (hpure _ (if_pos h16))
        · next h16 =>
          refine Emits.op (p := (fault .invalid : Prog Val)) (g := id) (.cons hx .nil)
            (runs_bswap_fault h16 _) fun r w hw => ?_
          obtain ⟨_, _, hw⟩ := hw
          cases hw

omit hlayout in
theorem swapBytes_i64 (E : Env) (n : I64) :
    E.swapBytes (.int 64) (.i64 n) = pure (.i64 (E.swapI64 n)) := by
  have hlt : Env.bswap 8 n.toNat < 2 ^ 64 := by
    have h := ofLE_lt (toLE 8 n.toNat).reverse
    rwa [List.length_reverse, length_toLE] at h
  unfold Env.swapBytes Env.swapI64
  cases E.layout.bigEndian with
  | false => rfl
  | true =>
    show pure (Val.int (Env.bswap 8 n.toNat)) = pure (Val.int (BitVec.ofNat 64 _).toNat)
    rw [BitVec.toNat_ofNat, Nat.mod_eq_of_lt hlt]

theorem emits_swapI64 (n : I64) (hx : Denotes Γ x (.i64 n))
    (hk : ∀ r, Emits (machine E callee) F ((r, .i64 (E.swapI64 n)) :: Γ) Λ b (k r) c) :
    Emits (machine E callee) F Γ Λ b (swapBytes C (.int 64) x >>= k) c := by
  have h := emits_swapBytes (F := F) (Λ := Λ) (b := b) (k := k)
    (c := fun _ => c) hlayout (t := .int 64) hx (fun _ => ⟨_, rfl⟩) fun r w hw => by
      rw [swapBytes_i64] at hw
      exact hw.pure ▸ hk r
  rwa [swapBytes_i64] at h

omit hlayout in
/-- The loop; its PHI is the index, which goes up to `n - 1`. -/
theorem emits_swapLoop {t : Ty} (bits : Nat) {k : Unit → IRBuilder α} (ht : t.isPointerTy = false)
    (hswap : ∀ i, E.swapBytes t (.int i) =
      if bits % 16 = 0 then pure (.int (Env.bswap (bits / 8) i)) else fault .invalid)
    (hp : PtrAt Γ p a) (hx : I64At Γ x n)
    (hk : ∀ l, Emits (machine E callee) F Γ Λ l (k ()) c) :
    Emits (machine E callee) F Γ Λ b (swapLoop t bits p x >>= k)
      (E.swapLoop t a n 0 >>= fun _ => c) := by
  unfold swapLoop
  simp only [Builder.bind_assoc]
  refine Emits.getInsertBlock (Emits.createBlock fun loop => Emits.createBlock fun next => ?_)
  refine Emits.br ?_
  refine Gives.loop (L := fun v => E.swapLoop t a n v.asI64 >>= fun _ => c)
    (μ := fun v => (n - 1 - v.asI64).toNat) (v := .i64 0) (denotes_getInt64 0)
    (List.Perm.swap _ _ _) (fun li => Gives.edge) fun li v ih => Emits.addIncoming ?_
  generalize hi : v.asI64 = i at ih ⊢
  rw [Env.swapLoop]
  simp only [Prog.bind_assoc]
  refine emits_gep a i (by simp [hp]) (by simp [hi]) fun r => emits_load (by simp) fun r' w hw => ?_
  obtain ⟨j, rfl⟩ := Env.loadTy_int ht hw
  rw [hswap]
  split
  · next h16 =>
    refine Emits.pure_op (.cons denotes_head .nil) (runs_bswap h16 j) fun r₁ => ?_
    show Emits _ _ _ _ _ _ (E.storeTy t (.int (Env.bswap (bits / 8) j)) (E.itemGEP t a i) >>= _)
    refine emits_store denotes_head (by simp) fun r₂ => ?_
    refine emits_add 1 i (i64At_getInt64 1) (by simp [hi]) fun r₃ => ?_
    refine emits_icmpEQ (1 + i) n (by simp) (by simp [hx]) fun r₄ => ?_
    have htail : ((if _h : i + 1 = n then pure () else E.swapLoop t a n (i + 1)) >>= fun _ => c) =
        if 1 + i = n then c else E.swapLoop t a n (Val.i64 (1 + i)).asI64 >>= fun _ => c := by
      rw [Val.asI64_i64, BitVec.add_comm 1 i]
      by_cases hend : i + 1 = n
      · rw [dif_pos hend, if_pos hend]
        rfl
      · rw [dif_neg hend, if_neg hend]
    rw [htail]
    refine emits_condBr denotes_head (fun _ => Gives.addIncoming (Gives.enter (List.Perm.refl _)
      ((hk next).mono fun e he => by simp [he]))) fun hne => Gives.edge.mono fun hmem =>
        ih r₃ (.i64 (1 + i)) _ ?_ (fun e he => by simp [he]) (by simp) hmem
    rw [Val.asI64_i64]
    bv_omega
  · next h16 =>
    refine Emits.op (p := (fault .invalid : Prog Val)) (g := id) (.cons denotes_head .nil)
      (runs_bswap_fault h16 _) fun r w hw => ?_
    obtain ⟨_, _, hw⟩ := hw
    cases hw

theorem emits_swapArrayBytes {t : Ty} {k : Unit → IRBuilder α} (hp : PtrAt Γ p a)
    (hx : I64At Γ x n) (hk : ∀ l, Emits (machine E callee) F Γ Λ l (k ()) c) :
    Emits (machine E callee) F Γ Λ b (swapArrayBytes C t p x >>= k)
      (E.swapArrayBytes t a n >>= fun _ => c) := by
  unfold swapArrayBytes Env.swapArrayBytes
  rw [hlayout]
  split
  · exact hk b
  · next hbig =>
    have hswap : ∀ i, E.swapBytes t (.int i) = _ := fun i => if_neg hbig
    cases t with
    | ptr t => exact Emits.fail
    | struct i name => exact Emits.fail
    | float => exact emits_swapLoop 32 rfl hswap hp hx hk
    | double => exact emits_swapLoop 64 rfl hswap hp hx hk
    | int bits =>
      dsimp only at hswap ⊢
      split
      · exact hk b
      · next h8 =>
        exact emits_swapLoop _ rfl (fun i => (hswap i).trans (if_neg h8)) hp hx hk

end Layout

end Rules

end Llvm

end Tyr
