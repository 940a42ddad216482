import Tyr.Llvm.Fields

/-
  The blocks of a struct's functions run as its functions.

  The loops over the fields are unrolled by the generator, so each is an induction on the fields.
  `serialize_S` and `deserialize_S` call the field functions by name; `LinksFields` says that these
  calls do what `E` says.
-/

namespace Tyr

open Prog

namespace Llvm

open Ssa Builder

/-- The calls of the functions of the fields of `S`. -/
structure LinksFields (C : Context) (E : Env) (S : Struct)
    (callee : String → List Val → Nat → Part Val) : Prop where
  serializer : ∀ f ∈ S.fields, f.isCount = false → ∀ Self OutBuf : Ptr,
    Runs (callee (getSerializerName f) [.ptr Self, .ptr OutBuf])
      (returnI64 (E.fieldSerializer S f Self OutBuf))
  deserializer : ∀ f ∈ S.fields, f.isCount = false → ∀ Self InBuf : Ptr,
    Runs (callee (getDeserializerName f) [.ptr Self, .ptr InBuf])
      (returnI64 (E.fieldDeserializer S f Self InBuf))

variable {E : Env} {callee : String → List Val → Nat → Part Val} {F : Code Op Val}
  {Γ : Facts Val} {Λ : List Nat} {b : Nat} {C : Context} {S : Struct}
  (hlink : Links C E callee) (wf : S.WellFormed)

/-! ## Constructor and destructor -/

section Fields

variable {p : Value} {a : Ptr}
include hlink wf

theorem emits_initField {f : Field} (hf : f ∈ S.fields) {x : Option Value} {v : Val}
    {k : Bool → IRBuilder Unit} {next : Prog Ptr} (hp : PtrAt Γ p a)
    (hx : f.isMutable = false → ∃ o, x = some o ∧ Denotes Γ o v)
    (hk : ∀ b' r, Emits (machine E callee) F Γ Λ b' (k r) (returnPtr next)) :
    Emits (machine E callee) F Γ Λ b (initField C S f p x >>= k)
      (returnPtr (E.initField S f a v next)) := by
  rw [returnPtr_eq] at hk ⊢
  unfold initField Env.initField
  split
  · rw [thenReturn_bind]
    simp only [Builder.bind_assoc, Builder.pure_bind]
    refine emits_structGEP a hp fun FieldGEP => ?_
    exact emits_store denotes_const (by simp) fun _ => (hk b true).mono fun e he => by simp [he]
  · next hm =>
    obtain ⟨o, rfl, ho⟩ := hx (by simpa using hm)
    dsimp only
    split
    · simp only [Builder.bind_assoc, Builder.pure_bind, thenReturn_bind,
        thenReturn_insertNullCheck]
      refine emits_allocSize hlink wf hf hp fun FieldAllocSize n => ?_
      refine emits_malloc hlink (by simp) fun AllocdMem d => ?_
      refine emits_insertNullCheck (by simp) (by simp) fun b' => ?_
      refine emits_memcpy (by simp) ⟨v, by simp [ho], rfl⟩ (by simp) fun _ => ?_
      refine emits_structGEP a (by simp [hp]) fun FieldGEP => ?_
      exact emits_store (by simp) (by simp) fun _ => (hk b' true).mono fun e he => by simp [he]
    · rw [thenReturn_bind]
      simp only [Builder.bind_assoc, Builder.pure_bind]
      refine emits_structGEP a hp fun FieldGEP => ?_
      exact emits_store (by simp [ho]) (by simp) fun _ => (hk b true).mono fun e he => by simp [he]

/-- The arguments from number `i` on are those of the fields that are left. -/
theorem emits_initFields {fs : List Field} (hfs : ∀ f ∈ fs, f ∈ S.fields) {args : List Val}
    {i : Nat} (hlen : (fs.filter (!·.isMutable)).length = args.length) (hp : Denotes Γ p (.ptr a))
    (hargs : ∀ (j : Nat) v, args[j]? = some v → Denotes Γ (.arg (i + j)) v) :
    Emits (machine E callee) F Γ Λ b (initFields C S p fs i >>= fun _ => ret p)
      (returnPtr (E.initFields S a fs args)) := by
  induction fs generalizing args i b with
  | nil => exact Emits.ret hp
  | cons f fs ih =>
    have hsub : ∀ g ∈ fs, g ∈ S.fields := fun g hg => hfs g (List.mem_cons_of_mem f hg)
    have hf := hfs f List.mem_cons_self
    have hself : PtrAt Γ p a := ⟨_, hp, rfl⟩
    unfold initFields Env.initFields
    cases hm : f.isMutable with
    | true =>
      simp only [Bool.not_true, Bool.false_eq_true, if_false, if_true, Builder.bind_assoc]
      have hlen' : (fs.filter (!·.isMutable)).length = args.length := by simpa [hm] using hlen
      refine emits_initField hlink wf hf hself (fun h => ?_) fun b' _ => ih hsub hlen' hargs
      rw [hm] at h
      cases h
    | false =>
      cases args with
      | nil => simp [hm] at hlen
      | cons v args =>
        simp only [Bool.not_false, Bool.false_eq_true, if_false, if_true, Builder.bind_assoc]
        have hlen' : (fs.filter (!·.isMutable)).length = args.length := by simpa [hm] using hlen
        refine emits_initField hlink wf hf hself (fun _ => ⟨_, rfl, hargs 0 v rfl⟩) fun b' _ =>
          ih hsub hlen' fun j w hw => ?_
        rw [Nat.add_assoc, Nat.add_comm 1 j]
        exact hargs (j + 1) w hw

theorem emits_getConstructor {args : List Val}
    (hlen : (S.fields.filter (!·.isMutable)).length = args.length) :
    Emits (machine E callee) F (argFacts args) Λ b (getConstructor C S)
      (returnPtr (E.getConstructor S args)) := by
  rw [returnPtr_eq]
  unfold getConstructor Env.getConstructor
  simp only [thenReturn_bind, thenReturn_insertNullCheck]
  rw [hlink.layout]
  refine emits_malloc hlink (i64At_getInt64 _) fun StructOut a => ?_
  refine emits_insertNullCheck (by simp) (by simp) fun b' => ?_
  refine emits_initFields hlink wf (fun f hf => hf) hlen denotes_head fun j v hv => ?_
  rw [Nat.zero_add]
  exact (denotes_arg hv).cons _

omit wf in
theorem emits_destroyFields {fs : List Field} {k : Unit → IRBuilder Unit} {c : Prog Val}
    (hp : PtrAt Γ p a) (hk : Emits (machine E callee) F Γ Λ b (k ()) c) :
    Emits (machine E callee) F Γ Λ b (destroyFields C S p fs >>= k)
      (E.destroyFields S a fs >>= fun _ => c) := by
  induction fs with
  | nil => exact hk
  | cons f fs ih =>
    unfold destroyFields destroyField Env.destroyFields Env.destroyField
    simp only [Builder.bind_assoc, Prog.bind_assoc]
    refine emits_structGEP a hp fun FieldGEP => ?_
    split
    · simp only [Builder.bind_assoc, Builder.pure_bind, Prog.bind_assoc]
      refine emits_load (by simp) fun FieldLoad v hv => ?_
      exact emits_free hlink (by simp) fun _ => ih.mono fun e he => by simp [he]
    · exact ih.mono fun e he => by simp [he]

omit wf in
theorem emits_getDestructor (Self : Ptr) :
    Emits (machine E callee) F [(.arg 0, .ptr Self)] Λ b (getDestructor C S)
      (returnVoid (E.getDestructor S Self)) := by
  rw [returnVoid_eq]
  unfold getDestructor Env.getDestructor
  rw [thenReturn_bind]
  exact emits_destroyFields hlink (by simp)
    (emits_free (k := fun _ => ret _) hlink (by simp) fun _ => Emits.ret denotes_const)

end Fields

/-! ## Serializer and deserializer -/

section Wire

variable {p q x : Value} {a d : Ptr} {n : I64}

include hlink wf in
theorem emits_sumAllocSizes {fs : List Field} (hfs : ∀ f ∈ fs, f ∈ S.fields)
    {k : Value → IRBuilder Unit} {c : I64 → Prog Val} (hp : PtrAt Γ p a)
    (hx : Denotes Γ x (.i64 n))
    (hk : ∀ r m, Emits (machine E callee) F ((r, .i64 m) :: Γ) Λ b (k r) (c m)) :
    Emits (machine E callee) F Γ Λ b (sumAllocSizes C S p fs x >>= k)
      (E.sumAllocSizes S a fs n >>= c) := by
  induction fs generalizing x n Γ with
  | nil => exact Emits.of_denotes hx (hk x n)
  | cons f fs ih =>
    unfold sumAllocSizes Env.sumAllocSizes
    simp only [Builder.bind_assoc, Prog.bind_assoc]
    refine emits_allocSize hlink wf (hfs f List.mem_cons_self) hp fun r m => ?_
    refine emits_add n m ⟨_, hx.cons _, Val.asI64_i64 n⟩ (by simp) fun r' => ?_
    have hsub : ∀ g ∈ fs, g ∈ S.fields := fun g hg => hfs g (List.mem_cons_of_mem f hg)
    refine ih hsub (by simp [hp]) (by simp) fun r'' m' => ?_
    exact (hk r'' m').mono fun e he => by
      rcases List.mem_cons.mp he with rfl | he
      · simp
      · simp [he]

variable (hcalls : LinksFields C E S callee) (hfun : E.Resolves S)
include hcalls hfun

theorem emits_serializeEntries {fs : List Field} (hfs : ∀ f ∈ fs, f ∈ S.fields)
    {k : Unit → IRBuilder Unit} {c : Prog Val} (hp : Denotes Γ p (.ptr a)) (hq : PtrAt Γ q d)
    (hx : I64At Γ x n) (hk : Emits (machine E callee) F Γ Λ b (k ()) c) :
    Emits (machine E callee) F Γ Λ b (serializeEntries C p q fs x >>= k)
      (E.serializeEntries S a d fs n >>= fun _ => c) := by
  induction fs generalizing x n Γ with
  | nil => exact hk
  | cons f fs ih =>
    have hf := hfs f List.mem_cons_self
    have hsub : ∀ g ∈ fs, g ∈ S.fields := fun g hg => hfs g (List.mem_cons_of_mem f hg)
    unfold serializeEntries Env.serializeEntries
    split
    · exact ih hsub hp hq hx hk
    · next hc =>
      have hc' : f.isCount = false := by simpa using hc
      simp only [hfun.serializer hf hc', Builder.bind_assoc, Prog.bind_assoc]
      refine emits_gep d n hq hx fun CurrentPtr => ?_
      rw [itemGEP_i8]
      refine emits_call (g := Val.i64) (.cons (hp.cons _) (.cons denotes_head .nil))
        (fun _ => hcalls.serializer f hf hc' a (d.add n)) fun OutSize m => ?_
      refine emits_add n m (by simp [hx]) (by simp) fun r => ?_
      exact ih hsub (by simp [hp]) (by simp [hq]) (by simp) (hk.mono fun e he => by simp [he])

theorem emits_deserializeEntries {fs : List Field} (hfs : ∀ f ∈ fs, f ∈ S.fields)
    {k : Unit → IRBuilder Unit} {c : Prog Val} (hp : PtrAt Γ p a) (hq : Denotes Γ q (.ptr d))
    (hx : I64At Γ x n) (hk : Emits (machine E callee) F Γ Λ b (k ()) c) :
    Emits (machine E callee) F Γ Λ b (deserializeEntries C p q fs x >>= k)
      (E.deserializeEntries S a d fs n >>= fun _ => c) := by
  induction fs generalizing x n Γ with
  | nil => exact hk
  | cons f fs ih =>
    have hf := hfs f List.mem_cons_self
    have hsub : ∀ g ∈ fs, g ∈ S.fields := fun g hg => hfs g (List.mem_cons_of_mem f hg)
    unfold deserializeEntries Env.deserializeEntries
    split
    · exact ih hsub hp hq hx hk
    · next hc =>
      have hc' : f.isCount = false := by simpa using hc
      simp only [hfun.deserializer hf hc', Builder.bind_assoc, Prog.bind_assoc]
      refine emits_gep a n hp hx fun CurrentPtr => ?_
      rw [itemGEP_i8]
      refine emits_call (g := Val.i64) (.cons (hq.cons _) (.cons denotes_head .nil))
        (fun _ => hcalls.deserializer f hf hc' d (a.add n)) fun OutSize m => ?_
      refine emits_add n m (by simp [hx]) (by simp) fun r => ?_
      exact ih hsub (by simp [hp]) (by simp [hq]) (by simp) (hk.mono fun e he => by simp [he])

include hlink wf

theorem emits_getSerializer (Self : Ptr) :
    Emits (machine E callee) F [(.arg 0, .ptr Self)] Λ b (getSerializer C S)
      (returnPtr (E.getSerializer S Self)) := by
  have hdrop : returnPtr (E.getSerializer S Self) =
      thenReturn (fun r => .ptr r.1) (E.serializeWithIDX S Self) := Prog.bind_assoc _ _ _
  rw [hdrop]
  unfold getSerializer Env.serializeWithIDX
  simp only [thenReturn_insertNullCheck, thenReturn_bind, thenReturn_pure]
  refine emits_insertNullCheck (by simp) (by simp) fun b' => ?_
  refine emits_sumAllocSizes hlink wf (fun f hf => hf) (by simp) (denotes_getInt64 8)
    fun AllocSize m => ?_
  refine emits_malloc hlink (by simp) fun AllocdMem d => ?_
  refine emits_insertNullCheck (by simp) (by simp) fun b'' => ?_
  refine emits_swapI64 hlink.layout m (by simp) fun SwappedSize => ?_
  refine emits_storeI64 (by simp) (by simp) fun _ => ?_
  exact emits_serializeEntries hcalls hfun (fun f hf => hf) (by simp) (by simp) (i64At_getInt64 8)
    (Emits.ret (by simp))

theorem emits_getDeserializer (SerializedSelf : Ptr) :
    Emits (machine E callee) F [(.arg 0, .ptr SerializedSelf)] Λ b (getDeserializer C S)
      (returnPtr (E.getDeserializer S SerializedSelf)) := by
  rw [returnPtr_eq]
  unfold getDeserializer Env.getDeserializer
  simp only [thenReturn_insertNullCheck, thenReturn_bind, thenReturn_ite, thenReturn_pure,
    hlink.layout]
  refine emits_loadI64 (by simp) fun Header n => ?_
  refine emits_swapI64 hlink.layout n (by simp) fun SerializedSize => ?_
  refine emits_insertNullCheck (by simp) (by simp) fun b' => ?_
  refine emits_malloc hlink (i64At_getInt64 _) fun StructOut d => ?_
  refine emits_insertNullCheck (by simp) (by simp) fun b'' => ?_
  refine emits_deserializeEntries hcalls hfun (fun f hf => hf) (by simp) (by simp)
    (i64At_getInt64 8) ?_
  refine emits_sumAllocSizes hlink wf (fun f hf => hf) (by simp) (denotes_getInt64 8)
    fun AllocSize m => ?_
  refine emits_icmpEQ (E.swapI64 n) m (by simp) (by simp) fun CheckSize => ?_
  refine Emits.createBlock fun SizeIsRight => Emits.createBlock fun SizeIsWrong => ?_
  refine emits_condBr (by simp) (fun _ => ?_) fun _ => ?_
  · refine Gives.setInsertPoint (List.Perm.refl _) (Gives.terminate ?_)
    exact Gives.enter (List.Perm.refl _) (Emits.ret (by simp))
  · exact Gives.enter (List.Perm.refl _) (Emits.ret_bind (by simp))

end Wire

end Llvm

end Tyr
