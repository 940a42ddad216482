import Tyr.Lib.Ssa

/-
  Rules for the code a builder emits.

  `Emits M F Γ Λ b m c`: in every function `F` that holds what `m` writes from block `b` on, a run
  from there is the program `c`, where `Γ` says what the operands are worth and `Λ` lists empty
  blocks still to be filled. The rules follow the builder's calls: one for each instruction, and at
  a branch one obligation for each target, `Gives`, on the calls that come after. `Gives.loop` is
  for a block that branches back to itself. `Emits.call` is the conclusion: a call of the function
  is the program.
-/

namespace Tyr

namespace Ssa

open Builder

variable {O V α β : Type}

/-! ## What is known at a point -/

abbrev Facts (V : Type) := List (Operand V × V)

/-- The operand has the value `v`. -/
def Denotes (Γ : Facts V) (o : Operand V) (v : V) : Prop := o = .const v ∨ (o, v) ∈ Γ

section Facts

variable {Γ Γ' : Facts V} {ρ : Regs V} {o : Operand V} {v : V} {n : Nat}

@[simp] theorem denotes_const : Denotes Γ (.const v) v := Or.inl rfl

theorem denotes_head : Denotes ((o, v) :: Γ) o v := Or.inr List.mem_cons_self

@[simp] theorem denotes_cons {o' : Operand V} {v' : V} :
    Denotes ((o', v') :: Γ) o v ↔ o = o' ∧ v = v' ∨ Denotes Γ o v := by
  unfold Denotes
  rw [List.mem_cons, Prod.mk.injEq]
  tauto

theorem Denotes.cons (h : Denotes Γ o v) (e : Operand V × V) : Denotes (e :: Γ) o v :=
  h.imp_right (List.mem_cons_of_mem e)

theorem Denotes.mono (h : Denotes Γ o v) (hsub : Γ ⊆ Γ') : Denotes Γ' o v :=
  h.imp_right fun h => hsub h

def Regs.Knows (ρ : Regs V) (Γ : Facts V) : Prop := ∀ e ∈ Γ, ρ.eval e.1 = some e.2

theorem Regs.Knows.mono (h : ρ.Knows Γ') (hsub : Γ ⊆ Γ') : ρ.Knows Γ := fun e he => h e (hsub he)

theorem Regs.Knows.eval (h : ρ.Knows Γ) (hv : Denotes Γ o v) : ρ.eval o = some v := by
  rcases hv with rfl | hmem
  · rfl
  · exact h _ hmem

theorem Regs.Knows.evalAll (h : ρ.Knows Γ) {os : List (Operand V)} {vs : List V}
    (hvs : List.Forall₂ (Denotes Γ) os vs) : ρ.evalAll os = some vs := by
  unfold Regs.evalAll
  induction hvs with
  | nil => rfl
  | cons hv _ ih => simp only [List.mapM_cons, h.eval hv, ih]; rfl

/-- The register, if it is one, has been given out. -/
def Operand.Below : Operand V → Nat → Prop
  | .reg n, k => n < k
  | _, _ => True

theorem Operand.Below.mono {k k' : Nat} (h : o.Below k) (hle : k ≤ k') : o.Below k' := by
  cases o with
  | reg n => exact Nat.lt_of_lt_of_le h hle
  | const _ => trivial
  | arg _ => trivial

/-- A new register does not disturb what is known. -/
theorem Regs.Knows.set (h : ρ.Knows Γ) (hbelow : ∀ e ∈ Γ, e.1.Below n) (v : V) :
    (ρ.set n v).Knows ((.reg n, v) :: Γ) := by
  intro e he
  rcases List.mem_cons.mp he with rfl | he
  · simp [Regs.eval, Regs.set]
  · have hb := hbelow e he
    have hk := h e he
    cases ho : e.1 with
    | const w => rw [ho] at hk; exact hk
    | arg i => rw [ho] at hk; exact hk
    | reg k =>
      rw [ho] at hb hk
      have hne : k ≠ n := Nat.ne_of_lt hb
      simpa [Regs.eval, Regs.set, hne] using hk

end Facts

/-- The builder is at block `b`, what `Γ` speaks of is defined, and the blocks `Λ` are empty. -/
structure State.Meets (s : State O V) (Γ : Facts V) (Λ : List Nat) (b : Nat) : Prop where
  block : s.block = b
  below : ∀ e ∈ Γ, e.1.Below s.nextReg
  fresh : ∀ l ∈ Λ, s.blocks[l]? = some []
  nodup : (b :: Λ).Nodup

namespace State.Meets

variable {s s' : State O V} {Γ Γ' : Facts V} {Λ Λ' : List Nat} {b l n : Nat}

theorem mono (h : s.Meets Γ' Λ b) (hsub : Γ ⊆ Γ') : s.Meets Γ Λ b :=
  ⟨h.block, fun e he => h.below e (hsub he), h.fresh, h.nodup⟩

theorem append (h : s.Meets Γ Λ b) (i : Inst O V) (hn : s.nextReg ≤ n) :
    (s.append i n).Meets Γ Λ b where
  block := h.block
  below e he := (h.below e he).mono hn
  fresh l hl := by
    have hne : s.block ≠ l := by
      rintro rfl
      exact (List.nodup_cons.mp h.nodup).1 (h.block ▸ hl)
    simp only [State.append, List.getElem?_modify, h.fresh l hl]
    simp [hne]
  nodup := h.nodup

theorem cons (h : s.Meets Γ Λ b) {o : Operand V} (ho : o.Below s.nextReg) (v : V) :
    s.Meets ((o, v) :: Γ) Λ b :=
  ⟨h.block, List.forall_mem_cons.mpr ⟨ho, h.below⟩, h.fresh, h.nodup⟩

theorem createBlock (h : s.Meets Γ Λ b) (hrun : Builder.createBlock.run s = some (l, s')) :
    s'.Meets Γ (l :: Λ) b := by
  cases hrun
  have hlt : ∀ k ∈ Λ, k < s.blocks.length := fun k hk =>
    (List.getElem?_eq_some_iff.mp (h.fresh k hk)).1
  obtain ⟨hb, hΛ⟩ := List.nodup_cons.mp h.nodup
  refine ⟨h.block, h.below, List.forall_mem_cons.mpr ⟨by simp, fun k hk => ?_⟩, ?_⟩
  · rw [List.getElem?_append_left (hlt k hk), h.fresh k hk]
  · have hne : b ≠ s.blocks.length := Nat.ne_of_lt (h.block ▸ s.block_lt)
    simp only [List.nodup_cons, List.mem_cons, not_or]
    exact ⟨⟨hne, hb⟩, fun hk => Nat.lt_irrefl _ (hlt _ hk), hΛ⟩

theorem addIncoming (h : s.Meets Γ Λ b) {o : Operand V} {p : Nat} {u : Unit}
    (hrun : (Builder.addIncoming n o p).run s = some (u, s')) : s'.Meets Γ Λ b := by
  simp only [Builder.addIncoming] at hrun
  split at hrun
  · cases hrun
  · cases hrun
    exact ⟨h.block, h.below, h.fresh, h.nodup⟩

theorem setInsertPoint (h : s.Meets Γ Λ b) (hΛ : Λ.Perm (l :: Λ')) {u : Unit}
    (hrun : (Builder.setInsertPoint l).run s = some (u, s')) :
    s'.Meets Γ Λ' l ∧ s'.blocks[s'.block]? = some [] := by
  have hl : s.blocks[l]? = some [] := h.fresh l (hΛ.mem_iff.mpr List.mem_cons_self)
  have hnodup : (l :: Λ').Nodup := hΛ.nodup_iff.mp (List.nodup_cons.mp h.nodup).2
  simp only [Builder.setInsertPoint] at hrun
  split at hrun
  · cases hrun
    exact ⟨⟨rfl, h.below, fun k hk => h.fresh k (hΛ.mem_iff.mpr (List.mem_cons_of_mem l hk)),
      hnodup⟩, hl⟩
  · cases hrun

end State.Meets

/-! ## The judgements -/

section Judgements

variable (M : Machine O V) (F : Code O V)

/-- Entering block `l` from `pred` with these facts is `c`. -/
def Reaches (Γ : Facts V) (pred l : Nat) (c : Prog V) : Prop :=
  ∀ ρ, ρ.Knows Γ → Runs (fun n => exec M F n pred l ρ) c

/-- What `m` writes makes `P` true of `F`. -/
def Gives (Γ : Facts V) (Λ : List Nat) (b : Nat) (m : Builder O V α) (P : Prop) : Prop :=
  ∀ s a s', m.run s = some (a, s') → s'.toCode.Le F → s.Meets Γ Λ b → P

/-- From where `m` begins to write, a run is `c`. -/
def Emits (Γ : Facts V) (Λ : List Nat) (b : Nat) (m : Builder O V α) (c : Prog V) : Prop :=
  ∀ s a s', m.run s = some (a, s') → s'.toCode.Le F → s.Meets Γ Λ b →
    ∀ ρ, ρ.Knows Γ → ∀ pred entry,
      Runs (fun n => runFrom M F n (exec M F n b) pred entry (s.rest F) ρ) c

end Judgements

variable {M : Machine O V} {F : Code O V} {Γ Γ' : Facts V} {Λ Λ' : List Nat} {b l : Nat}

theorem Reaches.mono {pred : Nat} {c : Prog V} (h : Reaches M F Γ pred l c) (hsub : Γ ⊆ Γ') :
    Reaches M F Γ' pred l c := fun ρ hρ => h ρ (hρ.mono hsub)

/-! ## Rules for what is written later -/

namespace Gives

variable {P : Prop}

theorem mono {m : Builder O V α} {Q : Prop} (h : Gives F Γ Λ b m P) (hPQ : P → Q) :
    Gives F Γ Λ b m Q := fun s a s' hrun hle hs => hPQ (h s a s' hrun hle hs)

theorem weaken {m : Builder O V α} (h : Gives F Γ Λ b m P) (hsub : Γ ⊆ Γ') : Gives F Γ' Λ b m P :=
  fun s a s' hrun hle hs => h s a s' hrun hle (hs.mono hsub)

theorem fail {k : α → Builder O V β} : Gives F Γ Λ b (Builder.fail >>= k) P := by
  intro s a s' hrun
  obtain ⟨_, _, h, -⟩ := bind_eq_some hrun
  cases h

theorem emit {o : O} {args : List (Operand V)} {k : Operand V → Builder O V β}
    (hk : ∀ r, Gives F Γ Λ b (k r) P) : Gives F Γ Λ b (emit o args >>= k) P := by
  intro s a s' hrun hle hs
  obtain ⟨_, _, h, hrun⟩ := bind_eq_some hrun
  cases h
  exact hk _ _ _ _ hrun hle (hs.append _ (Nat.le_succ _))

theorem terminate {i : Inst O V} {k : Unit → Builder O V β} (hk : Gives F Γ Λ b (k ()) P) :
    Gives F Γ Λ b (terminate i >>= k) P := by
  intro s a s' hrun hle hs
  obtain ⟨_, _, h, hrun⟩ := bind_eq_some hrun
  cases h
  exact hk _ _ _ hrun hle (hs.append _ (Nat.le_refl _))

theorem createBlock {k : Nat → Builder O V β} (hk : ∀ l, Gives F Γ (l :: Λ) b (k l) P) :
    Gives F Γ Λ b (createBlock >>= k) P := by
  intro s a s' hrun hle hs
  obtain ⟨l, s₁, h, hrun⟩ := bind_eq_some hrun
  exact hk l _ _ _ hrun hle (hs.createBlock h)

theorem setInsertPoint {k : Unit → Builder O V β} (hΛ : Λ.Perm (l :: Λ'))
    (hk : Gives F Γ Λ' l (k ()) P) : Gives F Γ Λ b (setInsertPoint l >>= k) P := by
  intro s a s' hrun hle hs
  obtain ⟨_, s₁, h, hrun⟩ := bind_eq_some hrun
  exact hk _ _ _ hrun hle (hs.setInsertPoint hΛ h).1

theorem addIncoming {n p : Nat} {o : Operand V} {k : Unit → Builder O V β}
    (hk : Gives F Γ Λ b (k ()) P) : Gives F Γ Λ b (addIncoming n o p >>= k) P := by
  intro s a s' hrun hle hs
  obtain ⟨_, s₁, h, hrun⟩ := bind_eq_some hrun
  exact hk _ _ _ hrun hle (hs.addIncoming h)

/-- The edge that is added. -/
theorem edge {n p : Nat} {o : Operand V} {k : Unit → Builder O V β} :
    Gives F Γ Λ b (Builder.addIncoming n o p >>= k) (⟨n, p, o⟩ ∈ F.edges) := by
  intro s a s' hrun hle hs
  obtain ⟨u, s₁, h, hrun⟩ := bind_eq_some hrun
  have hle₁ := ((k u).grows hrun).trans hle
  simp only [Builder.addIncoming] at h
  split at h
  · cases h
  · cases h
    exact hle₁.edges _ (List.mem_append_right _ List.mem_cons_self)

end Gives

/-! ## Entering a block -/

theorem block_of_empty {s : State O V} (hs : s.blocks[s.block]? = some [])
    (hle : s.toCode.Le F) : F.blocks[s.block]? = some (s.rest F) := by
  obtain ⟨js, hjs⟩ := hle.blocks _ _ hs
  simp [State.rest, List.getD_eq_getElem?_getD, hs, hjs]

theorem runs_of_block {is : List (Inst O V)} {pred : Nat} {ρ : Regs V} {c : Prog V}
    (hblock : F.blocks[l]? = some is)
    (h : Runs (fun n => runFrom M F n (exec M F n l) pred ρ is ρ) c) :
    Runs (fun n => exec M F n pred l ρ) c :=
  Runs.succ (by simpa only [exec, hblock] using h)

namespace Gives

/-- The block that is filled next. -/
theorem enter {k : Unit → Builder O V β} {c : Prog V} {pred : Nat} (hΛ : Λ.Perm (l :: Λ'))
    (hk : Emits M F Γ Λ' l (k ()) c) :
    Gives F Γ Λ b (Builder.setInsertPoint l >>= k) (Reaches M F Γ pred l c) := by
  intro s a s' hrun hle hs ρ hρ
  obtain ⟨u, s₁, h, hrun⟩ := bind_eq_some hrun
  obtain ⟨hs₁, hempty⟩ := hs.setInsertPoint hΛ h
  have hblock := block_of_empty hempty (((k u).grows hrun).trans hle)
  rw [hs₁.block] at hblock
  exact runs_of_block hblock (hk _ _ _ hrun hle hs₁ ρ hρ pred ρ)

/-- A block with a PHI that may branch back to itself, with a measure of its operand that goes
    down. -/
theorem loop {K : Nat → Builder O V β} {μ : V → Nat} {L : V → Prog V} {pred : Nat}
    {o : Operand V} {v : V} (hv : Denotes Γ o v) (hΛ : Λ.Perm (l :: Λ'))
    (hedge : ∀ n, Gives F Γ Λ' l (K n) (⟨n, pred, o⟩ ∈ F.edges))
    (hbody : ∀ n v, (∀ o' v' Γ', μ v' < μ v → Γ ⊆ Γ' → Denotes Γ' o' v' → ⟨n, l, o'⟩ ∈ F.edges →
        Reaches M F Γ' l l (L v')) → Emits M F ((.reg n, v) :: Γ) Λ' l (K n) (L v)) :
    Gives F Γ Λ b (Builder.setInsertPoint l >>= fun _ => phi >>= K)
      (Reaches M F Γ pred l (L v)) := by
  intro s a s' hrun hle hs
  obtain ⟨_, s₁, h, hrun⟩ := bind_eq_some hrun
  obtain ⟨hs₁, hempty⟩ := hs.setInsertPoint hΛ h
  obtain ⟨n, s₂, h₂, hrun⟩ := bind_eq_some hrun
  have hle₂ := ((K n).grows hrun).trans hle
  have hblock := block_of_empty hempty ((phi.grows h₂).trans hle₂)
  cases h₂
  rw [hs₁.block, s₁.rest_append hle₂] at hblock
  have hs₂ := hs₁.append (.phi s₁.nextReg) (Nat.le_succ _)
  -- the measure bounds how often the block is still entered
  have hall : ∀ k v, μ v < k → ∀ pred o, ⟨s₁.nextReg, pred, o⟩ ∈ F.edges → ∀ ρ, ρ.Knows Γ →
      ρ.eval o = some v → Runs (fun n => exec M F n pred l ρ) (L v) := by
    intro k
    induction k with
    | zero => exact fun v hlt => absurd hlt (Nat.not_lt_zero _)
    | succ k ih =>
      intro v hlt pred o hmem ρ hρ ho
      have hemits := hbody s₁.nextReg v fun o' v' Γ' hless hsub hv' hmem' ρ' hρ' =>
        ih v' (by omega) l o' hmem' ρ' (hρ'.mono hsub) (hρ'.eval hv')
      have hrest := hemits _ _ _ hrun hle (hs₂.cons (Nat.lt_succ_self _) v) (ρ.set s₁.nextReg v)
        (hρ.set hs₁.below v) pred ρ
      refine runs_of_block hblock ?_
      simpa only [runFrom, Code.edge_of_mem hmem, Option.bind_some, ho] using hrest
  exact fun ρ hρ => hall _ v (Nat.lt_succ_self _) pred o (hedge _ _ _ _ hrun hle hs₂) ρ hρ
    (hρ.eval hv)

/-- A block with a PHI. -/
theorem enter_phi {K : Nat → Builder O V β} {c : Prog V} {pred : Nat} {o : Operand V} {v : V}
    (hv : Denotes Γ o v) (hΛ : Λ.Perm (l :: Λ'))
    (hedge : ∀ n, Gives F Γ Λ' l (K n) (⟨n, pred, o⟩ ∈ F.edges))
    (hk : ∀ n, Emits M F ((.reg n, v) :: Γ) Λ' l (K n) c) :
    Gives F Γ Λ b (Builder.setInsertPoint l >>= fun _ => phi >>= K)
      (Reaches M F Γ pred l c) := by
  intro s a s' hrun hle hs ρ hρ
  obtain ⟨_, s₁, h, hrun⟩ := bind_eq_some hrun
  obtain ⟨hs₁, hempty⟩ := hs.setInsertPoint hΛ h
  obtain ⟨n, s₂, h₂, hrun⟩ := bind_eq_some hrun
  have hle₂ := ((K n).grows hrun).trans hle
  have hblock := block_of_empty hempty ((phi.grows h₂).trans hle₂)
  cases h₂
  rw [hs₁.block, s₁.rest_append hle₂] at hblock
  have hs₂ := hs₁.append (.phi s₁.nextReg) (Nat.le_succ _)
  have hrest := hk _ _ _ _ hrun hle (hs₂.cons (Nat.lt_succ_self _) v) (ρ.set s₁.nextReg v)
    (hρ.set hs₁.below v) pred ρ
  refine runs_of_block hblock ?_
  simpa only [runFrom, Code.edge_of_mem (hedge _ _ _ _ hrun hle hs₂), Option.bind_some,
    hρ.eval hv] using hrest

end Gives

/-! ## Rules for what is written now -/

namespace Emits

variable {c : Prog V}

theorem mono {m : Builder O V α} (h : Emits M F Γ Λ b m c) (hsub : Γ ⊆ Γ') :
    Emits M F Γ' Λ b m c := fun s a s' hrun hle hs ρ hρ =>
  h s a s' hrun hle (hs.mono hsub) ρ (hρ.mono hsub)

theorem forget_second {m : Builder O V α} {e e' : Operand V × V}
    (h : Emits M F (e :: Γ) Λ b m c) : Emits M F (e :: e' :: Γ) Λ b m c :=
  h.mono (List.cons_subset_cons e (List.subset_cons_self e' Γ))

/-- What a constant is worth need not be listed. -/
theorem of_const {m : Builder O V α} {v : V} (h : Emits M F ((.const v, v) :: Γ) Λ b m c) :
    Emits M F Γ Λ b m c := fun s a s' hrun hle hs ρ hρ =>
  h s a s' hrun hle (hs.cons (o := .const v) trivial v) ρ (List.forall_mem_cons.mpr ⟨rfl, hρ⟩)

theorem of_denotes {m : Builder O V α} {o : Operand V} {v : V} (ho : Denotes Γ o v)
    (h : Emits M F ((o, v) :: Γ) Λ b m c) : Emits M F Γ Λ b m c := by
  rcases ho with rfl | hmem
  · exact of_const h
  · exact h.mono (List.cons_subset.mpr ⟨hmem, List.Subset.refl Γ⟩)

theorem fail {k : α → Builder O V β} : Emits M F Γ Λ b (Builder.fail >>= k) c := by
  intro s a s' hrun
  obtain ⟨_, _, h, -⟩ := bind_eq_some hrun
  cases h

theorem op {o : O} {args : List (Operand V)} {vs : List V} {p : Prog β} {g : β → V}
    {c : β → Prog V} {k : Operand V → Builder O V α} (hvs : List.Forall₂ (Denotes Γ) args vs)
    (heval : Runs (M.eval o vs) (p >>= fun a => pure (g a)))
    (hk : ∀ r a, p.Returns a → Emits M F ((r, g a) :: Γ) Λ b (k r) (c a)) :
    Emits M F Γ Λ b (emit o args >>= k) (p >>= c) := by
  intro s a s' hrun hle hs ρ hρ pred entry
  obtain ⟨_, _, h, hrun⟩ := bind_eq_some hrun
  cases h
  rw [s.rest_append (((k _).grows hrun).trans hle)]
  simp only [runFrom, hρ.evalAll hvs]
  exact Runs.bind_map heval fun a ha => hk _ a ha _ _ _ hrun hle
    ((hs.append _ (Nat.le_succ _)).cons (Nat.lt_succ_self _) (g a)) _ (hρ.set hs.below (g a))
    pred entry

/-- An operation that only computes. -/
theorem pure_op {o : O} {args : List (Operand V)} {vs : List V} {v : V}
    {k : Operand V → Builder O V β} (hvs : List.Forall₂ (Denotes Γ) args vs)
    (heval : Runs (M.eval o vs) (pure v))
    (hk : ∀ r, Emits M F ((r, v) :: Γ) Λ b (k r) c) :
    Emits M F Γ Λ b (emit o args >>= k) c :=
  op (p := (pure () : Prog Unit)) (g := fun _ => v) (c := fun _ => c) hvs heval fun r _ _ => hk r

theorem ret_bind {o : Operand V} {v : V} {k : Unit → Builder O V β} (hv : Denotes Γ o v) :
    Emits M F Γ Λ b (ret o >>= k) (pure v) := by
  intro s a s' hrun hle hs ρ hρ pred entry
  obtain ⟨_, _, h, hrun⟩ := bind_eq_some hrun
  cases h
  rw [s.rest_append (((k _).grows hrun).trans hle)]
  simp only [runFrom, hρ.eval hv]
  exact Runs.pure v

theorem ret {o : Operand V} {v : V} (hv : Denotes Γ o v) :
    Emits M F Γ Λ b (Builder.ret (O := O) o) (pure v) := by
  have h := ret_bind (M := M) (F := F) (Λ := Λ) (b := b) (k := pure) hv
  rwa [Builder.bind_pure] at h

theorem br {k : Unit → Builder O V β} (hk : Gives F Γ Λ b (k ()) (Reaches M F Γ b l c)) :
    Emits M F Γ Λ b (br l >>= k) c := by
  intro s a s' hrun hle hs ρ hρ pred entry
  obtain ⟨_, _, h, hrun⟩ := bind_eq_some hrun
  cases h
  rw [s.rest_append (((k _).grows hrun).trans hle)]
  exact hk _ _ _ hrun hle (hs.append _ (Nat.le_refl _)) ρ hρ

theorem condBr {cond : Operand V} {v : V} {t e : Nat} {c d : Prog V}
    {k : Unit → Builder O V β} (hv : Denotes Γ cond v)
    (ht : M.isTrue v = true → Gives F Γ Λ b (k ()) (Reaches M F Γ b t c))
    (he : M.isTrue v = false → Gives F Γ Λ b (k ()) (Reaches M F Γ b e d)) :
    Emits M F Γ Λ b (condBr cond t e >>= k) (if M.isTrue v then c else d) := by
  intro s a s' hrun hle hs ρ hρ pred entry
  obtain ⟨_, _, h, hrun⟩ := bind_eq_some hrun
  cases h
  have hs₁ := hs.append (.condBr cond t e) (Nat.le_refl _)
  rw [s.rest_append (((k _).grows hrun).trans hle)]
  simp only [runFrom, hρ.eval hv]
  cases hb : M.isTrue v with
  | true => exact ht hb _ _ _ hrun hle hs₁ ρ hρ
  | false => exact he hb _ _ _ hrun hle hs₁ ρ hρ

theorem createBlock {k : Nat → Builder O V β}
    (hk : ∀ l, Emits M F Γ (l :: Λ) b (k l) c) : Emits M F Γ Λ b (createBlock >>= k) c := by
  intro s a s' hrun hle hs ρ hρ pred entry
  obtain ⟨l, s₁, h, hrun⟩ := bind_eq_some hrun
  have hrest : s₁.rest F = s.rest F := by
    cases h
    simp [State.rest, List.getD_eq_getElem?_getD, List.getElem?_append_left s.block_lt]
  rw [← hrest]
  exact hk l _ _ _ hrun hle (hs.createBlock h) ρ hρ pred entry

theorem getInsertBlock {k : Nat → Builder O V β} (hk : Emits M F Γ Λ b (k b) c) :
    Emits M F Γ Λ b (getInsertBlock >>= k) c := by
  intro s a s' hrun hle hs
  obtain ⟨_, _, h, hrun⟩ := bind_eq_some hrun
  cases h
  exact hk _ _ _ (hs.block ▸ hrun) hle hs

theorem addIncoming {n p : Nat} {o : Operand V} {k : Unit → Builder O V β}
    (hk : Emits M F Γ Λ b (k ()) c) : Emits M F Γ Λ b (addIncoming n o p >>= k) c := by
  intro s a s' hrun hle hs ρ hρ pred entry
  obtain ⟨_, s₁, h, hrun⟩ := bind_eq_some hrun
  have hrest : s₁.rest F = s.rest F := by
    simp only [Builder.addIncoming] at h
    split at h
    · cases h
    · cases h
      rfl
  rw [← hrest]
  exact hk _ _ _ hrun hle (hs.addIncoming h) ρ hρ pred entry

end Emits

/-! ## Calls -/

def argFacts (args : List V) : Facts V := args.mapIdx fun i v => (.arg i, v)

theorem denotes_arg {args : List V} {i : Nat} {v : V} (h : args[i]? = some v) :
    Denotes (argFacts args) (.arg i) v := by
  refine Or.inr (List.mem_iff_getElem?.mpr ⟨i, ?_⟩)
  simp [argFacts, h]

/-- A call of a function whose first block is the one the builder started in. -/
theorem Emits.call {m : Builder O V α} {a : α} {s' : State O V} {args : List V} {c : Prog V}
    (hrun : m.run (.newBlock .empty) = some (a, s')) (hle : s'.toCode.Le F)
    (hm : Emits M F (argFacts args) [] 0 m c) : Runs (Ssa.call M F args) c := by
  have hmeets : (State.newBlock .empty : State O V).Meets (argFacts args) [] 0 := by
    refine ⟨rfl, fun e he => ?_, fun l hl => (List.not_mem_nil hl).elim, List.nodup_singleton 0⟩
    obtain ⟨i, hi, rfl⟩ := List.mem_mapIdx.mp he
    trivial
  have hknows : Regs.Knows ⟨args, fun _ => none⟩ (argFacts args) := by
    intro e he
    obtain ⟨i, hi, rfl⟩ := List.mem_mapIdx.mp he
    exact List.getElem?_eq_getElem hi
  exact runs_of_block (block_of_empty rfl ((m.grows hrun).trans hle))
    (hm _ _ _ hrun hle hmeets _ hknows _ _)

end Ssa

end Tyr
