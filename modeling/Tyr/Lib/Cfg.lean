import Tyr.Lib.Ssa

/-
  The control-flow graph that a builder leaves.

  `Code.WellFormed` is what a verifier of such code asks for: each block ends with its only
  terminator, PHIs come first, branches go to blocks there are and never to the entry, a PHI has
  an operand for each block that branches to its own and for no other, and no register is assigned
  twice.

  `Completes j Λ cur m`: from a point where the block `cur` is being filled, the blocks `Λ` are
  still empty and all others are closed, `m` gets through and closes all of them. There is one rule
  for each builder call. `j` is a block whose PHI is being given its operands: until it has all,
  the rules keep account of the branches to it.
-/

namespace Tyr

namespace Ssa

open Builder

variable {O V α β : Type}

/-! ## Instructions and blocks -/

namespace Inst

def isTerminator : Inst O V → Bool
  | .br _ | .condBr _ _ _ | .ret _ => true
  | .op _ _ _ | .phi _ => false

def isPhi : Inst O V → Bool
  | .phi _ => true
  | _ => false

def targets : Inst O V → List Nat
  | .br target => [target]
  | .condBr _ ifTrue ifFalse => [ifTrue, ifFalse]
  | _ => []

/-- The register that is assigned. -/
def dst : Inst O V → Option Nat
  | .op dst _ _ | .phi dst => some dst
  | _ => none

end Inst

/-- PHIs, then operations. -/
def Straight (is : List (Inst O V)) : Prop :=
  ∃ ps os, is = ps ++ os ∧ (∀ i ∈ ps, i.isPhi = true) ∧
    ∀ i ∈ os, i.isPhi = false ∧ i.isTerminator = false

/-- Such code and its terminator. -/
def Terminated (is : List (Inst O V)) : Prop :=
  ∃ js i, is = js ++ [i] ∧ Straight js ∧ i.isTerminator = true

theorem Straight.nil : Straight ([] : List (Inst O V)) :=
  ⟨[], [], rfl, fun _ h => (List.not_mem_nil h).elim, fun _ h => (List.not_mem_nil h).elim⟩

theorem Straight.phi (n : Nat) : Straight [(.phi n : Inst O V)] :=
  ⟨[.phi n], [], rfl, List.forall_mem_singleton.mpr rfl, fun _ h => (List.not_mem_nil h).elim⟩

theorem Straight.op {is : List (Inst O V)} (h : Straight is) (n : Nat) (o : O)
    (args : List (Operand V)) : Straight (is ++ [.op n o args]) := by
  obtain ⟨ps, os, rfl, hps, hos⟩ := h
  refine ⟨ps, os ++ [.op n o args], List.append_assoc _ _ _, hps, fun i hi => ?_⟩
  rcases List.mem_append.mp hi with hi | hi
  · exact hos i hi
  · obtain rfl := List.mem_singleton.mp hi
    exact ⟨rfl, rfl⟩

namespace Code

/-- Block `l` branches to block `k`. -/
def Jumps (F : Code O V) (l k : Nat) : Prop :=
  ∃ is, F.blocks[l]? = some is ∧ ∃ i ∈ is, k ∈ i.targets

/-- What the instructions assign, block by block. -/
def assigned (F : Code O V) : List Nat := F.blocks.flatten.filterMap Inst.dst

structure WellFormed (F : Code O V) : Prop where
  entry : F.blocks ≠ []
  terminated : ∀ is ∈ F.blocks, Terminated is
  target : ∀ l k, F.Jumps l k → 0 < k ∧ k < F.blocks.length
  incoming : ∀ (l : Nat) is n, F.blocks[l]? = some is → .phi n ∈ is → ∀ k,
    (F.edge n k).isSome ↔ F.Jumps k l
  assigned : F.assigned.Nodup

variable {F : Code O V} {n k l : Nat}

theorem edge_isSome : (F.edge n k).isSome ↔ (n, k) ∈ F.edges.map fun e => (e.phi, e.pred) := by
  unfold edge
  rw [Option.isSome_map, List.find?_isSome, List.mem_map]
  refine exists_congr fun e => and_congr_right fun _ => ?_
  rw [decide_eq_true_eq, Prod.mk.injEq]

theorem Jumps.lt (h : F.Jumps l k) : l < F.blocks.length := by
  obtain ⟨is, his, -⟩ := h
  exact (List.getElem?_eq_some_iff.mp his).1

end Code

/-! ## What one call changes -/

theorem flatten_modify {γ : Type} {ls : List (List γ)} {b : Nat} (h : b < ls.length) (x : γ) :
    (ls.modify b (· ++ [x])).flatten.Perm (ls.flatten ++ [x]) := by
  induction ls generalizing b with
  | nil => exact absurd h (Nat.not_lt_zero b)
  | cons l ls ih =>
    cases b with
    | zero =>
      rw [List.modify_zero_cons, List.flatten_cons, List.flatten_cons, List.append_assoc,
        List.append_assoc]
      exact List.Perm.append_left l List.perm_append_comm
    | succ b =>
      rw [List.modify_succ_cons, List.flatten_cons, List.flatten_cons, List.append_assoc]
      exact List.Perm.append_left l (ih (Nat.lt_of_succ_lt_succ h))

namespace State

variable (s : State O V)

theorem blocks_append {i : Inst O V} {n l : Nat} :
    (s.append i n).blocks[l]? =
      if l = s.block then s.blocks[l]?.map (· ++ [i]) else s.blocks[l]? := by
  simp only [append, List.getElem?_modify, eq_comm (a := s.block)]
  split <;> simp

theorem jumps_append {i : Inst O V} {n l k : Nat} :
    (s.append i n).toCode.Jumps l k ↔ s.toCode.Jumps l k ∨ l = s.block ∧ k ∈ i.targets := by
  unfold Code.Jumps
  rw [blocks_append]
  by_cases h : l = s.block
  · subst h
    obtain ⟨is, his⟩ : ∃ is, s.blocks[s.block]? = some is :=
      ⟨_, List.getElem?_eq_getElem s.block_lt⟩
    simp only [if_true, his, Option.map_some, Option.some.injEq, exists_eq_left', true_and,
      List.mem_append, List.mem_singleton, or_and_right, exists_or, exists_eq_left]
  · simp only [h, if_false, false_and, or_false]

theorem assigned_append {i : Inst O V} {n : Nat} :
    (s.append i n).toCode.assigned.Perm (s.toCode.assigned ++ i.dst.toList) := by
  have h := (flatten_modify s.block_lt i).filterMap Inst.dst
  rw [List.filterMap_append] at h
  unfold Code.assigned
  refine h.trans (List.Perm.append_left _ ?_)
  cases hi : i.dst with
  | none => simp [hi]
  | some d => simp [hi]

end State

/-! ## Code under construction -/

/-- A block whose PHI is not complete: the blocks that branch to it, and the PHI, once it is
    there, with the blocks it has operands for. -/
structure Join where
  block : Nat
  preds : List Nat
  phi : Option (Nat × List Nat)

/-- After a branch from `b`. -/
def Join.branch (x : Join) (b : Nat) (targets : List Nat) : Join :=
  if x.block ∈ targets then { x with preds := x.preds ++ [b] } else x

namespace Join

variable {x : Join} {b k : Nat} {ts : List Nat}

@[simp] theorem block_branch : (x.branch b ts).block = x.block := by
  unfold branch
  split <;> rfl

@[simp] theorem phi_branch : (x.branch b ts).phi = x.phi := by
  unfold branch
  split <;> rfl

theorem mem_preds_branch : k ∈ (x.branch b ts).preds ↔ k ∈ x.preds ∨ k = b ∧ x.block ∈ ts := by
  unfold branch
  split <;> simp [*]

theorem map_branch_nil {j : Option Join} : j.map (·.branch b []) = j := by
  cases j with
  | none => rfl
  | some x => exact congrArg some (if_neg List.not_mem_nil)

end Join

namespace State

/-- Block `cur`, if any, is being filled, the blocks `Λ` are empty and the others are closed. -/
structure Laid (s : State O V) (Λ : List Nat) (cur : Option Nat) : Prop where
  nodup : (cur.toList ++ Λ).Nodup
  pos : ∀ l ∈ Λ, 0 < l
  empty : ∀ l ∈ Λ, s.blocks[l]? = some []
  block : ∀ b ∈ cur, s.block = b ∧ ∃ is, s.blocks[b]? = some is ∧ Straight is
  closed : ∀ (l : Nat) is, s.blocks[l]? = some is → l ∉ Λ → l ∉ cur → Terminated is
  target : ∀ l k, s.toCode.Jumps l k → 0 < k ∧ k < s.blocks.length
  edges_lt : ∀ e ∈ s.edges, e.phi < s.nextReg
  assigned_lt : ∀ n ∈ s.toCode.assigned, n < s.nextReg
  assigned : s.toCode.assigned.Nodup

/-- The account kept of `x` is right. -/
structure Joins (s : State O V) (Λ : List Nat) (x : Join) : Prop where
  preds : ∀ k, s.toCode.Jumps k x.block ↔ k ∈ x.preds
  empty : x.phi = none → x.block ∈ Λ
  phi_lt : ∀ n es, x.phi = some (n, es) → n < s.nextReg
  only : ∀ n es, x.phi = some (n, es) → ∀ (l : Nat) is m, s.blocks[l]? = some is → .phi m ∈ is →
    (m = n ↔ l = x.block)
  edges : ∀ n es, x.phi = some (n, es) → ∀ k, (s.edge n k).isSome ↔ k ∈ es

/-- Besides, every PHI is complete but that of `j`. -/
structure Sound (s : State O V) (j : Option Join) (Λ : List Nat) (cur : Option Nat) : Prop
    extends s.Laid Λ cur where
  incoming : ∀ (l : Nat) is n, s.blocks[l]? = some is → .phi n ∈ is → (∀ x ∈ j, x.block ≠ l) →
    ∀ k, (s.edge n k).isSome ↔ s.toCode.Jumps k l
  join : ∀ x ∈ j, s.Joins Λ x

/-- At the end. -/
theorem Sound.wellFormed {s : State O V} (h : s.Sound none [] none) : s.toCode.WellFormed where
  entry hempty := absurd s.block_lt (by rw [hempty]; exact Nat.not_lt_zero _)
  terminated is his := by
    obtain ⟨l, hl⟩ := List.mem_iff_getElem?.mp his
    exact h.closed l is hl List.not_mem_nil (by simp)
  target := h.target
  incoming l is n hl hn := h.incoming l is n hl hn (by simp)
  assigned := h.assigned

/-- At the start of a function. -/
theorem sound_newBlock : (newBlock (.empty : Code O V)).Sound none [] (some 0) where
  nodup := by simp
  pos _ h := (List.not_mem_nil h).elim
  empty _ h := (List.not_mem_nil h).elim
  block b hb := by
    obtain rfl := Option.mem_some_iff.mp hb
    exact ⟨rfl, [], rfl, Straight.nil⟩
  closed l is hl _ hcur := by
    have hlt := (List.getElem?_eq_some_iff.mp hl).1
    have hzero : l = 0 := Nat.lt_one_iff.mp hlt
    exact absurd (Option.mem_some_iff.mpr hzero.symm) hcur
  target l k := by
    rintro ⟨is, his, i, hi, -⟩
    obtain rfl : is = [] := List.mem_singleton.mp (List.mem_of_getElem? his)
    cases hi
  incoming l is n hl hn := by
    obtain rfl : is = [] := List.mem_singleton.mp (List.mem_of_getElem? hl)
    cases hn
  edges_lt e he := (List.not_mem_nil he).elim
  assigned_lt n hn := (List.not_mem_nil hn).elim
  assigned := List.nodup_nil
  join x hx := by cases hx

/-! ## One instruction -/

section Append

variable {s : State O V} {Λ : List Nat} {b l n : Nat} {i : Inst O V}

theorem Laid.cur_not_mem (h : s.Laid Λ (some b)) : b ∉ Λ := (List.nodup_cons.mp h.nodup).1

theorem Laid.blocks_append_ne (h : s.Laid Λ (some b)) (hl : l ≠ b) :
    (s.append i n).blocks[l]? = s.blocks[l]? := by
  rw [blocks_append, (h.block b rfl).1, if_neg hl]

/-- An instruction is the new one or was there before. -/
theorem Laid.mem_append (h : s.Laid Λ (some b)) {is : List (Inst O V)}
    (his : (s.append i n).blocks[l]? = some is) {i' : Inst O V} (hi : i' ∈ is) :
    (∃ is', s.blocks[l]? = some is' ∧ i' ∈ is') ∨ l = b ∧ i' = i := by
  rw [blocks_append, (h.block b rfl).1] at his
  split at his
  · next hlb =>
    obtain ⟨is', his', rfl⟩ := Option.map_eq_some_iff.mp his
    rcases List.mem_append.mp hi with hi | hi
    · exact Or.inl ⟨is', his', hi⟩
    · exact Or.inr ⟨hlb, List.mem_singleton.mp hi⟩
  · exact Or.inl ⟨is, his, hi⟩

theorem Laid.append (h : s.Laid Λ (some b))
    (hstraight : i.isTerminator = false → ∀ is, s.blocks[b]? = some is → Straight is →
      Straight (is ++ [i]))
    (hdst : ∀ d ∈ i.dst, d = s.nextReg ∧ n = s.nextReg + 1) (hn : s.nextReg ≤ n)
    (htarget : ∀ t ∈ i.targets, t ∈ Λ ∨ 0 < b ∧ t = b) :
    (s.append i n).Laid Λ (if i.isTerminator then none else some b) := by
  obtain ⟨hb, is, his, hs⟩ := h.block b rfl
  have hnow : (s.append i n).blocks[b]? = some (is ++ [i]) := by
    rw [blocks_append, if_pos hb.symm, his]
    rfl
  have hassigned := s.assigned_append (i := i) (n := n)
  refine ⟨?_, h.pos, fun l hl => ?_, fun b' hb' => ?_, fun l is' hl hΛ hcur => ?_,
    fun l k hk => ?_, fun e he => Nat.lt_of_lt_of_le (h.edges_lt e he) hn, fun d hd => ?_, ?_⟩
  · split
    · exact (List.nodup_cons.mp h.nodup).2
    · exact h.nodup
  · rw [h.blocks_append_ne fun he => h.cur_not_mem (he ▸ hl)]
    exact h.empty l hl
  · split at hb'
    · cases hb'
    · next hi =>
      obtain rfl := Option.mem_some_iff.mp hb'
      exact ⟨hb, _, hnow, hstraight (by simpa using hi) is his hs⟩
  · by_cases hlb : l = b
    · subst hlb
      obtain rfl := Option.some.inj (hnow.symm.trans hl)
      refine ⟨is, i, rfl, hs, ?_⟩
      by_contra hi
      exact hcur (by rw [if_neg hi]; rfl)
    · rw [h.blocks_append_ne hlb] at hl
      exact h.closed l is' hl hΛ fun he => hlb (Option.mem_some_iff.mp he).symm
  · have hlen : (s.append i n).blocks.length = s.blocks.length := by simp [State.append]
    rw [hlen]
    rcases (s.jumps_append).mp hk with hk | ⟨-, hk⟩
    · exact h.target l k hk
    · rcases htarget k hk with hk | ⟨hpos, rfl⟩
      · exact ⟨h.pos k hk, (List.getElem?_eq_some_iff.mp (h.empty k hk)).1⟩
      · exact ⟨hpos, (List.getElem?_eq_some_iff.mp his).1⟩
  · rcases List.mem_append.mp (hassigned.mem_iff.mp hd) with hd | hd
    · exact Nat.lt_of_lt_of_le (h.assigned_lt d hd) hn
    · obtain ⟨rfl, rfl⟩ := hdst d (Option.mem_toList.mp hd)
      exact Nat.lt_succ_self _
  · refine hassigned.nodup_iff.mpr (List.Nodup.append h.assigned (Option.toList_nodup _) ?_)
    intro d hd hd'
    exact Nat.ne_of_lt (h.assigned_lt d hd) (hdst d (Option.mem_toList.mp hd')).1

variable {j : Option Join}

/-- An operation or a terminator. -/
theorem Sound.append (h : s.Sound j Λ (some b)) (hphi : i.isPhi = false)
    (hstraight : i.isTerminator = false → ∀ is, s.blocks[b]? = some is → Straight is →
      Straight (is ++ [i]))
    (hdst : ∀ d ∈ i.dst, d = s.nextReg ∧ n = s.nextReg + 1) (hn : s.nextReg ≤ n)
    (htarget : ∀ t ∈ i.targets, t ∈ Λ ∨ 0 < b ∧ t = b ∧ ∃ x ∈ j, x.block = b) :
    (s.append i n).Sound (j.map (·.branch b i.targets)) Λ
      (if i.isTerminator then none else some b) := by
  have hb := (h.block b rfl).1
  have hold : ∀ {l : Nat} {is m}, (s.append i n).blocks[l]? = some is → Inst.phi m ∈ is →
      ∃ is', s.blocks[l]? = some is' ∧ Inst.phi m ∈ is' := by
    intro l is m hl hm
    rcases h.mem_append hl hm with hmem | ⟨-, rfl⟩
    · exact hmem
    · cases hphi
  refine ⟨h.toLaid.append hstraight hdst hn fun t ht => ?_, fun l is m hl hm hj k => ?_,
    fun x hx => ?_⟩
  · exact (htarget t ht).imp_right fun ⟨hpos, he, _⟩ => ⟨hpos, he⟩
  · have hj' : ∀ x ∈ j, x.block ≠ l := fun x hx =>
      Join.block_branch (x := x) ▸ hj _ (Option.mem_map_of_mem _ hx)
    obtain ⟨is', hl', hm'⟩ := hold hl hm
    rw [s.jumps_append, ← h.incoming l is' m hl' hm' hj' k]
    refine (or_iff_left ?_).symm
    rintro ⟨-, ht⟩
    rcases htarget l ht with hmem | ⟨-, rfl, x, hx, hblock⟩
    · obtain rfl := Option.some.inj ((h.empty l hmem).symm.trans hl')
      cases hm'
    · exact hj' x hx hblock
  · obtain ⟨y, hy, rfl⟩ := Option.mem_map.mp hx
    have hx' := h.join y hy
    refine ⟨fun k => ?_, fun hp => ?_, fun m es hp => ?_, fun m es hp l is m' hl hm => ?_,
      fun m es hp => ?_⟩
    · rw [Join.block_branch, s.jumps_append, hb, hx'.preds, Join.mem_preds_branch]
    · rw [Join.block_branch]
      exact hx'.empty (Join.phi_branch ▸ hp)
    · exact Nat.lt_of_lt_of_le (hx'.phi_lt m es (Join.phi_branch ▸ hp)) hn
    · obtain ⟨is', hl', hm'⟩ := hold hl hm
      rw [Join.block_branch]
      exact hx'.only m es (Join.phi_branch ▸ hp) l is' m' hl' hm'
    · exact hx'.edges m es (Join.phi_branch ▸ hp)

end Append

/-! ## Blocks and edges -/

section Blocks

variable {s : State O V} {j : Option Join} {Λ : List Nat} {cur : Option Nat} {l n : Nat}
  {ps es : List Nat}

theorem Laid.lt (h : s.Laid Λ cur) : (∀ l ∈ Λ, l < s.blocks.length) ∧
    ∀ b ∈ cur, b < s.blocks.length :=
  ⟨fun l hl => (List.getElem?_eq_some_iff.mp (h.empty l hl)).1,
    fun b hb => (h.block b hb).1 ▸ s.block_lt⟩

theorem jumps_createBlock {k : Nat} {hlt : s.block < (s.blocks ++ [[]]).length} :
    Code.Jumps { s with blocks := s.blocks ++ [[]], block_lt := hlt : State O V }.toCode k l ↔
      s.toCode.Jumps k l := by
  unfold Code.Jumps
  refine exists_congr fun is => ?_
  by_cases hk : k < s.blocks.length
  · rw [List.getElem?_append_left hk]
  · have hnone : s.blocks[k]? = none := List.getElem?_eq_none (not_lt.mp hk)
    refine iff_of_false ?_ (by simp [hnone])
    rintro ⟨his, i, hi, -⟩
    rw [List.getElem?_append_right (not_lt.mp hk)] at his
    obtain rfl : is = [] := List.mem_singleton.mp (List.mem_of_getElem? his)
    cases hi

theorem Laid.createBlock (h : s.Laid Λ cur) {hlt : s.block < (s.blocks ++ [[]]).length} :
    Laid { s with blocks := s.blocks ++ [[]], block_lt := hlt : State O V }
      (s.blocks.length :: Λ) cur := by
  obtain ⟨hΛ, hcur⟩ := h.lt
  have hlen : (s.blocks ++ [[]]).length = s.blocks.length + 1 := by simp
  have hpos : 0 < s.blocks.length := Nat.lt_of_le_of_lt (Nat.zero_le _) s.block_lt
  have hold : ∀ {l}, l < s.blocks.length → (s.blocks ++ [[]])[l]? = s.blocks[l]? := fun hl =>
    List.getElem?_append_left hl
  have hassigned : Code.assigned { s with blocks := s.blocks ++ [[]], block_lt := hlt }.toCode =
      s.toCode.assigned := by simp [Code.assigned]
  refine ⟨?_, List.forall_mem_cons.mpr ⟨hpos, h.pos⟩, List.forall_mem_cons.mpr ⟨by simp, ?_⟩,
    fun b hb => ?_, fun l is hl hmem hnot => ?_, fun l k hk => ?_, h.edges_lt, ?_, ?_⟩
  · have hnew : s.blocks.length ∉ cur.toList ++ Λ := by
      intro hmem
      rcases List.mem_append.mp hmem with hmem | hmem
      · exact Nat.lt_irrefl _ (hcur _ (Option.mem_toList.mp hmem))
      · exact Nat.lt_irrefl _ (hΛ _ hmem)
    exact List.perm_middle.nodup_iff.mpr (List.nodup_cons.mpr ⟨hnew, h.nodup⟩)
  · intro l hl
    rw [hold (hΛ l hl)]
    exact h.empty l hl
  · obtain ⟨hblock, is, his, hs⟩ := h.block b hb
    exact ⟨hblock, is, by rw [hold (hcur b hb), his], hs⟩
  · rw [List.mem_cons, not_or] at hmem
    have hlt' := (List.getElem?_eq_some_iff.mp hl).1
    rw [hlen] at hlt'
    rw [hold (by omega)] at hl
    exact h.closed l is hl hmem.2 hnot
  · obtain ⟨hk, hk'⟩ := h.target l k (jumps_createBlock.mp hk)
    exact ⟨hk, by rw [hlen]; omega⟩
  · rw [hassigned]
    exact h.assigned_lt
  · rw [hassigned]
    exact h.assigned

/-- A new block, which may be the one whose PHI is to come. -/
theorem Sound.createBlock (h : s.Sound j Λ cur) (hlt : s.block < (s.blocks ++ [[]]).length)
    {j' : Option Join}
    (hj : j' = j ∨ j = none ∧ j' = some ⟨s.blocks.length, [], none⟩) :
    Sound { s with blocks := s.blocks ++ [[]], block_lt := hlt : State O V } j'
      (s.blocks.length :: Λ) cur := by
  have hold : ∀ {l : Nat} {is m}, (s.blocks ++ [[]])[l]? = some is → Inst.phi m ∈ is →
      ∃ is', s.blocks[l]? = some is' ∧ Inst.phi m ∈ is' := by
    intro l is m hl hm
    by_cases hlt : l < s.blocks.length
    · rw [List.getElem?_append_left hlt] at hl
      exact ⟨is, hl, hm⟩
    · rw [List.getElem?_append_right (not_lt.mp hlt)] at hl
      obtain rfl : is = [] := List.mem_singleton.mp (List.mem_of_getElem? hl)
      cases hm
  refine ⟨h.toLaid.createBlock, fun l is m hl hm hne k => ?_, fun x hx => ?_⟩
  · obtain ⟨is', hl', hm'⟩ := hold hl hm
    rw [jumps_createBlock]
    refine h.incoming l is' m hl' hm' (fun x hx => ?_) k
    rcases hj with rfl | ⟨rfl, rfl⟩
    · exact hne x hx
    · cases hx
  · rcases hj with rfl | ⟨rfl, rfl⟩
    · have hx' := h.join x hx
      refine ⟨fun k => jumps_createBlock.trans (hx'.preds k), fun hp =>
        List.mem_cons_of_mem _ (hx'.empty hp), hx'.phi_lt, fun m es hp l is m' hl hm => ?_,
        hx'.edges⟩
      obtain ⟨is', hl', hm'⟩ := hold hl hm
      exact hx'.only m es hp l is' m' hl' hm'
    · obtain rfl := Option.mem_some_iff.mp hx
      refine ⟨fun k => ?_, fun _ => List.mem_cons_self, nofun, nofun, nofun⟩
      refine iff_of_false (fun hk => ?_) List.not_mem_nil
      exact Nat.lt_irrefl _ (h.target _ _ (jumps_createBlock.mp hk)).2

/-- One of the empty blocks is filled next. -/
theorem Laid.enter (h : s.Laid Λ none) (hl : l ∈ Λ) (hlt : l < s.blocks.length) :
    Laid { s with block := l, block_lt := hlt : State O V } (Λ.erase l) (some l) where
  nodup := (List.perm_cons_erase hl).nodup_iff.mp h.nodup
  pos k hk := h.pos k (List.mem_of_mem_erase hk)
  empty k hk := h.empty k (List.mem_of_mem_erase hk)
  block b hb := by
    obtain rfl := Option.mem_some_iff.mp hb
    exact ⟨rfl, [], h.empty l hl, Straight.nil⟩
  closed k is hk hmem hne := by
    have hkl : k ≠ l := fun he => hne (he ▸ rfl)
    exact h.closed k is hk (fun hm => hmem ((List.mem_erase_of_ne hkl).mpr hm)) (by simp)
  target := h.target
  edges_lt := h.edges_lt
  assigned_lt := h.assigned_lt
  assigned := h.assigned

theorem Sound.enter (h : s.Sound j Λ none) (hl : l ∈ Λ)
    (hj : ∀ x ∈ j, x.phi = none → x.block ≠ l) (hlt : l < s.blocks.length) :
    Sound { s with block := l, block_lt := hlt : State O V } j (Λ.erase l) (some l) where
  toLaid := h.toLaid.enter hl hlt
  incoming := h.incoming
  join x hx := by
    have hx' := h.join x hx
    exact ⟨hx'.preds, fun hp => (List.mem_erase_of_ne (hj x hx hp)).mpr (hx'.empty hp), hx'.phi_lt,
      hx'.only, hx'.edges⟩

/-- A new PHI at the start of the block that waits for it. -/
theorem Sound.phi (h : s.Sound (some ⟨l, ps, none⟩) Λ none) (hlt : l < s.blocks.length) :
    (State.append { s with block := l, block_lt := hlt } (.phi s.nextReg) (s.nextReg + 1)).Sound
      (some ⟨l, ps, some (s.nextReg, [])⟩) (Λ.erase l) (some l) := by
  have hx := h.join _ rfl
  have hl : l ∈ Λ := hx.empty rfl
  have hlaid := h.toLaid.enter hl hlt
  have hfresh : ∀ {l' : Nat} {is m}, s.blocks[l']? = some is → Inst.phi m ∈ is → m ≠ s.nextReg := by
    intro l' is m hl' hm
    refine Nat.ne_of_lt (h.assigned_lt m ?_)
    exact List.mem_filterMap.mpr ⟨_, List.mem_flatten.mpr ⟨is, List.mem_of_getElem? hl', hm⟩, rfl⟩
  refine ⟨hlaid.append (fun _ is his _ => ?_) (fun d hd => ?_) (Nat.le_succ _)
    fun t ht => (List.not_mem_nil ht).elim, fun l' is m hl' hm hne k => ?_, fun x hx' => ?_⟩
  · obtain rfl := Option.some.inj ((h.empty l hl).symm.trans his)
    exact Straight.phi _
  · exact ⟨(Option.mem_some_iff.mp hd).symm, rfl⟩
  · rw [jumps_append]
    refine Iff.trans ?_ (or_iff_left fun hk => List.not_mem_nil hk.2).symm
    rcases hlaid.mem_append hl' hm with ⟨is', his', hm'⟩ | ⟨rfl, -⟩
    · have hl' : l ≠ l' := hne _ rfl
      exact h.incoming l' is' m his' hm' (fun x hx => by cases hx; exact hl') k
    · exact absurd rfl (hne _ rfl)
  · cases hx'
    refine ⟨fun k => ?_, nofun, fun m es hp => ?_, fun m es hp l' is m' hl' hm => ?_,
      fun m es hp k => ?_⟩
    · rw [jumps_append]
      exact (or_iff_left fun hk => List.not_mem_nil hk.2).trans (hx.preds k)
    · obtain ⟨rfl, -⟩ := Prod.mk.inj (Option.some.inj hp)
      exact Nat.lt_succ_self _
    · obtain ⟨rfl, -⟩ := Prod.mk.inj (Option.some.inj hp)
      rcases hlaid.mem_append hl' hm with ⟨is', his', hm'⟩ | ⟨rfl, he⟩
      · refine iff_of_false (hfresh his' hm') ?_
        rintro rfl
        obtain rfl := Option.some.inj ((h.empty _ hl).symm.trans his')
        cases hm'
      · exact iff_of_true (by cases he; rfl) rfl
    · obtain ⟨rfl, rfl⟩ := Prod.mk.inj (Option.some.inj hp)
      refine iff_of_false (fun hk => ?_) List.not_mem_nil
      obtain ⟨e, he, hke⟩ := List.mem_map.mp (Code.edge_isSome.mp hk)
      exact Nat.ne_of_lt (h.edges_lt e he) (Prod.mk.inj hke).1

/-- Another operand for the PHI. -/
theorem Sound.addIncoming (h : s.Sound (some ⟨l, ps, some (n, es)⟩) Λ cur) {p : Nat}
    {o : Operand V} {hkeys} :
    Sound { s with edges := s.edges ++ [⟨n, p, o⟩], keys_nodup := hkeys }
      (some ⟨l, ps, some (n, es ++ [p])⟩) Λ cur := by
  have hx := h.join _ rfl
  have hedge : ∀ {m k}, (Code.edge { s with edges := s.edges ++ [⟨n, p, o⟩], keys_nodup := hkeys :
      State O V }.toCode m k).isSome ↔ (s.edge m k).isSome ∨ m = n ∧ k = p := by
    intro m k
    rw [Code.edge_isSome, Code.edge_isSome]
    simp
  refine ⟨⟨h.nodup, h.pos, h.empty, h.block, h.closed, h.target, ?_, h.assigned_lt, h.assigned⟩,
    fun l' is m hl' hm hne k => ?_, fun x hx' => ?_⟩
  · intro e he
    rcases List.mem_append.mp he with he | he
    · exact h.edges_lt e he
    · obtain rfl := List.mem_singleton.mp he
      exact hx.phi_lt n es rfl
  · have hl : l ≠ l' := hne _ rfl
    have hmn : m ≠ n := fun he => hl ((hx.only n es rfl l' is m hl' hm).mp he).symm
    have hsame := h.incoming l' is m hl' hm (fun x hx => by cases hx; exact hl) k
    exact hedge.trans ((or_iff_left fun hk => hmn hk.1).trans hsame)
  · obtain rfl := Option.mem_some_iff.mp hx'
    refine ⟨hx.preds, nofun, fun m es' hp => ?_, fun m es' hp => ?_, fun m es' hp k => ?_⟩
    · obtain ⟨rfl, -⟩ := Prod.mk.inj (Option.some.inj hp)
      exact hx.phi_lt n es rfl
    · obtain ⟨rfl, -⟩ := Prod.mk.inj (Option.some.inj hp)
      exact hx.only n es rfl
    · obtain ⟨rfl, rfl⟩ := Prod.mk.inj (Option.some.inj hp)
      refine hedge.trans ?_
      rw [hx.edges n es rfl, List.mem_append, List.mem_singleton, eq_self, true_and]

/-- The PHI has all its operands, and nothing more can branch to its block. -/
theorem Sound.merge (h : s.Sound (some ⟨l, ps, some (n, ps)⟩) Λ cur) : s.Sound none Λ cur where
  toLaid := h.toLaid
  incoming l' is m hl' hm _ k := by
    have hx := h.join _ rfl
    by_cases hl : l = l'
    · subst hl
      obtain rfl : m = n := (hx.only n ps rfl l is m hl' hm).mpr rfl
      rw [hx.edges m ps rfl, hx.preds]
    · exact h.incoming l' is m hl' hm (fun x hx => by cases hx; exact hl) k
  join x hx := by cases hx

end Blocks

end State

/-! ## Rules -/

/-- `m` gets through, and every block is closed then. -/
def Completes (j : Option Join) (Λ : List Nat) (cur : Option Nat) (m : Builder O V Unit) : Prop :=
  ∀ s, s.Sound j Λ cur → ∃ s', m.run s = some ((), s') ∧ s'.Sound none [] none

namespace Completes

variable {j : Option Join} {Λ Λ' : List Nat} {cur : Option Nat} {b l : Nat}

/-- What is built in a new function. -/
theorem wellFormed {m : Builder O V Unit} (h : Completes none [] (some 0) m) :
    ∃ s, m.run (.newBlock .empty) = some ((), s) ∧ s.toCode.WellFormed := by
  obtain ⟨s, hrun, hs⟩ := h _ State.sound_newBlock
  exact ⟨s, hrun, hs.wellFormed⟩

theorem done : Completes (O := O) (V := V) none [] none (pure ()) := fun s hs => ⟨s, rfl, hs⟩

theorem of_bind_pure {m : Builder O V Unit} (h : Completes j Λ cur (m >>= pure)) :
    Completes j Λ cur m := by rwa [Builder.bind_pure] at h

theorem perm {m : Builder O V Unit} (h : Completes j Λ cur m) (hΛ : Λ'.Perm Λ) :
    Completes j Λ' cur m := fun s hs => h s
  { hs with
    nodup := (hΛ.append_left _).nodup_iff.mp hs.nodup
    pos := fun l hl => hs.pos l (hΛ.mem_iff.mpr hl)
    empty := fun l hl => hs.empty l (hΛ.mem_iff.mpr hl)
    closed := fun l is hl hmem => hs.closed l is hl fun hm => hmem (hΛ.mem_iff.mp hm)
    join := fun x hx => { hs.join x hx with
      empty := fun hp => hΛ.mem_iff.mp ((hs.join x hx).empty hp) } }

theorem emit {o : O} {args : List (Operand V)} {k : Operand V → Builder O V Unit}
    (hk : ∀ r, Completes j Λ (some b) (k r)) : Completes j Λ (some b) (emit o args >>= k) := by
  intro s hs
  have hs' := hs.append (i := .op s.nextReg o args) (n := s.nextReg + 1) rfl
    (fun _ is _ h => h.op _ _ _) (fun d hd => ⟨(Option.mem_some_iff.mp hd).symm, rfl⟩)
    (Nat.le_succ _) fun t ht => (List.not_mem_nil ht).elim
  have hsame : j.map (·.branch b (Inst.op s.nextReg o args).targets) = j := Join.map_branch_nil
  rw [hsame] at hs'
  exact hk _ _ hs'

/-- A terminator. -/
theorem terminate {i : Inst O V} {k : Unit → Builder O V Unit} (hi : i.isTerminator = true)
    (htarget : ∀ t ∈ i.targets, t ∈ Λ ∨ 0 < b ∧ t = b ∧ ∃ x ∈ j, x.block = b)
    (hk : Completes (j.map (·.branch b i.targets)) Λ none (k ())) :
    Completes j Λ (some b) (Builder.terminate i >>= k) := by
  intro s hs
  have hphi : i.isPhi = false := by cases i <;> first | rfl | cases hi
  have hdst : i.dst = none := by cases i <;> first | rfl | cases hi
  have hs' := hs.append (n := s.nextReg) hphi (fun h => absurd (h.symm.trans hi) (by decide))
    (fun d hd => by rw [hdst] at hd; cases hd) (Nat.le_refl _) htarget
  rw [if_pos hi] at hs'
  exact hk _ hs'

theorem ret {o : Operand V} {k : Unit → Builder O V Unit} (hk : Completes j Λ none (k ())) :
    Completes j Λ (some b) (Builder.ret o >>= k) := by
  refine terminate rfl (fun t ht => (List.not_mem_nil ht).elim) ?_
  have hsame : j.map (·.branch b (Inst.ret o : Inst O V).targets) = j := Join.map_branch_nil
  rwa [hsame]

/-- A return that ends the function. -/
theorem ret_done {o : Operand V} : Completes none [] (some b) (Builder.ret (O := O) o) :=
  of_bind_pure (ret done)

/-- A branch to empty blocks. -/
theorem condBr {c : Operand V} {t e : Nat} {k : Unit → Builder O V Unit} (ht : t ∈ Λ) (he : e ∈ Λ)
    (hk : Completes none Λ none (k ())) :
    Completes none Λ (some b) (Builder.condBr c t e >>= k) := by
  refine terminate rfl (fun t' ht' => Or.inl ?_) hk
  rcases List.mem_pair.mp ht' with rfl | rfl
  · exact ht
  · exact he

/-- A branch to the block with the PHI, which may be from that block. -/
theorem branch {i : Inst O V} {ps : List Nat} {p : Option (Nat × List Nat)}
    {k : Unit → Builder O V Unit} (hi : i.isTerminator = true) (hl : l ∈ i.targets)
    (htarget : ∀ t ∈ i.targets, t ∈ Λ ∨ 0 < b ∧ t = b ∧ l = b)
    (hk : Completes (some ⟨l, ps ++ [b], p⟩) Λ none (k ())) :
    Completes (some ⟨l, ps, p⟩) Λ (some b) (Builder.terminate i >>= k) := by
  refine terminate hi (fun t ht => ?_) ?_
  · exact (htarget t ht).imp_right fun ⟨hpos, ht, hlb⟩ => ⟨hpos, ht, _, rfl, hlb⟩
  · have hgrown : Join.branch ⟨l, ps, p⟩ b i.targets = ⟨l, ps ++ [b], p⟩ := if_pos hl
    rwa [Option.map_some, hgrown]

theorem getInsertBlock {k : Nat → Builder O V Unit} (hk : Completes j Λ (some b) (k b)) :
    Completes j Λ (some b) (getInsertBlock >>= k) := by
  intro s hs
  show ∃ s', (k s.block).run s = _ ∧ _
  rw [(hs.block b rfl).1]
  exact hk s hs

theorem createBlock {k : Nat → Builder O V Unit}
    (hk : ∀ l, l ∉ Λ → l ∉ cur → (∀ x ∈ j, l ∉ x.preds) → Completes j (l :: Λ) cur (k l)) :
    Completes j Λ cur (createBlock >>= k) := by
  intro s hs
  have hs' := hs.createBlock (by simpa using Nat.lt_succ_of_lt s.block_lt) (Or.inl rfl)
  refine hk _ (fun hm => Nat.lt_irrefl _ (hs.lt.1 _ hm)) (fun hm => Nat.lt_irrefl _ (hs.lt.2 _ hm))
    (fun x hx hm => ?_) _ hs'
  exact Nat.lt_irrefl _ (((hs.join x hx).preds _).mpr hm).lt

/-- A new block that will begin with a PHI. -/
theorem createJoin {k : Nat → Builder O V Unit}
    (hk : ∀ l, 0 < l → l ∉ Λ → l ∉ cur → Completes (some ⟨l, [], none⟩) (l :: Λ) cur (k l)) :
    Completes none Λ cur (Builder.createBlock >>= k) := by
  intro s hs
  have hs' := hs.createBlock (by simpa using Nat.lt_succ_of_lt s.block_lt) (Or.inr ⟨rfl, rfl⟩)
  exact hk _ (hs'.pos _ List.mem_cons_self) (fun hm => Nat.lt_irrefl _ (hs.lt.1 _ hm))
    (fun hm => Nat.lt_irrefl _ (hs.lt.2 _ hm)) _ hs'

theorem setInsertPoint {k : Unit → Builder O V Unit} (hΛ : Λ.Perm (l :: Λ'))
    (hj : ∀ x ∈ j, x.phi = none → x.block ≠ l) (hk : Completes j Λ' (some l) (k ())) :
    Completes j Λ none (setInsertPoint l >>= k) := by
  refine perm ?_ hΛ
  intro s hs
  have hlt := hs.lt.1 l List.mem_cons_self
  have hs' := hs.enter List.mem_cons_self hj hlt
  rw [List.erase_cons_head] at hs'
  obtain ⟨s', hrun, hend⟩ := hk _ hs'
  exact ⟨s', (congrArg (Option.bind · _) (dif_pos hlt)).trans hrun, hend⟩

/-- While no PHI is being given its operands. -/
theorem enter {k : Unit → Builder O V Unit} (hΛ : Λ.Perm (l :: Λ'))
    (hk : Completes none Λ' (some l) (k ())) :
    Completes none Λ none (Builder.setInsertPoint l >>= k) :=
  setInsertPoint hΛ (by simp) hk

/-- The block that begins with a PHI. -/
theorem enter_phi {K : Nat → Builder O V Unit} {ps : List Nat} (hΛ : Λ.Perm (l :: Λ'))
    (hk : ∀ n, Completes (some ⟨l, ps, some (n, [])⟩) Λ' (some l) (K n)) :
    Completes (some ⟨l, ps, none⟩) Λ none (Builder.setInsertPoint l >>= fun _ => phi >>= K) := by
  refine perm ?_ hΛ
  intro s hs
  have hlt := hs.lt.1 l List.mem_cons_self
  have hs' := hs.phi hlt
  rw [List.erase_cons_head] at hs'
  obtain ⟨s', hrun, hend⟩ := hk _ _ hs'
  exact ⟨s', (congrArg (Option.bind · _) (dif_pos hlt)).trans hrun, hend⟩

theorem addIncoming {n p : Nat} {ps es : List Nat} {o : Operand V} {k : Unit → Builder O V Unit}
    (hp : p ∉ es) (hk : Completes (some ⟨l, ps, some (n, es ++ [p])⟩) Λ cur (k ())) :
    Completes (some ⟨l, ps, some (n, es)⟩) Λ cur (Builder.addIncoming n o p >>= k) := by
  intro s hs
  have hnew : (n, p) ∉ s.edges.map fun e => (e.phi, e.pred) := fun hm =>
    hp (((hs.join _ rfl).edges n es rfl p).mp (Code.edge_isSome.mpr hm))
  obtain ⟨s', hrun, hend⟩ := hk _ hs.addIncoming
  exact ⟨s', (congrArg (Option.bind · _) (dif_neg hnew)).trans hrun, hend⟩

/-- The PHI is complete. -/
theorem merge {m : Builder O V Unit} {n : Nat} {ps : List Nat} (h : Completes none Λ cur m) :
    Completes (some ⟨l, ps, some (n, ps)⟩) Λ cur m := fun s hs => h s hs.merge

end Completes

end Ssa

end Tyr
