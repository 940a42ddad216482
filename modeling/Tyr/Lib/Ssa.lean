import Tyr.Lib.Heap

/-
  Functions of basic blocks in static single assignment form, and the builder that appends to
  them.

  An instruction applies an operation to operands and names the result; a block ends with a
  branch or a return; a PHI takes the operand of the edge the block was entered by. Operations
  are a parameter (`Machine`). A run has fuel: one unit for each block entered, and `Runs` says
  that with enough of it a run is a given program.

  A `Builder` appends instructions to the block it is at, as LLVM's `IRBuilder` does. Nothing it
  has written changes later: that is a field of the type (`grows`).
-/

namespace Tyr

/-! ## Runs with fuel -/

/-- A heap transformer that may fault, or lack fuel (`none`). -/
def Part (α : Type) : Type := Heap → Option (Except Fault (α × Heap))

namespace Part

variable {α β : Type}

instance : Monad Part where
  pure a h := some (.ok (a, h))
  bind x f h := match x h with
    | some (.ok (a, h')) => f a h'
    | some (.error e) => some (.error e)
    | none => none

def ofProg (p : Prog α) : Part α := fun h => some (p h)

def fault (e : Fault) : Part α := ofProg (Prog.fault e)

def exhausted : Part α := fun _ => none

theorem bind_of_ok {x : Part α} {f : α → Part β} {h h' : Heap} {a : α}
    (hx : x h = some (.ok (a, h'))) : (x >>= f) h = f a h' := by
  show (match x h with
    | some (.ok (a, h')) => f a h'
    | some (.error e) => some (.error e)
    | none => none) = _
  rw [hx]

theorem bind_of_error {x : Part α} {f : α → Part β} {h : Heap} {e : Fault}
    (hx : x h = some (.error e)) : (x >>= f) h = some (.error e) := by
  show (match x h with
    | some (.ok (a, h')) => f a h'
    | some (.error e) => some (.error e)
    | none => none) = _
  rw [hx]

end Part

/-- `p` can end normally with `a`. -/
def Prog.Returns {α : Type} (p : Prog α) (a : α) : Prop := ∃ h h', p h = .ok (a, h')

theorem Prog.Returns.pure {α : Type} {a b : α} (h : Returns (pure a : Prog α) b) : b = a := by
  obtain ⟨h₁, h₂, hrun⟩ := h
  rw [Prog.pure_apply] at hrun
  cases hrun
  rfl

/-- With enough fuel `x` is the program `p`. -/
def Runs {α : Type} (x : Nat → Part α) (p : Prog α) : Prop :=
  ∀ h, ∃ n, ∀ m, n ≤ m → x m h = some (p h)

namespace Runs

variable {α β : Type} {x : Nat → Part α} {p : Prog α}

theorem const (p : Prog α) : Runs (fun _ => Part.ofProg p) p := fun _ => ⟨0, fun _ _ => rfl⟩

theorem pure (a : α) : Runs (fun _ => Pure.pure a) (Pure.pure a : Prog α) := const _

theorem fault (e : Fault) : Runs (fun _ => Part.fault e) (Prog.fault e : Prog α) := const _

/-- `x` returns what `p` does, as a value of another type. -/
theorem bind_map {γ : Type} {x : Nat → Part γ} {g : α → γ}
    (hx : Runs x (p >>= fun a => Pure.pure (g a))) {k : γ → Nat → Part β} {c : α → Prog β}
    (hk : ∀ a, p.Returns a → Runs (k (g a)) (c a)) :
    Runs (fun n => x n >>= fun v => k v n) (p >>= c) := by
  intro h
  obtain ⟨n, hn⟩ := hx h
  cases hp : p h with
  | error e =>
    refine ⟨n, fun m hm => ?_⟩
    rw [Prog.bind_of_error hp]
    exact Part.bind_of_error ((hn m hm).trans (by rw [Prog.bind_of_error hp]))
  | ok r =>
    obtain ⟨a, h'⟩ := r
    obtain ⟨n', hn'⟩ := hk a ⟨h, h', hp⟩ h'
    refine ⟨max n n', fun m hm => ?_⟩
    rw [Prog.bind_of_ok hp]
    have hxm := (hn m (by omega)).trans (by rw [Prog.bind_of_ok hp, Prog.pure_apply])
    exact (Part.bind_of_ok hxm).trans (hn' m (by omega))

/-- One unit of fuel more. -/
theorem succ (hx : Runs (fun n => x (n + 1)) p) : Runs x p := by
  intro h
  obtain ⟨n, hn⟩ := hx h
  refine ⟨n + 1, fun m hm => ?_⟩
  obtain ⟨k, rfl⟩ : ∃ k, m = k + 1 := ⟨m - 1, by omega⟩
  exact hn k (by omega)

end Runs

namespace Ssa

variable {O V α β : Type}

/-! ## Code -/

inductive Operand (V : Type) where
  | const (v : V)
  | arg (i : Nat)
  | reg (n : Nat)

inductive Inst (O V : Type) where
  | op (dst : Nat) (o : O) (args : List (Operand V))
  | phi (dst : Nat)
  | br (target : Nat)
  | condBr (cond : Operand V) (ifTrue ifFalse : Nat)
  | ret (value : Operand V)

/-- What a PHI takes when its block is entered from `pred`. -/
structure Edge (V : Type) where
  phi : Nat
  pred : Nat
  value : Operand V

/-- The blocks of a function, the first being its entry. A PHI has one operand for each block it
    is entered from. -/
structure Code (O V : Type) where
  blocks : List (List (Inst O V))
  edges : List (Edge V)
  nextReg : Nat
  keys_nodup : (edges.map fun e => (e.phi, e.pred)).Nodup

namespace Code

def empty : Code O V := ⟨[], [], 0, List.nodup_nil⟩

def edge (F : Code O V) (phi pred : Nat) : Option (Operand V) :=
  (F.edges.find? fun e => e.phi = phi ∧ e.pred = pred).map Edge.value

theorem edge_of_mem {F : Code O V} {phi pred : Nat} {o : Operand V}
    (h : ⟨phi, pred, o⟩ ∈ F.edges) : F.edge phi pred = some o := by
  unfold edge
  cases hfind : F.edges.find? fun e => e.phi = phi ∧ e.pred = pred with
  | none =>
    have hne := List.find?_eq_none.mp hfind _ h
    simp at hne
  | some e =>
    have hkey : e.phi = phi ∧ e.pred = pred := by simpa using List.find?_some hfind
    have he := List.inj_on_of_nodup_map F.keys_nodup (List.mem_of_find?_eq_some hfind) h
      (by rw [hkey.1, hkey.2])
    rw [he]
    rfl

/-- `G` is `F` with more at the ends of its blocks, more blocks and more edges. -/
structure Le (F G : Code O V) : Prop where
  blocks : ∀ (l : Nat) is, F.blocks[l]? = some is → ∃ js, G.blocks[l]? = some (is ++ js)
  edges : ∀ e ∈ F.edges, e ∈ G.edges
  nextReg : F.nextReg ≤ G.nextReg

theorem Le.refl (F : Code O V) : F.Le F :=
  ⟨fun _ is h => ⟨[], by rw [h, List.append_nil]⟩, fun _ h => h, Nat.le_refl _⟩

theorem Le.trans {F G H : Code O V} (h₁ : F.Le G) (h₂ : G.Le H) : F.Le H where
  blocks l is h := by
    obtain ⟨js, hjs⟩ := h₁.blocks l is h
    obtain ⟨ks, hks⟩ := h₂.blocks l _ hjs
    exact ⟨js ++ ks, by rw [hks, List.append_assoc]⟩
  edges e h := h₂.edges e (h₁.edges e h)
  nextReg := Nat.le_trans h₁.nextReg h₂.nextReg

end Code

/-! ## Runs -/

/-- The arguments of a call and the registers assigned so far. -/
structure Regs (V : Type) where
  args : List V
  val : Nat → Option V

namespace Regs

def set (ρ : Regs V) (n : Nat) (v : V) : Regs V :=
  { ρ with val := fun k => if k = n then some v else ρ.val k }

def eval (ρ : Regs V) : Operand V → Option V
  | .const v => some v
  | .arg i => ρ.args[i]?
  | .reg n => ρ.val n

def evalAll (ρ : Regs V) (os : List (Operand V)) : Option (List V) := os.mapM ρ.eval

end Regs

/-- What the operations do, with fuel for the code they call, and which values are true. -/
structure Machine (O V : Type) where
  eval : O → List V → Nat → Part V
  isTrue : V → Bool

variable (M : Machine O V) (F : Code O V)

/-- Run the instructions that are left of a block that was entered from `pred` with the registers
    `entry`. -/
def runFrom (fuel : Nat) (jump : Nat → Regs V → Part V) (pred : Nat) (entry : Regs V) :
    List (Inst O V) → Regs V → Part V
  | [], _ => Part.fault .invalid
  | .op dst o args :: rest, ρ =>
    match ρ.evalAll args with
    | some vs => do
      let v ← M.eval o vs fuel
      runFrom fuel jump pred entry rest (ρ.set dst v)
    | none => Part.fault .invalid
  | .phi dst :: rest, ρ =>
    match (F.edge dst pred).bind entry.eval with
    | some v => runFrom fuel jump pred entry rest (ρ.set dst v)
    | none => Part.fault .invalid
  | .br target :: _, ρ => jump target ρ
  | .condBr cond ifTrue ifFalse :: _, ρ =>
    match ρ.eval cond with
    | some v => jump (if M.isTrue v then ifTrue else ifFalse) ρ
    | none => Part.fault .invalid
  | .ret value :: _, ρ =>
    match ρ.eval value with
    | some v => pure v
    | none => Part.fault .invalid

/-- Enter block `l` from `pred`. -/
def exec : Nat → Nat → Nat → Regs V → Part V
  | 0, _, _, _ => Part.exhausted
  | fuel + 1, pred, l, ρ =>
    match F.blocks[l]? with
    | some is => runFrom M F fuel (exec fuel l) pred ρ is ρ
    | none => Part.fault .invalid

/-- Call the function. -/
def call (args : List V) (fuel : Nat) : Part V := exec M F fuel 0 0 ⟨args, fun _ => none⟩

/-! ## Builders -/

/-- Code under construction, and the block that instructions are appended to. -/
structure State (O V : Type) extends Code O V where
  block : Nat
  block_lt : block < blocks.length

namespace State

/-- At a new block behind those of `F`. -/
def newBlock (F : Code O V) : State O V where
  blocks := F.blocks ++ [[]]
  edges := F.edges
  nextReg := F.nextReg
  keys_nodup := F.keys_nodup
  block := F.blocks.length
  block_lt := by simp

variable (s : State O V)

def append (i : Inst O V) (nextReg : Nat) : State O V where
  blocks := s.blocks.modify s.block (· ++ [i])
  edges := s.edges
  nextReg := nextReg
  keys_nodup := s.keys_nodup
  block := s.block
  block_lt := by rw [List.length_modify]; exact s.block_lt

theorem le_append (i : Inst O V) {nextReg : Nat} (h : s.nextReg ≤ nextReg) :
    s.toCode.Le (s.append i nextReg).toCode where
  blocks l is hl := by
    refine ⟨if s.block = l then [i] else [], ?_⟩
    simp only [append, List.getElem?_modify, hl, Option.map_eq_map, Option.map_some]
    split <;> simp
  edges _ h := h
  nextReg := h

/-- What `F` has in the block after what is there now. -/
def rest (F : Code O V) : List (Inst O V) :=
  (F.blocks.getD s.block []).drop (s.blocks.getD s.block []).length

theorem rest_append {F : Code O V} {i : Inst O V} {n : Nat} (h : (s.append i n).toCode.Le F) :
    s.rest F = i :: (s.append i n).rest F := by
  obtain ⟨is, his⟩ : ∃ is, s.blocks[s.block]? = some is :=
    ⟨_, List.getElem?_eq_getElem s.block_lt⟩
  have hnow : (s.append i n).blocks[s.block]? = some (is ++ [i]) := by
    simp [append, his]
  obtain ⟨js, hjs⟩ := h.blocks s.block _ hnow
  have hblock : (s.append i n).block = s.block := rfl
  simp only [rest, hblock, List.getD_eq_getElem?_getD, his, hnow, hjs, Option.getD_some,
    List.append_assoc, List.drop_left]
  rw [← List.append_assoc, List.drop_left]
  rfl

end State

/-- A computation that appends to code; `none` where the program that builds the code breaks
    off. -/
structure Builder (O V α : Type) where
  run : State O V → Option (α × State O V)
  grows : ∀ {s a s'}, run s = some (a, s') → s.toCode.Le s'.toCode

namespace Builder

theorem ext {m m' : Builder O V α} (h : ∀ s, m.run s = m'.run s) : m = m' := by
  cases m; cases m'
  obtain rfl := funext h
  rfl

instance : Monad (Builder O V) where
  pure a := ⟨fun s => some (a, s), fun h => by cases h; exact Code.Le.refl _⟩
  bind m k :=
    ⟨fun s => (m.run s).bind fun r => (k r.1).run r.2, fun h => by
      obtain ⟨⟨a, s₁⟩, h₁, h₂⟩ := Option.bind_eq_some_iff.mp h
      exact (m.grows h₁).trans ((k a).grows h₂)⟩

theorem bind_eq_some {m : Builder O V α} {k : α → Builder O V β} {s s' : State O V} {b : β}
    (h : (m >>= k).run s = some (b, s')) :
    ∃ a s₁, m.run s = some (a, s₁) ∧ (k a).run s₁ = some (b, s') := by
  obtain ⟨⟨a, s₁⟩, h₁, h₂⟩ := Option.bind_eq_some_iff.mp h
  exact ⟨a, s₁, h₁, h₂⟩

theorem bind_assoc {γ : Type} (m : Builder O V α) (k : α → Builder O V β)
    (k' : β → Builder O V γ) : m >>= k >>= k' = m >>= fun a => k a >>= k' :=
  ext fun _ => Option.bind_assoc _ _ _

theorem pure_bind (a : α) (k : α → Builder O V β) : pure a >>= k = k a := rfl

theorem bind_pure (m : Builder O V α) : m >>= pure = m := by
  refine ext fun s => ?_
  show (m.run s).bind (fun r => some r) = m.run s
  exact Option.bind_fun_some _

/-- Stop building. -/
def fail : Builder O V α := ⟨fun _ => none, fun h => nomatch h⟩

/-- Append an operation; its result is a new register. -/
def emit (o : O) (args : List (Operand V)) : Builder O V (Operand V) where
  run s := some (.reg s.nextReg, s.append (.op s.nextReg o args) (s.nextReg + 1))
  grows h := by
    cases h
    exact State.le_append _ _ (Nat.le_succ _)

/-- Append a PHI. -/
def phi : Builder O V Nat where
  run s := some (s.nextReg, s.append (.phi s.nextReg) (s.nextReg + 1))
  grows h := by
    cases h
    exact State.le_append _ _ (Nat.le_succ _)

def addIncoming (n : Nat) (value : Operand V) (pred : Nat) : Builder O V Unit where
  run s :=
    if h : (n, pred) ∈ s.edges.map fun e => (e.phi, e.pred) then none
    else some ((), { s with
      edges := s.edges ++ [⟨n, pred, value⟩]
      keys_nodup := by
        rw [List.map_append]
        exact List.Nodup.append s.keys_nodup (List.nodup_singleton _) (by simpa using h) })
  grows h := by
    split at h
    · cases h
    · cases h
      exact ⟨fun _ is hl => ⟨[], by rw [hl, List.append_nil]⟩,
        fun _ he => List.mem_append_left _ he, Nat.le_refl _⟩

def createBlock : Builder O V Nat where
  run s := some (s.blocks.length, { s with
    blocks := s.blocks ++ [[]]
    block_lt := by rw [List.length_append]; exact Nat.lt_add_right _ s.block_lt })
  grows h := by
    cases h
    refine ⟨fun l is hl => ⟨[], ?_⟩, fun _ he => he, Nat.le_refl _⟩
    rw [List.append_nil, List.getElem?_append_left (List.getElem?_eq_some_iff.mp hl).1, hl]

def getInsertBlock : Builder O V Nat :=
  ⟨fun s => some (s.block, s), fun h => by cases h; exact Code.Le.refl _⟩

def setInsertPoint (l : Nat) : Builder O V Unit where
  run s := if h : l < s.blocks.length then some ((), { s with block := l, block_lt := h }) else none
  grows h := by
    split at h
    · cases h
      exact ⟨fun _ is hl => ⟨[], by rw [hl, List.append_nil]⟩, fun _ he => he, Nat.le_refl _⟩
    · cases h

/-- Append a branch or a return. -/
def terminate (i : Inst O V) : Builder O V Unit where
  run s := some ((), s.append i s.nextReg)
  grows h := by
    cases h
    exact State.le_append _ _ (Nat.le_refl _)

def br (target : Nat) : Builder O V Unit := terminate (.br target)

def condBr (cond : Operand V) (ifTrue ifFalse : Nat) : Builder O V Unit :=
  terminate (.condBr cond ifTrue ifFalse)

def ret (value : Operand V) : Builder O V Unit := terminate (.ret value)

end Builder

end Ssa

end Tyr
