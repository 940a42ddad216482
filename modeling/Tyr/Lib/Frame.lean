import Tyr.Lib.Heap

/-
  Triples, and invariants that leave some blocks to the program.

  `Triple I x J`: a run of `x` that starts with `I` and ends normally ends with `J`. The result
  may speak of the value returned.
  `Frame Out I`: the blocks in `Out` may be written and freed without breaking `I`, and new blocks
  are in `Out`. Programs that write only through pointers into `Out` keep such an invariant; for
  the primitives these are `Frame.load`, `Frame.store`, `Frame.memcpy`, `Frame.malloc`,
  `Frame.free` and `Frame.realloc`. What `malloc` and `realloc` return leads into `Out`
  (`LeadsTo`), and with `Frame.and` it goes on doing so. `PointersIn` says the same of the
  pointers that are stored somewhere.
  `next_store`, `next_memcpy`, `next_malloc` and `next_realloc` bound how many blocks there are
  afterwards.
-/

namespace Tyr

namespace Prog

variable {α β : Type} {I I' : Heap → Prop} {J J' : α → Heap → Prop} {K : β → Heap → Prop}

def Triple (I : Heap → Prop) (x : Prog α) (J : α → Heap → Prop) : Prop :=
  ∀ h a h', I h → x h = .ok (a, h') → J a h'

namespace Triple

theorem pure {a : α} (h : ∀ g, I g → J a g) : Triple I (Pure.pure a : Prog α) J := by
  intro g b g' hg hrun
  cases hrun
  exact h g hg

theorem fault (e : Fault) : Triple I (Prog.fault e : Prog α) J := by
  intro g a g' _ hrun
  cases hrun

theorem bind {x : Prog α} {k : α → Prog β} (hx : Triple I x J) (hk : ∀ a, Triple (J a) (k a) K) :
    Triple I (x >>= k) K := by
  intro g b g' hg hrun
  obtain ⟨a, g₁, h1, h2⟩ := bind_eq_ok hrun
  exact hk a g₁ b g' (hx g a g₁ hg h1) h2

theorem ite {c : Prop} [Decidable c] {x y : Prog α} (hx : c → Triple I x J)
    (hy : ¬ c → Triple I y J) : Triple I (if c then x else y) J := by
  split
  · next hc => exact hx hc
  · next hc => exact hy hc

theorem weaken {x : Prog α} (hx : Triple I x J) (hI : ∀ g, I' g → I g)
    (hJ : ∀ a g, J a g → J' a g) : Triple I' x J' := by
  intro g a g' hg hrun
  exact hJ a g' (hx g a g' (hI g hg) hrun)

theorem post {x : Prog α} (hx : Triple I x J) (hJ : ∀ a g, J a g → J' a g) : Triple I x J' :=
  hx.weaken (fun _ hg => hg) hJ

/-- What the precondition implies for every heap may be used. -/
theorem given {c : Prop} {x : Prog α} (hc : ∀ g, I g → c) (hx : c → Triple I x J) :
    Triple I x J := by
  intro g a g' hg hrun
  exact hx (hc g hg) g a g' hg hrun

end Triple

end Prog

namespace Ptr

variable {Out : Nat → Prop} {p : Ptr}

/-- A pointer into the blocks `Out`, or to no block at all. -/
def Into (Out : Nat → Prop) (p : Ptr) : Prop := ∀ d o, p = .loc d o → Out d

/-- NULL, or a pointer into a block in `Out` that is there. -/
def LeadsTo (Out : Nat → Prop) (p : Ptr) (h : Heap) : Prop :=
  p = .null ∨ ∃ d o, p = .loc d o ∧ Out d ∧ d < h.next

theorem LeadsTo.into {h : Heap} (hp : p.LeadsTo Out h) : p.Into Out := by
  intro d o he
  rcases hp with rfl | ⟨d', o', rfl, hd, -⟩
  · cases he
  · obtain ⟨rfl, -⟩ := Ptr.loc.inj he
    exact hd

theorem LeadsTo.mono {h h' : Heap} (hp : p.LeadsTo Out h) (hle : h.next ≤ h'.next) :
    p.LeadsTo Out h' :=
  hp.imp_right fun ⟨d, o, he, hd, hlt⟩ => ⟨d, o, he, hd, Nat.lt_of_lt_of_le hlt hle⟩

theorem leadsTo_null (h : Heap) : null.LeadsTo Out h := Or.inl rfl

theorem leadsTo_base {h : Heap} {b : Nat} (hb : Out b) (hlt : b < h.next) :
    (base b).LeadsTo Out h := Or.inr ⟨b, 0, rfl, hb, hlt⟩

theorem Into.add (hp : p.Into Out) (k : I64) : (p.add k).Into Out := by
  intro d o he
  cases p with
  | null =>
    rw [Ptr.add] at he
    split at he
    · cases he
    · cases he
  | loc b o' =>
    obtain ⟨rfl, -⟩ := Ptr.loc.inj he
    exact hp b o' rfl
  | wild raw => cases he

end Ptr

/-! ## Pointers in memory -/

/-- Every pointer with a byte in `cs` leads into a block in `Out` that is there. -/
def PointersIn (Out : Nat → Prop) (cs : List Cell) (h : Heap) : Prop :=
  ∀ d o k, Cell.frag d o k ∈ cs → Out d ∧ d < h.next

namespace PointersIn

variable {Out : Nat → Prop} {cs : List Cell} {h h' : Heap}

theorem mono (hp : PointersIn Out cs h) (hle : h.next ≤ h'.next) : PointersIn Out cs h' :=
  fun d o k hm => ⟨(hp d o k hm).1, Nat.lt_of_lt_of_le (hp d o k hm).2 hle⟩

theorem imp {Out' : Nat → Prop} (hp : PointersIn Out cs h)
    (himp : ∀ d, d < h.next → Out d → Out' d) : PointersIn Out' cs h :=
  fun d o k hm => ⟨himp d (hp d o k hm).2 (hp d o k hm).1, (hp d o k hm).2⟩

theorem of_bytes (hb : ∀ c ∈ cs, ∃ b, c = .byte b) (h : Heap) : PointersIn Out cs h := by
  intro d o k hm
  obtain ⟨b, hc⟩ := hb _ hm
  cases hc

theorem encodePtr_null (size : Nat) (h : Heap) : PointersIn Out (encodePtr size .null) h :=
  of_bytes (fun _ hc => ⟨0, List.eq_of_mem_replicate hc⟩) h

theorem encodePtr {p : Ptr} (hp : p.LeadsTo Out h) (size : Nat) :
    PointersIn Out (encodePtr size p) h := by
  rcases hp with rfl | ⟨d, o, rfl, hd, hlt⟩
  · exact encodePtr_null size h
  · intro d' o' k hm
    obtain ⟨i, -, hi⟩ := List.mem_map.mp hm
    cases hi
    exact ⟨hd, hlt⟩

/-- The stored pointer itself. -/
theorem into {p : Ptr} {size : Nat} (hs : 0 < size) (hp : PointersIn Out (Tyr.encodePtr size p) h) :
    p.Into Out := by
  intro d o he
  subst he
  exact (hp d o 0 (List.mem_map.mpr ⟨0, List.mem_range.mpr hs, rfl⟩)).1

end PointersIn

/-- A block that is loaded from or stored to is live. -/
theorem live_of_load {b n : Nat} {o : I64} {h : Heap} {r : List Cell × Heap}
    (hrun : load (.loc b o) n h = .ok r) : ∃ blk, h.block? b = some blk := by
  unfold load at hrun
  split at hrun
  · next cs hread =>
    obtain ⟨b', o', blk, he, hb, -⟩ := Heap.read_eq_some hread
    obtain ⟨rfl, -⟩ := Ptr.loc.inj he
    exact ⟨blk, hb⟩
  · cases hrun

theorem live_of_store {b : Nat} {o : I64} {cs : List Cell} {h : Heap} {r : Unit × Heap}
    (hrun : store (.loc b o) cs h = .ok r) : ∃ blk, h.block? b = some blk := by
  simp only [store] at hrun
  split at hrun
  · next blk hb => exact ⟨blk, hb⟩
  · cases hrun

/-- Loading a pointer and storing it again changes nothing. -/
theorem encodePtr_decodePtr (size : Nat) (cs : List Cell) :
    encodePtr size (decodePtr size cs) = cs := by
  unfold decodePtr
  split
  · next h => exact h.symm
  · split
    · split
      · next h => exact h.symm
      · rfl
    · rfl

theorem Allocator.pointersIn_fresh {Out : Nat → Prop} (A : Allocator) (t : Nat) (n : I64)
    {cs : List Cell} (hcs : ∀ c ∈ cs, c ∈ (A.fresh t n).cells) (h : Heap) :
    PointersIn Out cs h := by
  refine .of_bytes (fun c hc => ?_) h
  obtain ⟨i, -, rfl⟩ := List.mem_map.mp (hcs c hc)
  exact ⟨_, rfl⟩

namespace Heap

/-- `I` does not depend on the blocks in `Out`, and blocks still to come are in `Out`. -/
structure Frame (Out : Nat → Prop) (I : Heap → Prop) : Prop where
  update : ∀ h d blk, I h → Out d → I (h.update d blk)
  kill : ∀ h d, I h → Out d → I (h.kill d)
  push : ∀ h blk, I h → I (h.push blk)
  tick : ∀ h, I h → I h.tick
  next : ∀ h, I h → Out h.next

/-- Blocks from `g.next` on are free to change while `g` stays. -/
theorem Extends.frame (g : Heap) : Frame (g.next ≤ ·) g.Extends where
  update _ _ _ he hd := he.update hd _
  kill _ _ he hd := he.kill hd
  push _ _ he := he.push _
  tick _ he := ⟨he.next_le, he.block?_eq⟩
  next _ he := he.next_le

namespace Frame

open Prog

variable {Out : Nat → Prop} {I : Heap → Prop} (hI : Frame Out I) {p q : Ptr} {A : Allocator}

include hI

/-- What blocks to come do not change may be added. -/
theorem and {P : Heap → Prop} (hP : ∀ h h', h.next ≤ h'.next → P h → P h') :
    Frame Out fun h => I h ∧ P h where
  update h d blk hh hd := ⟨hI.update h d blk hh.1 hd, hP h _ (by rw [next_update]) hh.2⟩
  kill h d hh hd := ⟨hI.kill h d hh.1 hd, hP h _ (by rw [next_kill]) hh.2⟩
  push h blk hh := ⟨hI.push h blk hh.1, hP h _ (by rw [next_push]; exact Nat.le_succ _) hh.2⟩
  tick h hh := ⟨hI.tick h hh.1, hP h _ (by rw [next_tick]) hh.2⟩
  next h hh := hI.next h hh.1

omit hI in
theorem load (p : Ptr) (n : Nat) : Triple I (Tyr.load p n) fun _ h => I h := by
  intro h cs h' hh hrun
  unfold Tyr.load at hrun
  split at hrun
  · cases hrun
    exact hh
  · cases hrun

theorem store (hp : p.Into Out) (cs : List Cell) : Triple I (Tyr.store p cs) fun _ h => I h := by
  intro h a h' hh hrun
  unfold Tyr.store at hrun
  split at hrun
  · next b o =>
    split at hrun
    · split at hrun
      · cases hrun
        exact hI.update _ _ _ hh (hp b o rfl)
      · cases hrun
    · cases hrun
  · cases hrun

theorem memcpy (hp : p.Into Out) (src : Ptr) (n : I64) :
    Triple I (Tyr.memcpy p src n) fun _ h => I h := by
  unfold Tyr.memcpy
  refine .ite (fun _ => .pure fun _ hg => hg) fun _ => .bind (load src _) fun cs => ?_
  exact hI.store hp cs

theorem malloc (n : I64) :
    Triple I (Tyr.malloc A n) fun q h => I h ∧ q.LeadsTo Out h := by
  intro h q h' hh hrun
  unfold Tyr.malloc at hrun
  split at hrun
  · cases hrun
    exact ⟨hI.push _ _ hh, Ptr.leadsTo_base (hI.next h hh) (by rw [next_push]; omega)⟩
  · cases hrun
    exact ⟨hI.tick h hh, Ptr.leadsTo_null _⟩

theorem free (hp : p.Into Out) : Triple I (Tyr.free p) fun _ h => I h := by
  intro h a h' hh hrun
  cases p with
  | null =>
    cases hrun
    exact hh
  | loc b o =>
    simp only [Tyr.free] at hrun
    split at hrun
    · split at hrun
      · cases hrun
        exact hI.kill _ _ hh (hp b o rfl)
      · cases hrun
    · cases hrun
  | wild raw => cases hrun

theorem realloc (hp : p.Into Out) (n : I64) :
    Triple I (Tyr.realloc A p n) fun q h => I h ∧ q.LeadsTo Out h := by
  intro h q h' hh hrun
  cases p with
  | null => exact hI.malloc n h q h' hh hrun
  | wild raw => cases hrun
  | loc b o =>
    have hb := hp b o rfl
    simp only [Tyr.realloc] at hrun
    split at hrun
    · split at hrun
      · split at hrun
        · cases hrun
          exact ⟨hI.tick _ (hI.kill _ _ hh hb), Ptr.leadsTo_null _⟩
        · split at hrun
          · cases hrun
            refine ⟨hI.push _ _ (hI.kill _ _ hh hb), Ptr.leadsTo_base (hI.next h hh) ?_⟩
            rw [next_push, next_kill]
            omega
          · cases hrun
            exact ⟨hI.tick h hh, Ptr.leadsTo_null _⟩
      · cases hrun
    · cases hrun

end Frame

end Heap

/-! ## How many blocks there are -/

/-- There are `m` blocks and at most one more, and then the one at `p` is gone. -/
def Heap.Replaces (m : Nat) (p : Ptr) (h : Heap) : Prop :=
  h.next ≤ m + 1 ∧ (h.next = m ∨ ∀ d, p = .base d → h.block? d = none)

theorem Heap.Replaces.update {m b : Nat} {p : Ptr} {h : Heap} {old : Block} (hr : h.Replaces m p)
    (hb : h.block? b = some old) (blk : Block) : (h.update b blk).Replaces m p := by
  unfold Replaces
  rw [Heap.next_update]
  refine ⟨hr.1, hr.2.imp_right fun hgone d hd => ?_⟩
  have hne : d ≠ b := by
    rintro rfl
    rw [hgone d hd] at hb
    cases hb
  rw [Heap.block?_update_ne h hne]
  exact hgone d hd

namespace Prog.Triple

variable {I : Heap → Prop} {m : Nat}

/-- What an update of a live block keeps, a store keeps. -/
theorem store (hI : ∀ h b old blk, I h → h.block? b = some old → I (h.update b blk)) (p : Ptr)
    (cs : List Cell) : Triple I (store p cs) fun _ h => I h := by
  intro h a h' hh hrun
  unfold Tyr.store at hrun
  split at hrun
  · split at hrun
    · next old hb =>
      split at hrun
      · cases hrun
        exact hI _ _ old _ hh hb
      · cases hrun
    · cases hrun
  · cases hrun

theorem memcpy (hI : ∀ h b old blk, I h → h.block? b = some old → I (h.update b blk))
    (dst src : Ptr) (n : I64) : Triple I (memcpy dst src n) fun _ h => I h := by
  unfold Tyr.memcpy
  refine .ite (fun _ => .pure fun _ hm => hm) fun _ => .bind (Heap.Frame.load src _) fun cs => ?_
  exact store hI dst cs

theorem next_store (p : Ptr) (cs : List Cell) :
    Triple (fun h => h.next ≤ m) (Tyr.store p cs) fun _ h => h.next ≤ m :=
  store (fun h b _ blk hm _ => by rwa [Heap.next_update]) p cs

theorem next_memcpy (dst src : Ptr) (n : I64) :
    Triple (fun h => h.next ≤ m) (Tyr.memcpy dst src n) fun _ h => h.next ≤ m :=
  memcpy (fun h b _ blk hm _ => by rwa [Heap.next_update]) dst src n

theorem next_malloc (A : Allocator) (n : I64) :
    Triple (fun h => h.next ≤ m) (malloc A n) fun _ h => h.next ≤ m + 1 := by
  intro h a h' hm hrun
  unfold Tyr.malloc at hrun
  split at hrun
  · cases hrun
    rw [Heap.next_push]
    exact Nat.succ_le_succ hm
  · cases hrun
    rw [Heap.next_tick]
    exact Nat.le_succ_of_le hm

/-- Where `realloc` has made a block the old one is gone. -/
theorem next_realloc (A : Allocator) (p : Ptr) (n : I64) :
    Triple (fun h => h.next = m) (realloc A p n) fun _ h => h.Replaces m p := by
  intro h q h' hm hrun
  have hsame : ∀ g : Heap, g.next = m → g.Replaces m p := fun g hg =>
    ⟨Nat.le_succ_of_le (Nat.le_of_eq hg), Or.inl hg⟩
  cases p with
  | null =>
    exact ⟨next_malloc A n h q h' (Nat.le_of_eq hm) hrun, Or.inr fun d hd => nomatch hd⟩
  | wild raw => cases hrun
  | loc b o =>
    simp only [Tyr.realloc] at hrun
    split at hrun
    · next old hb =>
      split at hrun
      · split at hrun
        · cases hrun
          exact hsame _ (by rwa [Heap.next_tick, Heap.next_kill])
        · split at hrun
          · cases hrun
            refine ⟨by rw [Heap.next_push, Heap.next_kill, hm], Or.inr fun d hd => ?_⟩
            obtain ⟨rfl, -⟩ := Ptr.loc.inj hd
            rw [Heap.block?_push_of_lt (by rw [Heap.next_kill]; exact Heap.lt_next hb),
              Heap.block?_kill_self]
          · cases hrun
            exact hsame _ (by rwa [Heap.next_tick])
      · cases hrun
    · cases hrun

end Prog.Triple

end Tyr
