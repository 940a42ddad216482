import Tyr.Lib.Heap

/-
  What a program does to the heap, whatever it returns.

  `Maintains R x`: every run of `x` that ends normally relates the heap before to the heap after
  by `R`. For a reflexive and transitive `R` this is closed under the operations of the monad
  (`Maintains.pure`, `Maintains.bind`), so it is shown for the memory accesses and then follows
  the shape of a program.
  `Heap.Retains` is such a relation: no block is released. All primitives but `free` and
  `realloc` maintain it.
-/

namespace Tyr

namespace Prog

variable {α β : Type} {R : Heap → Heap → Prop}

/-- Runs of `x` relate the heaps before and after by `R`. -/
def Maintains (R : Heap → Heap → Prop) (x : Prog α) : Prop :=
  ∀ h a h', x h = .ok (a, h') → R h h'

namespace Maintains

theorem fault (e : Fault) : Maintains R (Prog.fault e : Prog α) := by
  intro h a h' hrun
  cases hrun

theorem ite {c : Prop} [Decidable c] {x y : Prog α} (hx : Maintains R x) (hy : Maintains R y) :
    Maintains R (if c then x else y) := by
  split
  · exact hx
  · exact hy

theorem pure [Std.Refl R] (a : α) : Maintains R (Pure.pure a : Prog α) := by
  intro h b h' hrun
  cases hrun
  exact refl_of R h

theorem bind [IsTrans Heap R] {x : Prog α} {f : α → Prog β} (hx : Maintains R x)
    (hf : ∀ a, Maintains R (f a)) : Maintains R (x >>= f) := by
  intro h b h' hrun
  obtain ⟨a, h₁, h1, h2⟩ := bind_eq_ok hrun
  exact trans_of R (hx h a h₁ h1) (hf a h₁ b h' h2)

theorem load [Std.Refl R] (p : Ptr) (n : Nat) : Maintains R (load p n) := by
  intro h cs h' hrun
  unfold Tyr.load at hrun
  split at hrun
  · cases hrun
    exact refl_of R h
  · cases hrun

theorem memcpy [Std.Refl R] [IsTrans Heap R] {dst : Ptr}
    (hstore : ∀ cs, Maintains R (store dst cs)) (src : Ptr) (n : I64) :
    Maintains R (memcpy dst src n) := by
  unfold Tyr.memcpy
  exact .ite (.pure ()) (.bind (.load src _) hstore)

end Maintains

end Prog

namespace Heap

/-- Every live block is still live. -/
def Retains (h h' : Heap) : Prop := ∀ b, (h.block? b).isSome → (h'.block? b).isSome

instance : Std.Refl Retains := ⟨fun _ _ hb => hb⟩

instance : IsTrans Heap Retains := ⟨fun _ _ _ h12 h23 b hb => h23 b (h12 b hb)⟩

theorem retains_update {h : Heap} {b : Nat} {old : Block} (hb : h.block? b = some old)
    (blk : Block) : h.Retains (h.update b blk) := by
  intro d hd
  by_cases hdb : d = b
  · subst hdb
    rw [block?_update_self hb]
    rfl
  · rw [block?_update_ne h hdb]
    exact hd

theorem retains_push (h : Heap) (blk : Block) : h.Retains (h.push blk) := by
  intro d hd
  obtain ⟨old, hold⟩ := Option.isSome_iff_exists.mp hd
  rw [block?_push_of_some hold]
  rfl

end Heap

open Prog

theorem store_retains (p : Ptr) (cs : List Cell) : Maintains Heap.Retains (store p cs) := by
  intro h a h' hrun
  unfold store at hrun
  split at hrun
  · split at hrun
    · next blk hblk =>
      split at hrun
      · cases hrun
        exact Heap.retains_update hblk _
      · cases hrun
    · cases hrun
  · cases hrun

theorem malloc_retains (A : Allocator) (n : I64) : Maintains Heap.Retains (malloc A n) := by
  intro h a h' hrun
  unfold malloc at hrun
  split at hrun
  · cases hrun
    exact Heap.retains_push h _
  · cases hrun
    exact refl_of Heap.Retains h

theorem memcpy_retains (dst src : Ptr) (n : I64) : Maintains Heap.Retains (memcpy dst src n) :=
  .memcpy (store_retains dst) src n

end Tyr
