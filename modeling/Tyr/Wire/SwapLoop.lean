import Tyr.CodeGen.Emitted
import Tyr.Lib.Items
import Tyr.Wire.Determined
import Tyr.Wire.Interchange

/-
  What the loop of `swapArrayBytes` touches.

  The bound is tested behind the body, for equality: from the first element on the loop does one
  round for each element of an array and stops after the last one (`swapLoop_items`, by induction
  on the rounds that are left), but an empty array gets a first round too, and the counter that is
  then past the bound would have to wrap to meet it. `swapsExactly_iff`: on a big-endian layout
  the emitted code swaps the elements, touches nothing else and undoes itself exactly if the count
  is not 0 and the elements are no pointers, for which no `bswap` can be built.
-/

namespace Tyr

open Prog Traced

namespace Emitted

/-! ## Accesses -/

section Accesses

variable (E : Env) (t : Ty) (p : Ptr)

/-- The load and the store of element `i`. -/
def itemAccesses (i : I64) : List Access :=
  List.replicate 2 ⟨E.itemGEP t p i, E.layout.getABITypeAlignment t⟩

/-- Those of `m` elements from element `lo` on, in this order. -/
def arrayAccesses (lo m : Nat) : List Access :=
  (List.range' lo m).flatMap fun k => itemAccesses E t p (BitVec.ofNat 64 k)

theorem arrayAccesses_zero (lo : Nat) : arrayAccesses E t p lo 0 = [] := rfl

theorem arrayAccesses_succ (i : I64) (m : Nat) :
    arrayAccesses E t p i.toNat (m + 1) =
      itemAccesses E t p i ++ arrayAccesses E t p (i.toNat + 1) m := by
  unfold arrayAccesses
  rw [List.range'_succ, List.flatMap_cons, BitVec.ofNat_toNat, BitVec.setWidth_eq]

end Accesses

/-! ## One round -/

section Round

variable {E : Env} {t : Ty} {r : Nat} {o n : I64} {g : Heap} {out : Block}

variable (E t o) in
/-- Elements `lo` to `hi` have their bytes reversed, and all other bytes are unchanged. -/
def ReversesElements (lo hi : Nat) (out out' : Block) : Prop :=
  Reverses (E.layout.allocSize t) (E.layout.storeSize t) o.toNat lo hi (E.bytesOf out.cells)
    (E.bytesOf out'.cells)

theorem isSwapped_of_hasBswap (hb : t.hasBswap = true) : t.isSwapped = true := by
  cases t with
  | int k =>
    simp only [Ty.hasBswap, Ty.isSwapped, decide_eq_true_eq] at hb ⊢
    omega
  | float => rfl
  | double => rfl
  | struct i s => cases hb
  | ptr t => cases hb

/-- What is stored for the value of some bytes is these bytes, turned around. -/
theorem wireCells_decode (hBE : E.layout.bigEndian = true) (hs : t.isSwapped = true)
    {raw : List Cell} (hraw : raw.length = E.layout.storeSize t) :
    E.wireCells t (E.decode t raw).asInt = (E.bytesOf raw).reverse.map .byte := by
  have hnp : t.isPointerTy = false := by
    cases t <;> first | rfl | cases hs
  have hlen : (E.bytesOf raw).reverse.length = E.layout.storeSize t := by
    rw [List.length_reverse, Env.bytesOf, List.length_map, hraw]
  have hlt := ofLE_lt (E.bytesOf raw).reverse
  rw [hlen, ← Env.pow_bits hs] at hlt
  have hvalue : (E.decode t raw).asInt = ofLE (E.bytesOf raw).reverse := by
    simp only [Env.decode, hnp, Bool.false_eq_true, if_false, Val.asInt, decodeInt, hBE, inOrder,
      if_true]
    exact Nat.mod_eq_of_lt hlt
  rw [hvalue, Env.wireCells_swapped hlt hs, ← hlen, toLE_ofLE]

theorem bytesOf_splice (E : Env) (cs w : List Cell) (q : Nat) :
    E.bytesOf (splice cs q w) = splice (E.bytesOf cs) q (E.bytesOf w) := by
  unfold Env.bytesOf splice
  simp only [List.map_append, List.map_take, List.map_drop, List.length_map]

theorem run_loadTy {p : Ptr} {v : Val} (hload : E.loadTy t p g = .ok (v, g)) :
    loadTy E t p g = ([⟨p, E.layout.getABITypeAlignment t⟩], .ok (v, g)) := by
  show ([_] ++ [], E.loadTy t p g) = _
  rw [hload]
  rfl

theorem run_storeTy {p : Ptr} {v : Val} {g' : Heap} (hstore : E.storeTy t v p g = .ok ((), g')) :
    storeTy E t v p g = ([⟨p, E.layout.getABITypeAlignment t⟩], .ok ((), g')) := by
  show ([_] ++ [], E.storeTy t v p g) = _
  rw [hstore]
  rfl

/-- The body of the loop. -/
theorem swapElement_run (ht : t.IsScalar) (hb : t.hasBswap = true)
    (hBE : E.layout.bigEndian = true) {i : I64} (hout : g.block? r = some out)
    (hfit : o.toNat + E.layout.allocSize t * (i.toNat + 1) ≤ out.cells.length) :
    ∃ out' : Block, ReversesElements E t o i.toNat (i.toNat + 1) out out' ∧
      ∀ next : Traced Access Unit, (do
        let val ← loadTy E t (E.itemGEP t (.loc r o) i)
        let swapped ← quiet (E.swapBytes t val)
        storeTy E t swapped (E.itemGEP t (.loc r o) i)
        next) g = (itemAccesses E t (.loc r o) i ++ (next (g.update r out')).1,
          (next (g.update r out')).2) := by
  have hs := isSwapped_of_hasBswap hb
  have hpos := E.layout.allocSize_pos ht
  have hle := E.layout.storeSize_le_allocSize t
  have hend := hfit
  rw [Nat.mul_add, Nat.mul_one] at hend
  have hstart : o.toNat + E.layout.allocSize t * i.toNat < out.cells.length := by omega
  obtain ⟨q, hq, hqn⟩ := Env.itemGEP_loc E t r hstart
  have hfits : q.toNat + E.layout.storeSize t ≤ out.cells.length := by omega
  obtain ⟨v, hv, hload, hbytes, hstore⟩ := Env.swapValue_ok ht (fun _ _ => hb) hout hfits
  have hwlen : (E.wireCells t v).length = E.layout.storeSize t := Env.length_wireCells
  refine ⟨out.overwrite q.toNat (E.wireCells t v), ?_, ?_⟩
  · have hreversed : E.bytesOf (E.wireCells t v) =
        (slice (E.bytesOf out.cells) (o.toNat + E.layout.allocSize t * i.toNat)
          (E.layout.storeSize t)).reverse := by
      rw [← hv, wireCells_decode hBE hs (length_slice hfits), ← hqn]
      unfold Env.bytesOf
      rw [map_toByte_byte, slice_map]
    unfold ReversesElements
    rw [Block.overwrite_cells (by omega), bytesOf_splice, hreversed, hqn]
    exact Reverses.one (by rw [Env.bytesOf, List.length_map]; omega)
  · intro next
    rw [hq, run_bind (run_loadTy hload), run_bind (run_quiet hbytes),
      run_bind (run_storeTy hstore)]
    unfold itemAccesses
    rw [hq]
    rfl

/-- The loop, from element `i` on: by induction on the elements behind it, none of which is past
    the bound. -/
theorem swapLoop_items (ht : t.IsScalar) (hb : t.hasBswap = true)
    (hBE : E.layout.bigEndian = true) (m : Nat) :
    ∀ (i : I64) (g : Heap) (out : Block), n.toNat = i.toNat + m + 1 → g.block? r = some out →
      o.toNat + E.layout.allocSize t * n.toNat ≤ out.cells.length →
      ∃ out' : Block, ReversesElements E t o i.toNat n.toNat out out' ∧
        swapLoop E t (.loc r o) n i g =
          (arrayAccesses E t (.loc r o) i.toNat (m + 1), .ok ((), g.update r out')) := by
  have h1 : (1 : I64).toNat = 1 := rfl
  have hn64 := n.isLt
  induction m with
  | zero =>
    intro i g out hn hout hfit
    have hlast : i + 1 = n := by
      apply BitVec.eq_of_toNat_eq
      rw [BitVec.toNat_add, h1]
      omega
    have hone : n.toNat = i.toNat + 1 := hn
    rw [hone] at hfit ⊢
    obtain ⟨out', hrev, hrun⟩ := swapElement_run ht hb hBE hout hfit
    refine ⟨out', hrev, ?_⟩
    unfold swapLoop
    rw [hrun, dif_pos hlast, arrayAccesses_succ, arrayAccesses_zero]
    rfl
  | succ m ih =>
    intro i g out hn hout hfit
    have hnext : (i + 1).toNat = i.toNat + 1 := by
      rw [BitVec.toNat_add, h1]
      omega
    have hmore : i + 1 ≠ n := by
      intro he
      rw [he] at hnext
      omega
    have hle := E.layout.storeSize_le_allocSize t
    obtain ⟨out₁, hrev₁, hrun₁⟩ := swapElement_run ht hb hBE hout (i := i)
      (Nat.le_trans (Nat.add_le_add_left (Nat.mul_le_mul_left _ (by omega)) _) hfit)
    have hlen : out₁.cells.length = out.cells.length := by
      have hbytes := hrev₁.length
      rwa [Env.bytesOf, List.length_map, Env.bytesOf, List.length_map] at hbytes
    obtain ⟨out', hrev, hrun⟩ := ih (i + 1) (g.update r out₁) out₁ (by omega)
      (Heap.block?_update_self hout out₁) (by rw [hlen]; exact hfit)
    rw [hnext] at hrev hrun
    refine ⟨out', hrev₁.trans hrev hle (by omega) (by omega), ?_⟩
    unfold swapLoop
    rw [hrun₁, dif_neg hmore, hrun, arrayAccesses_succ, Heap.update_update]

end Round

/-! ## The emitted code -/

section SwapArray

variable {E : Env} {t : Ty} {r : Nat} {o n : I64} {g : Heap} {out : Block}

/-- The code for an element type whose width the test on the type lets pass. -/
theorem swapArrayBytes_eq (hBE : E.layout.bigEndian = true) (ht : t.IsElement)
    (hbits : E.layout.getTypeSizeInBits t % 16 = 0) (p : Ptr) :
    swapArrayBytes E t p n = swapLoop E t p n 0 := by
  unfold swapArrayBytes
  rw [if_neg (by simp [hBE])]
  cases t with
  | int k =>
    have hk : k % 8 = 0 := by
      have hk16 : k % 16 = 0 := hbits
      omega
    exact if_neg (not_not.mpr hk)
  | float => rfl
  | double => rfl
  | struct i s => exact ht.elim
  | ptr t => rfl

theorem hasBswap_of_bits (ht : t.IsScalar) (hbits : E.layout.getTypeSizeInBits t % 16 = 0) :
    t.hasBswap = true := by
  cases t with
  | int k => exact decide_eq_true hbits
  | float => rfl
  | double => rfl
  | struct i s => exact ht.elim
  | ptr t => exact ht.elim

variable (E t r o n g out) in
/-- The code ends after one load and one store for each element, in this order; the elements are
    reversed, all other bytes are kept, and after a second run all bytes are what they were. -/
def SwapsExactly : Prop :=
  ∃ out' out'' : Block,
    swapArrayBytes E t (.loc r o) n g =
      (arrayAccesses E t (.loc r o) 0 n.toNat, .ok ((), g.update r out')) ∧
    ReversesElements E t o 0 n.toNat out out' ∧
    (swapArrayBytes E t (.loc r o) n (g.update r out')).2 = .ok ((), g.update r out'') ∧
    E.bytesOf out''.cells = E.bytesOf out.cells

/-- The first element is loaded whatever the count is. -/
theorem swapLoop_first (p : Ptr) (i : I64) : ∃ rest, (swapLoop E t p n i g).1 =
    ⟨E.itemGEP t p i, E.layout.getABITypeAlignment t⟩ :: rest := by
  unfold swapLoop
  obtain ⟨rest, hrest⟩ := exists_run_bind (loadTy E t (E.itemGEP t p i)) (fun val => do
    let swapped ← quiet (E.swapBytes t val)
    storeTy E t swapped (E.itemGEP t p i)
    if _h : i + 1 = n then pure () else swapLoop E t p n (i + 1)) g
  exact ⟨rest, hrest⟩

theorem not_swapsExactly_zero (hBE : E.layout.bigEndian = true) (ht : t.IsElement)
    (hbits : E.layout.getTypeSizeInBits t % 16 = 0) : ¬ SwapsExactly E t r o 0 g out := by
  intro h
  obtain ⟨out', out'', hrun, -⟩ := h
  obtain ⟨rest, hfirst⟩ := swapLoop_first (E := E) (t := t) (n := 0) (g := g) (.loc r o) 0
  rw [swapArrayBytes_eq hBE ht hbits] at hrun
  rw [hrun] at hfirst
  cases hfirst

/-- There is no cast from a pointer to an integer of its width that `bswap` would take. -/
theorem swapLoop_pointer (hBE : E.layout.bigEndian = true) (hp : t.isPointerTy = true) (p : Ptr)
    (i : I64) (res : Unit × Heap) : (swapLoop E t p n i g).2 ≠ .ok res := by
  intro hrun
  have herase : E.swapLoop t p n i g = .ok res := by
    rw [← erase_swapLoop]
    exact hrun
  rw [Env.swapLoop] at herase
  obtain ⟨val, g₁, -, herase⟩ := bind_eq_ok herase
  obtain ⟨swapped, g₂, hbytes, -⟩ := bind_eq_ok herase
  obtain ⟨t', rfl⟩ := Ty.exists_pointee hp
  unfold Env.swapBytes at hbytes
  rw [if_neg (by simp [hBE])] at hbytes
  cases hbytes

/-- Two runs of the loop over an array with elements. -/
theorem swapsExactly_of_pos (hBE : E.layout.bigEndian = true) (ht : t.IsScalar)
    (hel : t.IsElement) (hbits : E.layout.getTypeSizeInBits t % 16 = 0) (hn : n ≠ 0)
    (hout : g.block? r = some out)
    (hfit : o.toNat + E.layout.allocSize t * n.toNat ≤ out.cells.length) :
    SwapsExactly E t r o n g out := by
  have hpos : n.toNat = (0 : I64).toNat + (n.toNat - 1) + 1 := by
    have hne : n.toNat ≠ 0 := fun h => hn (BitVec.eq_of_toNat_eq h)
    show n.toNat = 0 + (n.toNat - 1) + 1
    omega
  have hcount : n.toNat - 1 + 1 = n.toNat := by
    rw [show (0 : I64).toNat = 0 from rfl] at hpos
    omega
  have hloop := swapLoop_items (n := n) (o := o) (r := r) ht (hasBswap_of_bits ht hbits) hBE
    (n.toNat - 1) 0
  obtain ⟨out', hrev, hrun⟩ := hloop g out hpos hout hfit
  have hlen : out'.cells.length = out.cells.length := by
    have hbytes := hrev.length
    rwa [Env.bytesOf, List.length_map, Env.bytesOf, List.length_map] at hbytes
  obtain ⟨out'', hrev', hrun'⟩ := hloop (g.update r out') out' hpos
    (Heap.block?_update_self hout out') (by rw [hlen]; exact hfit)
  rw [hcount] at hrun
  refine ⟨out', out'', ?_, hrev, ?_, hrev.twice hrev'⟩
  · rw [swapArrayBytes_eq hBE hel hbits, hrun]
    rfl
  · rw [swapArrayBytes_eq hBE hel hbits, hrun', Heap.update_update]

/-- For every count and every array in memory whose elements are a multiple of 16 bits wide. -/
theorem swapsExactly_iff (hBE : E.layout.bigEndian = true) (ht : t.IsElement)
    (hbits : E.layout.getTypeSizeInBits t % 16 = 0) (hout : g.block? r = some out)
    (hfit : o.toNat + E.layout.allocSize t * n.toNat ≤ out.cells.length) :
    SwapsExactly E t r o n g out ↔ n ≠ 0 ∧ t.isPointerTy = false := by
  constructor
  · intro h
    refine ⟨?_, ?_⟩
    · intro hn
      subst hn
      exact not_swapsExactly_zero hBE ht hbits h
    · by_contra hp
      obtain ⟨out', out'', hrun, -⟩ := h
      rw [swapArrayBytes_eq hBE ht hbits] at hrun
      exact swapLoop_pointer hBE (Bool.eq_true_of_not_eq_false hp) _ _ _ (congrArg Prod.snd hrun)
  · intro h
    obtain ⟨hn, hp⟩ := h
    have hsc : t.IsScalar := by
      cases t with
      | ptr t => cases hp
      | int k => exact ht
      | float => trivial
      | double => trivial
      | struct i s => exact ht
    exact swapsExactly_of_pos hBE hsc ht hbits hn hout hfit

end SwapArray

/-! ## Two buffers -/

/-- A size, the count of an array of floats and its elements, in big-endian memory. -/
def pairBuffer : Block where
  cells := encodeInt true 8 24 ++ encodeInt true 8 2 ++ encodeInt true 4 0x3f800000 ++
    encodeInt true 4 0x40000000
  fits := by decide

theorem swapsExactly_floats :
    SwapsExactly (pathModule true) .float 0 16 2 ⟨[some pairBuffer], 0⟩ pairBuffer ↔
      (2 : I64) ≠ 0 ∧ Ty.float.isPointerTy = false :=
  swapsExactly_iff rfl trivial (by decide) rfl (by decide)

/-- The buffer of an array without elements ends behind the count. -/
def emptyBuffer : Block where
  cells := encodeInt true 8 16 ++ encodeInt true 8 0
  fits := by decide

theorem swaps_empty :
    ¬ SwapsExactly (pathModule true) .float 0 16 0 ⟨[some emptyBuffer], 0⟩ emptyBuffer :=
  not_swapsExactly_zero rfl trivial (by decide)

end Emitted

end Tyr
