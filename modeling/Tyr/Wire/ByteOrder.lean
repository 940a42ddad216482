import Tyr.CodeGen.Slots

/-
  What `swapBytes` and `swapArrayBytes` do to a value.

  In a big-endian module they turn the bytes of a value around, unless its type is an integer
  type whose width is not a multiple of 8. `wireInt` is the integer that is stored for a value,
  `wireCells` the bytes that come out. `swapBytes_ok` and `swapArrayBytes_ok` are the runs of
  code that the backend accepts and whose loop has something to do; `swapArrayBytes_ne_ok` is
  the other case.
-/

namespace Tyr

open Prog

/-! ## Types -/

/-- `swapBytes` does not leave values of the type alone. -/
def Ty.isSwapped : Ty → Bool
  | .int n => n % 8 = 0
  | .float => true
  | .double => true
  | _ => false

/-- There is an `llvm.bswap` of the type's width. -/
def Ty.hasBswap : Ty → Bool
  | .int n => n % 16 = 0
  | .float => true
  | .double => true
  | _ => false

namespace Env

section Bswap

variable {k n : Nat}

theorem bswap_lt : bswap k n < 256 ^ k := by
  have h := ofLE_lt (toLE k n).reverse
  rwa [List.length_reverse, length_toLE] at h

theorem toLE_bswap : toLE k (bswap k n) = (toLE k n).reverse := by
  have h := toLE_ofLE (toLE k n).reverse
  rwa [List.length_reverse, length_toLE] at h

theorem bswap_bswap (hn : n < 256 ^ k) : bswap k (bswap k n) = n := by
  rw [bswap, toLE_bswap, List.reverse_reverse, ofLE_toLE]
  exact Nat.mod_eq_of_lt hn

end Bswap

/-! ## Values -/

section Value

variable (E : Env) (t : Ty) (v : Nat)

/-- The integer that is stored in a buffer. -/
def wireInt : Nat :=
  if E.layout.bigEndian && t.isSwapped then bswap (E.layout.storeSize t) v else v

/-- Its bytes. -/
def wireCells : List Cell := E.encode t (.int (E.wireInt t v))

/-- The backend knows the intrinsics that values of the type need. -/
def Swappable : Prop := E.layout.bigEndian = true → t.isSwapped = true → t.hasBswap = true

variable {E t v}

theorem pow_bits (ht : t.isSwapped = true) :
    2 ^ E.layout.getTypeSizeInBits t = 256 ^ E.layout.storeSize t := by
  rw [show (256 : Nat) = 2 ^ 8 from rfl, ← Nat.pow_mul]
  congr 1
  unfold DataLayout.storeSize
  cases t with
  | int n =>
    simp only [Ty.isSwapped, decide_eq_true_eq] at ht
    simp only [DataLayout.getTypeSizeInBits]
    omega
  | float => simp only [DataLayout.getTypeSizeInBits]
  | double => simp only [DataLayout.getTypeSizeInBits]
  | struct i n => cases ht
  | ptr t => cases ht

theorem wireInt_lt (hv : v < 2 ^ E.layout.getTypeSizeInBits t) :
    E.wireInt t v < 2 ^ E.layout.getTypeSizeInBits t := by
  unfold wireInt
  split
  · next h =>
    rw [pow_bits (Bool.and_eq_true_iff.mp h).2]
    exact bswap_lt
  · exact hv

/-- Swapping twice changes nothing. -/
theorem wireInt_wireInt (hv : v < 2 ^ E.layout.getTypeSizeInBits t) :
    E.wireInt t (E.wireInt t v) = v := by
  unfold wireInt
  split
  · next h =>
    rw [pow_bits (Bool.and_eq_true_iff.mp h).2] at hv
    exact bswap_bswap hv
  · rfl

/-- A module whose layout is little-endian, or a type that is left alone. -/
theorem wireInt_eq (h : ¬(E.layout.bigEndian = true ∧ t.isSwapped = true)) :
    E.wireInt t v = v := by
  unfold wireInt
  rw [if_neg (by rwa [Bool.and_eq_true_iff])]

theorem swapBytes_ok (ht : t.IsScalar) (hsw : E.Swappable t) {h : Heap} :
    E.swapBytes t (.int v) h = .ok (.int (E.wireInt t v), h) := by
  unfold swapBytes
  cases hBE : E.layout.bigEndian with
  | false =>
    rw [wireInt_eq (by simp [hBE])]
    rfl
  | true =>
    cases t with
    | int n =>
      by_cases h8 : n % 8 = 0
      · have h16 := hsw hBE (decide_eq_true h8)
        have hsize : E.layout.storeSize (.int n) = n / 8 := by
          simp only [DataLayout.storeSize, DataLayout.getTypeSizeInBits]
          omega
        simp only [Ty.hasBswap, decide_eq_true_eq] at h16
        simp only [wireInt, hBE, Ty.isSwapped, h8, h16, hsize]
        rfl
      · rw [wireInt_eq (by simp [Ty.isSwapped, h8])]
        simp only [ne_eq, h8, not_false_eq_true, if_true]
        rfl
    | float =>
      have hsize : E.layout.storeSize .float = 4 := by
        simp [DataLayout.storeSize, DataLayout.getTypeSizeInBits]
      simp only [wireInt, hBE, Ty.isSwapped, hsize]
      rfl
    | double =>
      have hsize : E.layout.storeSize .double = 8 := by
        simp [DataLayout.storeSize, DataLayout.getTypeSizeInBits]
      simp only [wireInt, hBE, Ty.isSwapped, hsize]
      rfl
    | struct i n => exact ht.elim
    | ptr t => exact ht.elim

theorem swapBytes_fault (hBE : E.layout.bigEndian = true) (ht : t.isSwapped = true)
    (hno : t.hasBswap = false) {h : Heap} : E.swapBytes t (.int v) h = .error .invalid := by
  cases t with
  | int n =>
    simp only [Ty.isSwapped, Ty.hasBswap, decide_eq_true_eq, decide_eq_false_iff_not] at ht hno
    simp [swapBytes, hBE, ht, hno, Prog.fault]
  | float => cases hno
  | double => cases hno
  | struct i n => cases ht
  | ptr t => cases ht

end Value

/-! ## The bytes in a buffer -/

section Cells

variable {E : Env} {t : Ty} {v : Nat}

theorem length_wireCells : (E.wireCells t v).length = E.layout.storeSize t :=
  length_encode_int E t _

/-- The bytes of a stored value, in the order of the layout. -/
theorem encode_bytes (hv : v < 2 ^ E.layout.getTypeSizeInBits t) :
    E.encode t (.int v) =
      (inOrder E.layout.bigEndian (toLE (E.layout.storeSize t) v)).map .byte := by
  simp only [encode, encodeInt, Nat.mod_eq_of_lt hv]

theorem decode_wireCells (ht : t.isPointerTy = false)
    (hv : v < 2 ^ E.layout.getTypeSizeInBits t) :
    E.decode t (E.wireCells t v) = .int (E.wireInt t v) := by
  rw [wireCells, decode_encode_int E ht, Nat.mod_eq_of_lt (wireInt_lt hv)]

/-- Of a type that is swapped the lowest byte comes first. -/
theorem wireCells_swapped (hv : v < 2 ^ E.layout.getTypeSizeInBits t)
    (ht : t.isSwapped = true) :
    E.wireCells t v = (toLE (E.layout.storeSize t) v).map .byte := by
  rw [wireCells, encode_bytes (wireInt_lt hv)]
  cases hBE : E.layout.bigEndian with
  | false =>
    rw [wireInt_eq (by simp [hBE])]
    rfl
  | true =>
    have hw : E.wireInt t v = bswap (E.layout.storeSize t) v := by
      unfold wireInt
      rw [hBE, ht]
      rfl
    rw [hw, toLE_bswap]
    simp [inOrder]

/-- Of other types the bytes have the order of the layout. -/
theorem wireCells_unswapped (hv : v < 2 ^ E.layout.getTypeSizeInBits t)
    (ht : t.isSwapped = false) :
    E.wireCells t v = (inOrder E.layout.bigEndian (toLE (E.layout.storeSize t) v)).map .byte := by
  rw [wireCells, wireInt_eq (by simp [ht]), encode_bytes hv]

/-- Counts and the header. -/
theorem encodeI64_swapI64 (n : I64) :
    E.encodeI64 (E.swapI64 n) = (toLE 8 n.toNat).map .byte := by
  unfold encodeI64 swapI64 encodeInt
  cases hBE : E.layout.bigEndian with
  | false => rfl
  | true =>
    have hlt : bswap 8 n.toNat < 2 ^ 64 := bswap_lt
    rw [if_pos rfl, BitVec.toNat_ofNat, Nat.mod_eq_of_lt hlt, toLE_bswap]
    simp [inOrder]

theorem swapI64_swapI64 (n : I64) : E.swapI64 (E.swapI64 n) = n := by
  unfold swapI64
  cases hBE : E.layout.bigEndian with
  | false => rfl
  | true =>
    have hlt : bswap 8 n.toNat < 2 ^ 64 := bswap_lt
    have hn : n.toNat < 256 ^ 8 := n.isLt
    apply BitVec.eq_of_toNat_eq
    rw [if_pos rfl, if_pos rfl, BitVec.toNat_ofNat, BitVec.toNat_ofNat, Nat.mod_eq_of_lt hlt,
      bswap_bswap hn]
    exact Nat.mod_eq_of_lt n.isLt

theorem swapI64_decodeI64 {n : Nat} (hn : n < 2 ^ 64) :
    E.swapI64 (E.decodeI64 ((toLE 8 n).map .byte)) = BitVec.ofNat 64 n := by
  have hto : (BitVec.ofNat 64 n).toNat = n := by
    rw [BitVec.toNat_ofNat]
    exact Nat.mod_eq_of_lt hn
  have hcells := encodeI64_swapI64 (E := E) (BitVec.ofNat 64 n)
  rw [hto] at hcells
  rw [← hcells, decodeI64_encodeI64, swapI64_swapI64]

end Cells

/-! ## Arrays -/

section Array

variable {E : Env} {t : Ty} {r : Nat} {o : I64} {n : I64}

variable (E t r) in
/-- Where element `i` lies. -/
theorem itemGEP_loc {out : Block} {i : I64}
    (hfit : o.toNat + E.layout.allocSize t * i.toNat < out.cells.length) :
    ∃ p : I64, E.itemGEP t (.loc r o) i = .loc r p ∧
      p.toNat = o.toNat + E.layout.allocSize t * i.toNat := by
  refine ⟨_, rfl, ?_⟩
  have hlt := out.fits
  rw [BitVec.toNat_add, BitVec.toNat_mul, BitVec.toNat_ofNat, Nat.mul_mod_mod, Nat.add_mod_mod,
    Nat.mul_comm i.toNat]
  exact Nat.mod_eq_of_lt (by omega)

/-- Elements `lo` to `hi` behind `base` that held an integer hold what is stored for it, and
    nothing else has changed. -/
structure Swapped (E : Env) (t : Ty) (base lo hi : Nat) (out out' : List Cell) : Prop where
  length : out'.length = out.length
  frame : ∀ p k, p + k ≤ base + E.layout.allocSize t * lo ∨ base + E.layout.allocSize t * hi ≤ p →
    slice out' p k = slice out p k
  element : ∀ k, lo ≤ k → k < hi → ∀ u < 2 ^ E.layout.getTypeSizeInBits t,
    slice out (base + E.layout.allocSize t * k) (E.layout.storeSize t) = E.encode t (.int u) →
    slice out' (base + E.layout.allocSize t * k) (E.layout.storeSize t) = E.wireCells t u

namespace Swapped

variable {base lo mid hi : Nat} {out out₁ out₂ : List Cell}

theorem of_unswapped (h : ¬(E.layout.bigEndian = true ∧ t.isSwapped = true)) :
    E.Swapped t base lo hi out out := by
  refine ⟨rfl, fun _ _ _ => rfl, ?_⟩
  intro k _ _ u _ hu
  rw [hu, wireCells, wireInt_eq h]

theorem trans (h₁ : E.Swapped t base lo mid out out₁) (h₂ : E.Swapped t base mid hi out₁ out₂)
    (hlo : lo ≤ mid) (hhi : mid ≤ hi) : E.Swapped t base lo hi out out₂ := by
  have hle := E.layout.storeSize_le_allocSize t
  have hmul : ∀ {a b : Nat}, a ≤ b → E.layout.allocSize t * a ≤ E.layout.allocSize t * b :=
    fun h => Nat.mul_le_mul_left _ h
  refine ⟨h₂.length.trans h₁.length, ?_, ?_⟩
  · intro p k hpk
    have hlm := hmul hlo
    have hmh := hmul hhi
    rw [h₂.frame p k (by omega), h₁.frame p k (by omega)]
  · intro k hk hkhi u hu henc
    by_cases hkm : k < mid
    · rw [h₂.frame _ _ (.inl ?_)]
      · exact h₁.element k hk hkm u hu henc
      · have := hmul (Nat.succ_le_of_lt hkm)
        rw [Nat.succ_eq_add_one, Nat.mul_add, Nat.mul_one] at this
        omega
    · refine h₂.element k (by omega) hkhi u hu ?_
      rw [h₁.frame _ _ (.inr (Nat.add_le_add_left (hmul (by omega)) _))]
      exact henc

end Swapped

/-- One value is loaded, swapped and stored back. -/
theorem swapValue_ok (ht : t.IsScalar) (hsw : E.Swappable t) {q : I64} {g : Heap} {out : Block}
    (hout : g.block? r = some out) (hfit : q.toNat + E.layout.storeSize t ≤ out.cells.length) :
    ∃ v, (E.decode t (slice out.cells q.toNat (E.layout.storeSize t))).asInt = v ∧
      E.loadTy t (.loc r q) g = .ok (.int v, g) ∧
      E.swapBytes t (.int v) g = .ok (.int (E.wireInt t v), g) ∧
      E.storeTy t (.int (E.wireInt t v)) (.loc r q) g =
        .ok ((), g.update r (out.overwrite q.toNat (E.wireCells t v))) := by
  refine ⟨_, rfl, ?_, swapBytes_ok ht hsw, ?_⟩
  · rw [loadTy_ok hout hfit]
    simp only [decode, ht.not_pointer, Bool.false_eq_true, if_false, Val.asInt]
  · refine store_ok hout ?_
    show q.toNat + (E.wireCells t _).length ≤ _
    rwa [length_wireCells]

/-- The body of the loop of `swapArrayBytes`. -/
theorem swapElement_ok (ht : t.IsScalar) (hsw : E.Swappable t) {i : I64} {g : Heap} {out : Block}
    (hout : g.block? r = some out)
    (hfit : o.toNat + E.layout.allocSize t * (i.toNat + 1) ≤ out.cells.length) :
    ∃ out' : Block, E.Swapped t o.toNat i.toNat (i.toNat + 1) out.cells out'.cells ∧
      ∀ next : Prog Unit, (do
        let val ← E.loadTy t (E.itemGEP t (.loc r o) i)
        let swapped ← E.swapBytes t val
        E.storeTy t swapped (E.itemGEP t (.loc r o) i)
        next) g = next (g.update r out') := by
  have hpos := E.layout.allocSize_pos ht
  have hle := E.layout.storeSize_le_allocSize t
  have hfit' := hfit
  rw [Nat.mul_add, Nat.mul_one] at hfit'
  have hlast : o.toNat + E.layout.allocSize t * i.toNat < out.cells.length := by omega
  obtain ⟨p, hp, hpn⟩ := itemGEP_loc E t r hlast
  obtain ⟨v, hv, hload, hbytes, hstore⟩ := swapValue_ok ht hsw (q := p) hout (by omega)
  have hwlen : (E.wireCells t v).length = E.layout.storeSize t := length_wireCells
  have hcells : (out.overwrite p.toNat (E.wireCells t v)).cells =
      splice out.cells p.toNat (E.wireCells t v) := Block.overwrite_cells (by omega)
  refine ⟨out.overwrite p.toNat (E.wireCells t v), ⟨Block.length_overwrite _ _ _, ?_, ?_⟩, ?_⟩
  · intro q k hq
    rw [Nat.mul_add, Nat.mul_one] at hq
    rw [hcells]
    exact slice_splice_disjoint (by omega) (by omega)
  · intro k hk hk' u hu henc
    obtain rfl : k = i.toNat := by omega
    rw [← hpn] at henc ⊢
    rw [henc, decode_encode_int E ht.not_pointer, Nat.mod_eq_of_lt hu] at hv
    obtain rfl : u = v := hv
    rw [hcells, ← hwlen, slice_splice_self (by omega)]
  · intro next
    rw [hp, bind_of_ok hload, bind_of_ok hbytes, bind_of_ok hstore]

/-- The loop, from element `i` on. -/
theorem swapLoop_ok (ht : t.IsScalar) (hsw : E.Swappable t) (m : Nat) :
    ∀ (i : I64) (g : Heap) (out : Block), n.toNat = i.toNat + m + 1 → g.block? r = some out →
      o.toNat + E.layout.allocSize t * n.toNat ≤ out.cells.length →
      ∃ out' : Block, E.Swapped t o.toNat i.toNat n.toNat out.cells out'.cells ∧
        E.swapLoop t (.loc r o) n i g = .ok ((), g.update r out') := by
  have h1 : (1 : I64).toNat = 1 := rfl
  have hn64 := n.isLt
  induction m with
  | zero =>
    intro i g out hn hout hfit
    have hlast : i + 1 = n := by
      apply BitVec.eq_of_toNat_eq
      rw [BitVec.toNat_add, h1]
      omega
    have hone : n.toNat = i.toNat + 1 := hn
    rw [hone] at hfit ⊢
    obtain ⟨out', hswap, hrun⟩ := swapElement_ok ht hsw hout hfit
    refine ⟨out', hswap, ?_⟩
    rw [swapLoop, hrun, dif_pos hlast]
    rfl
  | succ m ih =>
    intro i g out hn hout hfit
    have hnext : (i + 1).toNat = i.toNat + 1 := by
      rw [BitVec.toNat_add, h1]
      omega
    have hmore : i + 1 ≠ n := by
      intro he
      rw [he] at hnext
      omega
    obtain ⟨out₁, hswap₁, hrun₁⟩ := swapElement_ok ht hsw hout (i := i)
      (Nat.le_trans (Nat.add_le_add_left (Nat.mul_le_mul_left _ (by omega)) _) hfit)
    obtain ⟨out', hswap, hrun⟩ := ih (i + 1) (g.update r out₁) out₁ (by omega)
      (Heap.block?_update_self hout out₁) (by rw [hswap₁.length]; exact hfit)
    rw [hnext] at hswap
    refine ⟨out', hswap₁.trans hswap (by omega) (by omega), ?_⟩
    rw [swapLoop, hrun₁, dif_neg hmore, hrun, Heap.update_update]

/-- The loop has elements to swap, and can. -/
def ArraySwappable (E : Env) (t : Ty) (n : Nat) : Prop :=
  E.Swappable t ∧ (E.layout.bigEndian = true → t.isSwapped = true → n ≠ 0)

theorem swapArrayBytes_eq (ht : t.IsScalar) (p : Ptr) :
    E.swapArrayBytes t p n =
      if E.layout.bigEndian = true ∧ t.isSwapped = true then E.swapLoop t p n 0 else pure () := by
  unfold swapArrayBytes
  cases hBE : E.layout.bigEndian with
  | false => simp
  | true =>
    cases t with
    | int k => by_cases h8 : k % 8 = 0 <;> simp [Ty.isSwapped, h8]
    | float => simp [Ty.isSwapped]
    | double => simp [Ty.isSwapped]
    | struct i k => exact ht.elim
    | ptr t => exact ht.elim

theorem swapArrayBytes_ok (ht : t.IsScalar) (hsw : E.ArraySwappable t n.toNat) {g : Heap}
    {out : Block} (hout : g.block? r = some out)
    (hfit : o.toNat + E.layout.allocSize t * n.toNat ≤ out.cells.length) :
    ∃ out' : Block, E.Swapped t o.toNat 0 n.toNat out.cells out'.cells ∧
      E.swapArrayBytes t (.loc r o) n g = .ok ((), g.update r out') := by
  rw [swapArrayBytes_eq ht]
  by_cases hswap : E.layout.bigEndian = true ∧ t.isSwapped = true
  · rw [if_pos hswap]
    have hne := hsw.2 hswap.1 hswap.2
    exact swapLoop_ok ht hsw.1 (n.toNat - 1) 0 g out
      (by rw [show (0 : I64).toNat = 0 from rfl]; omega) hout hfit
  · rw [if_neg hswap]
    exact ⟨out, .of_unswapped hswap, by rw [Heap.update_self hout]; rfl⟩

/-- The first element of the loop, on a block that ends with the array. -/
theorem swapArrayBytes_ne_ok (ht : t.IsScalar) (hsw : ¬ E.ArraySwappable t n.toNat) {g : Heap}
    {out : Block} (hout : g.block? r = some out)
    (hlen : out.cells.length = E.layout.allocSize t * n.toNat) (res : Unit × Heap) :
    E.swapArrayBytes t (.base r) n g ≠ .ok res := by
  intro hrun
  have hpos := E.layout.storeSize_pos ht
  have hswap : E.layout.bigEndian = true ∧ t.isSwapped = true := by
    by_contra hno
    exact hsw ⟨fun h1 h2 => absurd ⟨h1, h2⟩ hno, fun h1 h2 => absurd ⟨h1, h2⟩ hno⟩
  rw [swapArrayBytes_eq ht, if_pos hswap, swapLoop] at hrun
  obtain ⟨val, g₁, hload, hrun⟩ := bind_eq_ok hrun
  obtain ⟨swapped, g₂, hbytes, -⟩ := bind_eq_ok hrun
  have hgep : E.itemGEP t (.base r) 0 = .base r := by
    simp [itemGEP]
  rw [hgep] at hload
  cases hb : t.hasBswap with
  | true =>
    -- the array is empty
    have hz : n.toNat = 0 := by
      by_contra hne
      exact hsw ⟨fun _ _ => hb, fun _ _ => hne⟩
    rw [loadTy_fault hout (by rw [hlen, hz, Nat.mul_zero]; exact Nat.add_pos_right _ hpos)] at hload
    cases hload
  | false =>
    have hnp := ht.not_pointer
    by_cases hfit : (0 : I64).toNat + E.layout.storeSize t ≤ out.cells.length
    · rw [loadTy_ok hout hfit] at hload
      obtain ⟨rfl, rfl⟩ := Prod.mk.inj (Except.ok.inj hload)
      simp only [decode, hnp, Bool.false_eq_true, if_false] at hbytes
      rw [swapBytes_fault hswap.1 hswap.2 hb] at hbytes
      cases hbytes
    · rw [loadTy_fault hout (by omega)] at hload
      cases hload

end Array

end Env

end Tyr
