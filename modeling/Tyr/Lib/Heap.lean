import Tyr.Lib.Bytes

/-
  A block-structured heap and programs over it.

  A block is identified by a number that is never reused, so an access through a stale
  pointer is an access to a dead block, and every access outside a live block is a fault.
  A pointer is a block and a 64-bit offset. A stored pointer occupies `frag` cells, so
  copying its bytes copies the pointer; read as an integer it is its block's address.

  The allocator is a parameter: which calls succeed, what a new block contains, where the
  blocks lie. `realloc` of size 0 frees, as in glibc.

  * `Heap.read`, `Heap.update`, `Heap.push`, `Heap.kill` with their `block?` laws
  * `Prog`: a heap transformer that may fault; `bind_of_ok`, `bind_of_error`
  * one rule for each primitive: `load_ok`, `load_fault`, `store_ok`, `store_fault`,
    `malloc_ok`, `malloc_null`, `free_ok`, `realloc_ok`, `memcpy_ok`
-/

namespace Tyr

abbrev I64 := BitVec 64

/-! ## Cells and pointers -/

/-- A byte of memory: a plain byte, or byte `i` of a stored pointer. -/
inductive Cell where
  | byte (b : Byte)
  | frag (block : Nat) (off : I64) (i : Nat)
  deriving DecidableEq

/-- A pointer value. `wild` is a nonzero bit pattern that is not a stored pointer. -/
inductive Ptr where
  | null
  | loc (block : Nat) (off : I64)
  | wild (raw : List Cell)
  deriving DecidableEq

namespace Ptr

def isNotNull : Ptr → Bool
  | null => false
  | _ => true

/-- The start of a block, as `malloc` returns it. -/
abbrev base (b : Nat) : Ptr := loc b 0

def add : Ptr → I64 → Ptr
  | null, k => if k = 0 then null else wild ((toLE 8 k.toNat).map .byte)
  | loc b o, k => loc b (o + k)
  | wild raw, _ => wild raw

@[simp] theorem isNotNull_null : null.isNotNull = false := rfl
@[simp] theorem isNotNull_loc (b : Nat) (o : I64) : (loc b o).isNotNull = true := rfl
@[simp] theorem add_loc (b : Nat) (o k : I64) : (loc b o).add k = loc b (o + k) := rfl

end Ptr

/-- A cell as a byte, given the bytes of every pointer. -/
def Cell.toByte (ptrBytes : Nat → I64 → List Byte) : Cell → Byte
  | .byte b => b
  | .frag b o i => (ptrBytes b o).getD i 0

/-- The byte order of a memory access. -/
def inOrder (bigEndian : Bool) (bs : List Byte) : List Byte :=
  if bigEndian then bs.reverse else bs

def encodeInt (bigEndian : Bool) (k n : Nat) : List Cell :=
  (inOrder bigEndian (toLE k n)).map .byte

def decodeInt (ptrBytes : Nat → I64 → List Byte) (bigEndian : Bool) (cs : List Cell) : Nat :=
  ofLE (inOrder bigEndian (cs.map (Cell.toByte ptrBytes)))

def encodePtr (size : Nat) : Ptr → List Cell
  | .null => List.replicate size (.byte 0)
  | .loc b o => (List.range size).map (.frag b o)
  | .wild raw => raw

def decodePtr (size : Nat) (cs : List Cell) : Ptr :=
  if cs = encodePtr size .null then .null
  else match cs with
    | .frag b o _ :: _ => if cs = encodePtr size (.loc b o) then .loc b o else .wild cs
    | _ => .wild cs

@[simp] theorem length_inOrder (be : Bool) (bs : List Byte) :
    (inOrder be bs).length = bs.length := by
  cases be <;> simp [inOrder]

theorem inOrder_inOrder (be : Bool) (bs : List Byte) : inOrder be (inOrder be bs) = bs := by
  cases be <;> simp [inOrder]

@[simp] theorem length_encodeInt (be : Bool) (k n : Nat) : (encodeInt be k n).length = k := by
  simp [encodeInt]

theorem map_toByte_byte (ptrBytes : Nat → I64 → List Byte) (bs : List Byte) :
    (bs.map Cell.byte).map (Cell.toByte ptrBytes) = bs := by
  rw [List.map_map]
  exact List.map_id'' (fun _ => rfl) bs

theorem decodeInt_encodeInt (ptrBytes : Nat → I64 → List Byte) (be : Bool) (k n : Nat) :
    decodeInt ptrBytes be (encodeInt be k n) = n % 256 ^ k := by
  rw [decodeInt, encodeInt, map_toByte_byte, inOrder_inOrder, ofLE_toLE]

theorem length_encodePtr_loc (size b : Nat) (o : I64) :
    (encodePtr size (.loc b o)).length = size := by
  simp [encodePtr]

theorem length_encodePtr_null (size : Nat) : (encodePtr size .null).length = size := by
  simp [encodePtr]

theorem decodePtr_encodePtr_null (size : Nat) : decodePtr size (encodePtr size .null) = .null := by
  simp [decodePtr]

theorem decodePtr_encodePtr_loc {size : Nat} (hs : 0 < size) (b : Nat) (o : I64) :
    decodePtr size (encodePtr size (.loc b o)) = .loc b o := by
  obtain ⟨k, rfl⟩ : ∃ k, size = k + 1 := ⟨size - 1, by omega⟩
  have hcons : encodePtr (k + 1) (.loc b o) =
      .frag b o 0 :: (List.range k).map (fun i => .frag b o (i + 1)) := by
    simp [encodePtr, List.range_succ_eq_map, Function.comp_def]
  have hne : encodePtr (k + 1) (.loc b o) ≠ encodePtr (k + 1) .null := by
    rw [hcons]
    simp [encodePtr, List.replicate_succ]
  unfold decodePtr
  rw [if_neg hne, hcons]
  simp only [← hcons, if_true]

/-! ## Blocks and heaps -/

/-- The contents of an allocated block. Its size fits a 64-bit address space. -/
structure Block where
  cells : List Cell
  fits : cells.length < 2 ^ 64

namespace Block

theorem ext {x y : Block} (h : x.cells = y.cells) : x = y := by
  cases x; cases y; cases h; rfl

/-- The block with the window at `o` overwritten (unchanged when the window sticks out). -/
def overwrite (blk : Block) (o : Nat) (w : List Cell) : Block where
  cells := if o + w.length ≤ blk.cells.length then splice blk.cells o w else blk.cells
  fits := by
    split
    · next h => rw [length_splice h]; exact blk.fits
    · exact blk.fits

theorem overwrite_cells {blk : Block} {o : Nat} {w : List Cell}
    (h : o + w.length ≤ blk.cells.length) : (blk.overwrite o w).cells = splice blk.cells o w :=
  if_pos h

@[simp] theorem length_overwrite (blk : Block) (o : Nat) (w : List Cell) :
    (blk.overwrite o w).cells.length = blk.cells.length := by
  unfold overwrite
  dsimp only
  split
  · next h => exact length_splice h
  · rfl

/-- What was written is there. -/
theorem slice_overwrite_self {blk : Block} {o n : Nat} {w : List Cell} (hn : w.length = n)
    (h : o + n ≤ blk.cells.length) : slice (blk.overwrite o w).cells o n = w := by
  subst hn
  rw [overwrite_cells h]
  exact slice_splice_self h

/-- Of two writes to one window the second counts. -/
theorem overwrite_overwrite {blk : Block} {o : Nat} {v w : List Cell}
    (h : v.length = w.length) : (blk.overwrite o v).overwrite o w = blk.overwrite o w := by
  apply ext
  by_cases hfit : o + w.length ≤ blk.cells.length
  · rw [overwrite_cells (by simpa using hfit), overwrite_cells (by omega), overwrite_cells hfit,
      splice_splice_same h (by omega)]
  · have hv : ¬ o + v.length ≤ blk.cells.length := by omega
    unfold overwrite
    simp only [if_neg hv, if_neg hfit]

/-- Overwriting the whole block. -/
theorem overwrite_all {blk : Block} {w : List Cell} (h : w.length = blk.cells.length) :
    (blk.overwrite 0 w).cells = w := by
  rw [overwrite_cells (by omega), splice, List.take_zero, List.nil_append, Nat.zero_add, h,
    List.drop_length, List.append_nil]

/-- The block that `realloc` returns: the old contents as far as they go, then `fresh`. -/
def resize (old fresh : Block) : Block where
  cells := old.cells.take fresh.cells.length ++ fresh.cells.drop old.cells.length
  fits := by
    have := fresh.fits
    simp only [List.length_append, List.length_take, List.length_drop]
    omega

@[simp] theorem length_resize (old fresh : Block) :
    (old.resize fresh).cells.length = fresh.cells.length := by
  simp only [resize, List.length_append, List.length_take, List.length_drop]
  omega

/-- The common prefix survives a `resize`. -/
theorem slice_resize {old fresh : Block} {n : Nat} (h1 : n ≤ old.cells.length)
    (h2 : n ≤ fresh.cells.length) : slice (old.resize fresh).cells 0 n = slice old.cells 0 n := by
  apply List.ext_getElem?
  intro i
  simp only [getElem?_slice, resize, List.getElem?_append, List.getElem?_take,
    List.length_take]
  grind

end Block

/-- The blocks allocated so far (`none` once freed) and the number of allocation calls. -/
structure Heap where
  blocks : List (Option Block)
  calls : Nat

namespace Heap

def block? (h : Heap) (b : Nat) : Option Block := (h.blocks[b]?).join

/-- Replace the contents of block `b`. -/
def update (h : Heap) (b : Nat) (blk : Block) : Heap :=
  { h with blocks := h.blocks.set b (some blk) }

/-- A successful allocation. -/
def push (h : Heap) (blk : Block) : Heap :=
  { blocks := h.blocks ++ [some blk], calls := h.calls + 1 }

/-- A failed allocation. -/
def tick (h : Heap) : Heap := { h with calls := h.calls + 1 }

/-- Block `b` is freed. -/
def kill (h : Heap) (b : Nat) : Heap := { h with blocks := h.blocks.set b none }

/-- The identity of the next block to be allocated. -/
abbrev next (h : Heap) : Nat := h.blocks.length

theorem lt_next {h : Heap} {b : Nat} {blk : Block} (hb : h.block? b = some blk) :
    b < h.next := by
  by_contra hc
  rw [block?, List.getElem?_eq_none (Nat.not_lt.mp hc)] at hb
  cases hb

theorem block?_update {h : Heap} {b : Nat} (hb : b < h.next) (blk : Block) (b' : Nat) :
    (h.update b blk).block? b' = if b' = b then some blk else h.block? b' := by
  simp only [block?, update, List.getElem?_set]
  by_cases he : b = b'
  · subst he; simp [hb]
  · rw [if_neg he, if_neg (Ne.symm he)]

theorem block?_update_self {h : Heap} {b : Nat} {old : Block} (hb : h.block? b = some old)
    (blk : Block) : (h.update b blk).block? b = some blk := by
  rw [block?_update (lt_next hb), if_pos rfl]

theorem block?_update_ne (h : Heap) {b b' : Nat} (hne : b' ≠ b) (blk : Block) :
    (h.update b blk).block? b' = h.block? b' := by
  simp only [block?, update, List.getElem?_set_ne (Ne.symm hne)]

theorem block?_push_self (h : Heap) (blk : Block) : (h.push blk).block? h.next = some blk := by
  simp [block?, push, next]

theorem block?_push_of_lt {h : Heap} {b : Nat} (hb : b < h.next) (blk : Block) :
    (h.push blk).block? b = h.block? b := by
  simp only [block?, push, List.getElem?_append_left hb]

theorem block?_push_of_some {h : Heap} {b : Nat} {old : Block} (hb : h.block? b = some old)
    (blk : Block) : (h.push blk).block? b = some old := by
  rw [block?_push_of_lt (lt_next hb), hb]

@[simp] theorem block?_tick (h : Heap) (b : Nat) : h.tick.block? b = h.block? b := rfl

theorem block?_kill_self (h : Heap) (b : Nat) : (h.kill b).block? b = none := by
  simp only [block?, kill, List.getElem?_set_self']
  cases h.blocks[b]? <;> rfl

theorem block?_kill_ne (h : Heap) {b b' : Nat} (hne : b' ≠ b) :
    (h.kill b).block? b' = h.block? b' := by
  simp only [block?, kill, List.getElem?_set_ne (Ne.symm hne)]

@[simp] theorem next_update (h : Heap) (b : Nat) (blk : Block) :
    (h.update b blk).next = h.next := by simp [next, update]

@[simp] theorem next_push (h : Heap) (blk : Block) : (h.push blk).next = h.next + 1 := by
  simp [next, push]

@[simp] theorem next_tick (h : Heap) : h.tick.next = h.next := rfl

@[simp] theorem next_kill (h : Heap) (b : Nat) : (h.kill b).next = h.next := by
  simp [next, kill]

@[simp] theorem calls_update (h : Heap) (b : Nat) (blk : Block) :
    (h.update b blk).calls = h.calls := rfl

@[simp] theorem calls_push (h : Heap) (blk : Block) : (h.push blk).calls = h.calls + 1 := rfl

@[simp] theorem calls_tick (h : Heap) : h.tick.calls = h.calls + 1 := rfl

theorem update_update (h : Heap) (b : Nat) (x y : Block) :
    (h.update b x).update b y = h.update b y := by
  simp [update, List.set_set]

theorem update_comm (h : Heap) {b b' : Nat} (hne : b ≠ b') (x y : Block) :
    (h.update b x).update b' y = (h.update b' y).update b x := by
  simp only [update, List.set_comm _ _ hne]

theorem update_push {h : Heap} {b : Nat} (hb : b < h.next) (x y : Block) :
    (h.push y).update b x = (h.update b x).push y := by
  simp only [update, push, Heap.mk.injEq, and_true]
  exact List.set_append_left _ _ hb

theorem push_inj {h : Heap} {x y : Block} (he : h.push x = h.push y) : x = y := by
  have hb := block?_push_self h x
  rw [he, block?_push_self] at hb
  exact (Option.some.inj hb).symm

/-- Writing the block allocated last. -/
theorem update_push_next (h : Heap) (x y : Block) : (h.push x).update h.next y = h.push y := by
  simp [update, push, next]

theorem update_self {h : Heap} {b : Nat} {blk : Block} (hb : h.block? b = some blk) :
    h.update b blk = h := by
  have hlt : b < h.blocks.length := lt_next hb
  have hg : h.blocks[b] = some blk := by
    rw [block?, List.getElem?_eq_getElem hlt] at hb
    exact hb
  cases h
  simp only [update, Heap.mk.injEq, and_true] at hg ⊢
  rw [← hg]
  exact List.set_getElem_self hlt

/-- The `n` cells at `p`, when they lie inside a live block. -/
def read (h : Heap) (p : Ptr) (n : Nat) : Option (List Cell) :=
  match p with
  | .loc b o =>
    (h.block? b).bind fun blk =>
      if o.toNat + n ≤ blk.cells.length then some (slice blk.cells o.toNat n) else none
  | _ => none

theorem read_loc {h : Heap} {b : Nat} {blk : Block} {o : I64} {n : Nat}
    (hb : h.block? b = some blk) (hn : o.toNat + n ≤ blk.cells.length) :
    h.read (.loc b o) n = some (slice blk.cells o.toNat n) := by
  simp [read, hb, hn]

theorem read_eq_some {h : Heap} {p : Ptr} {n : Nat} {cs : List Cell}
    (hr : h.read p n = some cs) : ∃ b o blk, p = .loc b o ∧ h.block? b = some blk ∧
      o.toNat + n ≤ blk.cells.length ∧ cs = slice blk.cells o.toNat n := by
  cases p with
  | loc b o =>
    simp only [read, Option.bind_eq_some_iff] at hr
    obtain ⟨blk, hb, hr⟩ := hr
    split at hr
    · next hn => exact ⟨b, o, blk, rfl, hb, hn, (Option.some.inj hr).symm⟩
    · cases hr
  | null => cases hr
  | wild raw => cases hr

theorem length_of_read {h : Heap} {p : Ptr} {n : Nat} {cs : List Cell}
    (hr : h.read p n = some cs) : cs.length = n := by
  obtain ⟨b, o, blk, rfl, -, hn, rfl⟩ := read_eq_some hr
  exact length_slice hn

/-- A read depends only on the block it reads. -/
theorem read_congr {h h' : Heap} {b : Nat} (hb : h'.block? b = h.block? b) (o : I64) (n : Nat) :
    h'.read (.loc b o) n = h.read (.loc b o) n := by
  simp only [read, hb]

theorem read_update_ne (h : Heap) {b b' : Nat} (hne : b' ≠ b) (blk : Block) (o : I64) (n : Nat) :
    (h.update b blk).read (.loc b' o) n = h.read (.loc b' o) n :=
  read_congr (block?_update_ne h hne blk) o n

/-! ## Heaps that only grow -/

/-- Every block that was there is still there, unchanged. -/
structure Extends (h h' : Heap) : Prop where
  next_le : h.next ≤ h'.next
  block?_eq : ∀ d < h.next, h'.block? d = h.block? d

namespace Extends

variable {h h₁ h₂ : Heap} {b : Nat}

theorem refl (h : Heap) : h.Extends h := ⟨Nat.le_refl _, fun _ _ => rfl⟩

theorem trans (e₁ : h.Extends h₁) (e₂ : h₁.Extends h₂) : h.Extends h₂ where
  next_le := Nat.le_trans e₁.next_le e₂.next_le
  block?_eq d hd := by
    rw [e₂.block?_eq d (Nat.lt_of_lt_of_le hd e₁.next_le), e₁.block?_eq d hd]

theorem push (e : h.Extends h₁) (blk : Block) : h.Extends (h₁.push blk) where
  next_le := by rw [next_push]; exact Nat.le_succ_of_le e.next_le
  block?_eq d hd := by
    rw [block?_push_of_lt (Nat.lt_of_lt_of_le hd e.next_le), e.block?_eq d hd]

theorem update (e : h.Extends h₁) (hb : h.next ≤ b) (blk : Block) :
    h.Extends (h₁.update b blk) where
  next_le := by rw [next_update]; exact e.next_le
  block?_eq d hd := by
    rw [block?_update_ne h₁ (Nat.ne_of_lt (Nat.lt_of_lt_of_le hd hb)), e.block?_eq d hd]

theorem kill (e : h.Extends h₁) (hb : h.next ≤ b) : h.Extends (h₁.kill b) where
  next_le := by rw [next_kill]; exact e.next_le
  block?_eq d hd := by
    rw [block?_kill_ne h₁ (Nat.ne_of_lt (Nat.lt_of_lt_of_le hd hb)), e.block?_eq d hd]

theorem block?_some (e : h.Extends h₁) {blk : Block} (hb : h.block? b = some blk) :
    h₁.block? b = some blk := by
  rw [e.block?_eq b (lt_next hb), hb]

end Extends

end Heap

/-! ## Programs -/

inductive Fault where
  /-- a load or store outside a live block -/
  | access
  /-- `free` or `realloc` of something that is not the start of a live block -/
  | free
  /-- ill-formed code -/
  | invalid
  deriving DecidableEq

def Prog (α : Type) : Type := Heap → Except Fault (α × Heap)

namespace Prog

instance : Monad Prog where
  pure a h := .ok (a, h)
  bind x f h := match x h with
    | .ok (a, h') => f a h'
    | .error e => .error e

/-- Stop with a fault. -/
def fault {α : Type} (e : Fault) : Prog α := fun _ => .error e

variable {α β : Type}

theorem pure_apply (a : α) (h : Heap) : (pure a : Prog α) h = .ok (a, h) := rfl

theorem bind_of_ok {x : Prog α} {f : α → Prog β} {h h' : Heap} {a : α}
    (hx : x h = .ok (a, h')) : (x >>= f) h = f a h' := by
  show (match x h with | .ok (a, h') => f a h' | .error e => .error e) = _
  rw [hx]

theorem bind_of_error {x : Prog α} {f : α → Prog β} {h : Heap} {e : Fault}
    (hx : x h = .error e) : (x >>= f) h = .error e := by
  show (match x h with | .ok (a, h') => f a h' | .error e => .error e) = _
  rw [hx]

/-- A run of `x >>= f` that ends normally runs `x` and then `f`. -/
theorem bind_eq_ok {x : Prog α} {f : α → Prog β} {h h' : Heap} {b : β}
    (hr : (x >>= f) h = .ok (b, h')) :
    ∃ a h₁, x h = .ok (a, h₁) ∧ f a h₁ = .ok (b, h') := by
  cases hx : x h with
  | ok r =>
    obtain ⟨a, h₁⟩ := r
    rw [bind_of_ok hx] at hr
    exact ⟨a, h₁, rfl, hr⟩
  | error e => rw [bind_of_error hx] at hr; cases hr

end Prog

open Prog

/-- How the allocation functions behave: which call (by number and size) succeeds, what a
    new block holds, at which address a block lies. -/
structure Allocator where
  succeeds : Nat → Nat → Bool
  fill : Nat → Nat → Byte
  addr : Nat → I64

/-- The block that allocation call number `t` returns for size `n`. -/
def Allocator.fresh (A : Allocator) (t : Nat) (n : I64) : Block where
  cells := (List.range n.toNat).map fun i => .byte (A.fill t i)
  fits := by simpa using n.isLt

/-- An allocator that never fails and clears memory. -/
def Allocator.calloc : Allocator where
  succeeds _ _ := true
  fill _ _ := 0
  addr b := BitVec.ofNat 64 (4096 * (b + 1))

@[simp] theorem Allocator.length_fresh (A : Allocator) (t : Nat) (n : I64) :
    (A.fresh t n).cells.length = n.toNat := by simp [fresh]

def load (p : Ptr) (n : Nat) : Prog (List Cell) := fun h =>
  match h.read p n with
  | some cs => .ok (cs, h)
  | none => .error .access

def store (p : Ptr) (cs : List Cell) : Prog Unit := fun h =>
  match p with
  | .loc b o =>
    match h.block? b with
    | some blk =>
      if o.toNat + cs.length ≤ blk.cells.length then
        .ok ((), h.update b (blk.overwrite o.toNat cs))
      else .error .access
    | none => .error .access
  | _ => .error .access

def malloc (A : Allocator) (n : I64) : Prog Ptr := fun h =>
  if A.succeeds h.calls n.toNat then .ok (.base h.next, h.push (A.fresh h.calls n))
  else .ok (.null, h.tick)

def free (p : Ptr) : Prog Unit := fun h =>
  match p with
  | .null => .ok ((), h)
  | .loc b o =>
    match h.block? b with
    | some _ => if o = 0 then .ok ((), h.kill b) else .error .free
    | none => .error .free
  | .wild _ => .error .free

def realloc (A : Allocator) (p : Ptr) (n : I64) : Prog Ptr := fun h =>
  match p with
  | .null => malloc A n h
  | .loc b o =>
    match h.block? b with
    | some old =>
      if o = 0 then
        if n = 0 then .ok (.null, (h.kill b).tick)
        else if A.succeeds h.calls n.toNat then
          .ok (.base h.next, (h.kill b).push (old.resize (A.fresh h.calls n)))
        else .ok (.null, h.tick)
      else .error .free
    | none => .error .free
  | .wild _ => .error .free

/-- Copies of length 0 touch no memory. -/
def memcpy (dst src : Ptr) (n : I64) : Prog Unit :=
  if n = 0 then pure () else do
    let cs ← load src n.toNat
    store dst cs

section Rules

variable {A : Allocator} {h : Heap} {b : Nat} {blk : Block} {o n : I64} {p : Ptr}
  {cs : List Cell} {k : Nat}

theorem load_of_read (hr : h.read p k = some cs) : load p k h = .ok (cs, h) := by
  simp only [load, hr]

theorem load_ok (hb : h.block? b = some blk) (hk : o.toNat + k ≤ blk.cells.length) :
    load (.loc b o) k h = .ok (slice blk.cells o.toNat k, h) :=
  load_of_read (Heap.read_loc hb hk)

theorem load_fault (hb : h.block? b = some blk) (hk : blk.cells.length < o.toNat + k) :
    load (.loc b o) k h = .error .access := by
  have : ¬ o.toNat + k ≤ blk.cells.length := by omega
  simp [load, Heap.read, hb, this]

theorem store_ok (hb : h.block? b = some blk) (hk : o.toNat + cs.length ≤ blk.cells.length) :
    store (.loc b o) cs h = .ok ((), h.update b (blk.overwrite o.toNat cs)) := by
  simp only [store, hb, if_pos hk]

theorem store_fault (hb : h.block? b = some blk) (hk : blk.cells.length < o.toNat + cs.length) :
    store (.loc b o) cs h = .error .access := by
  simp only [store, hb, if_neg (Nat.not_le.mpr hk)]

theorem malloc_ok (hs : A.succeeds h.calls n.toNat = true) :
    malloc A n h = .ok (.base h.next, h.push (A.fresh h.calls n)) := by
  simp only [malloc, hs, if_true]

theorem malloc_null (hs : A.succeeds h.calls n.toNat = false) :
    malloc A n h = .ok (.null, h.tick) := by
  simp only [malloc, hs, Bool.false_eq_true, if_false]

theorem free_ok (hb : h.block? b = some blk) : free (.base b) h = .ok ((), h.kill b) := by
  simp only [free, hb, if_true]

theorem realloc_of_null : realloc A .null n h = malloc A n h := rfl

theorem realloc_zero (hb : h.block? b = some blk) :
    realloc A (.base b) 0 h = .ok (.null, (h.kill b).tick) := by
  simp only [realloc, hb, if_true]

theorem realloc_ok (hb : h.block? b = some blk) (hn : n ≠ 0)
    (hs : A.succeeds h.calls n.toNat = true) :
    realloc A (.base b) n h =
      .ok (.base h.next, (h.kill b).push (blk.resize (A.fresh h.calls n))) := by
  simp only [realloc, hb, if_true, if_neg hn, hs]

/-- What `realloc` may return. -/
theorem realloc_cases {p q : Ptr} {h' : Heap} (hrun : realloc A p n h = .ok (q, h')) :
    (q = .null ∧ h' = h.tick ∧ (p = .null ∨ n ≠ 0)) ∨
      (q = .null ∧ n = 0 ∧ ∃ d old, p = .base d ∧ h.block? d = some old ∧ h' = (h.kill d).tick) ∨
      q = .base h.next := by
  cases p with
  | null =>
    cases hs : A.succeeds h.calls n.toNat with
    | true =>
      rw [realloc_of_null, malloc_ok hs] at hrun
      cases hrun
      exact Or.inr (Or.inr rfl)
    | false =>
      rw [realloc_of_null, malloc_null hs] at hrun
      cases hrun
      exact Or.inl ⟨rfl, rfl, Or.inl rfl⟩
  | wild raw => cases hrun
  | loc d o =>
    simp only [realloc] at hrun
    split at hrun
    · next old hd =>
      split at hrun
      · next ho =>
        subst ho
        split at hrun
        · next hn => cases hrun; exact Or.inr (Or.inl ⟨rfl, hn, d, old, rfl, hd, rfl⟩)
        · next hn =>
          split at hrun
          · cases hrun; exact Or.inr (Or.inr rfl)
          · cases hrun; exact Or.inl ⟨rfl, rfl, Or.inr hn⟩
      · cases hrun
    · cases hrun

theorem memcpy_zero (p q : Ptr) : memcpy p q 0 h = .ok ((), h) := rfl

/-- The `n` bytes a copy from `src` moves: none when `n` is 0, whatever `src` is. -/
def Heap.bytesAt (h : Heap) (src : Ptr) (n : Nat) : List Cell := (h.read src n).getD []

/-- `n` bytes can be copied from `src`. -/
def Heap.Readable (h : Heap) (src : Ptr) (n : Nat) : Prop := n = 0 ∨ (h.read src n).isSome

theorem Heap.length_bytesAt {src : Ptr} {n : Nat} (hr : h.Readable src n) :
    (h.bytesAt src n).length = n := by
  unfold Heap.bytesAt
  cases hc : h.read src n with
  | some cs => exact Heap.length_of_read hc
  | none =>
    rcases hr with rfl | hr
    · rfl
    · rw [hc] at hr; cases hr

/-- What can be copied can still be copied when the blocks that were there are. -/
theorem Heap.readable_extend {src : Ptr} {n : Nat} {h h' : Heap} (hr : h.Readable src n)
    (he : ∀ d < h.next, h'.block? d = h.block? d) :
    h'.Readable src n ∧ h'.bytesAt src n = h.bytesAt src n := by
  rcases hr with rfl | hr
  · refine ⟨Or.inl rfl, ?_⟩
    have h1 := Heap.length_bytesAt (n := 0) (Or.inl rfl : h.Readable src 0)
    have h2 := Heap.length_bytesAt (n := 0) (Or.inl rfl : h'.Readable src 0)
    rw [List.eq_nil_of_length_eq_zero h1, List.eq_nil_of_length_eq_zero h2]
  · obtain ⟨cs, hcs⟩ := Option.isSome_iff_exists.mp hr
    obtain ⟨b, o, old, rfl, hb, -, -⟩ := Heap.read_eq_some hcs
    have heq : h'.read (.loc b o) n = h.read (.loc b o) n :=
      Heap.read_congr (he b (Heap.lt_next hb)) o n
    exact ⟨Or.inr (by rw [heq]; exact hr), by simp only [Heap.bytesAt, heq]⟩

theorem Heap.readable_push {src : Ptr} {n : Nat} (hr : h.Readable src n) (blk : Block) :
    (h.push blk).Readable src n ∧ (h.push blk).bytesAt src n = h.bytesAt src n :=
  Heap.readable_extend hr ((Heap.Extends.refl h).push blk).block?_eq

/-- What can be copied depends only on the block it is in. -/
theorem Heap.readable_congr {src : Ptr} {n : Nat} {h h' : Heap} (hr : h.Readable src n)
    (he : ∀ d o, src = .loc d o → h'.block? d = h.block? d) :
    h'.Readable src n ∧ h'.bytesAt src n = h.bytesAt src n := by
  have heq : h'.read src n = h.read src n := by
    cases src with
    | loc d o => exact Heap.read_congr (he d o rfl) o n
    | null => rfl
    | wild raw => rfl
  exact ⟨hr.imp_right fun h => by rw [heq]; exact h, by simp only [Heap.bytesAt, heq]⟩

theorem Heap.readable_update_ne {src : Ptr} {n b : Nat} (hr : h.Readable src n)
    (hne : ∀ o, src ≠ .loc b o) (blk : Block) :
    (h.update b blk).Readable src n ∧ (h.update b blk).bytesAt src n = h.bytesAt src n := by
  refine Heap.readable_congr hr fun d o hs => Heap.block?_update_ne h ?_ blk
  rintro rfl
  exact hne o hs

theorem Heap.readable_kill_ne {src : Ptr} {n b : Nat} (hr : h.Readable src n)
    (hne : ∀ o, src ≠ .loc b o) :
    (h.kill b).Readable src n ∧ (h.kill b).bytesAt src n = h.bytesAt src n := by
  refine Heap.readable_congr hr fun d o hs => Heap.block?_kill_ne h ?_
  rintro rfl
  exact hne o hs

theorem memcpy_ok {src : Ptr} (hr : h.Readable src n.toNat) (hb : h.block? b = some blk)
    (hk : o.toNat + n.toNat ≤ blk.cells.length) :
    memcpy (.loc b o) src n h =
      .ok ((), h.update b (blk.overwrite o.toNat (h.bytesAt src n.toNat))) := by
  have hlen := Heap.length_bytesAt hr
  by_cases hn : n = 0
  · subst hn
    have hnil : h.bytesAt src (0 : I64).toNat = [] :=
      List.eq_nil_of_length_eq_zero (by simpa using hlen)
    have hsame : blk.overwrite o.toNat (h.bytesAt src (0 : I64).toNat) = blk := by
      apply Block.ext
      have hk' : o.toNat ≤ blk.cells.length := by omega
      rw [hnil, Block.overwrite_cells (by simpa using hk')]
      simp [splice]
    rw [memcpy_zero, hsame, Heap.update_self hb]
  · have hn0 : n.toNat ≠ 0 := fun h0 => hn (BitVec.eq_of_toNat_eq (by simpa using h0))
    rcases hr with hr | hr
    · exact absurd hr hn0
    · obtain ⟨cs, hcs⟩ := Option.isSome_iff_exists.mp hr
      have hby : h.bytesAt src n.toNat = cs := by simp [Heap.bytesAt, hcs]
      rw [hby] at hlen ⊢
      rw [memcpy, if_neg hn, bind_of_ok (load_of_read hcs)]
      exact store_ok hb (by rw [hlen]; exact hk)

/-- A copy of something past the end of the target. -/
theorem memcpy_overflow {src : Ptr} (hr : h.Readable src n.toNat) (hn : n ≠ 0)
    (hb : h.block? b = some blk) (hk : blk.cells.length < o.toNat + n.toNat) :
    memcpy (.loc b o) src n h = .error .access := by
  have hn0 : n.toNat ≠ 0 := fun h0 => hn (BitVec.eq_of_toNat_eq (by simpa using h0))
  obtain ⟨cs, hcs⟩ := Option.isSome_iff_exists.mp (hr.resolve_left hn0)
  have hlen := Heap.length_of_read hcs
  rw [memcpy, if_neg hn, bind_of_ok (load_of_read hcs)]
  exact store_fault hb (by rw [hlen]; exact hk)

theorem memcpy_fault {src : Ptr} (hn : n ≠ 0) (hr : h.read src n.toNat = none) :
    memcpy p src n h = .error .access := by
  rw [memcpy, if_neg hn]
  exact bind_of_error (by simp only [load, hr])

end Rules

end Tyr
