import Tyr.Wire.Nested

/-
  Is the serialized form determined by the logical value?

  A statement about two runs: two heaps hold structs with the same value (`SameValue`), the
  addresses and the contents of fresh blocks are arbitrary in both, and the bytes of the two
  buffers are compared. Elements of arrays are compared as a load finds them. Three kinds of byte
  in a buffer may differ: padding after a stored field, which is what `malloc` left there
  (`slice_emit_gap`); array elements with bits that no load looks at, which are copied with them;
  and array elements that are pointers. `Dense` rules out the three, and `determined_iff` says
  that it is exactly what is needed.
-/

namespace Tyr

open Prog

namespace Env

/-! ## The same value in two heaps -/

/-- Cells as the bytes an observer sees. -/
def bytesOf (E : Env) (cs : List Cell) : List Byte := cs.map (Cell.toByte E.ptrBytes)

/-- Element `k` of an array, without the padding after it. -/
def elementAt (E : Env) (S : Struct) (h : Heap) (blk : Block) (f : Field) (k : Nat) : List Cell :=
  slice (E.elementsAt S h blk f) (k * E.layout.allocSize f.elem) (E.layout.storeSize f.elem)

section Value

variable (E₁ E₂ : Env)

/-- Two elements of type `t` that a load finds equal; `same` compares what pointers point at. -/
def SameElement (same : Ty → Ptr → Ptr → Prop) (t : Ty) (w₁ w₂ : List Cell) : Prop :=
  if t.isPointerTy then same t (E₁.decode t w₁).asPtr (E₂.decode t w₂).asPtr
  else (E₁.decode t w₁).asInt = (E₂.decode t w₂).asInt

/-- Struct objects `s₁` and `s₂` have equal scalars and counts and arrays of equal elements. -/
structure SameValue (S : Struct) (h₁ h₂ : Heap) (s₁ s₂ : Block)
    (same : Ty → Ptr → Ptr → Prop) : Prop where
  valid₁ : E₁.Valid S h₁ s₁
  valid₂ : E₂.Valid S h₂ s₂
  scalar : ∀ f ∈ S.fields, f.type.isPointerTy = false → E₁.intAt S s₁ f = E₂.intAt S s₂ f
  struct : ∀ f ∈ S.fields, f.isStruct = true →
    same f.type (E₁.ptrAt S s₁ f) (E₂.ptrAt S s₂ f)
  array : ∀ f ∈ S.fields, f.isRepeated = true →
    ∀ k < (E₁.countAt S s₁ (S.countOf f)).toNat,
      SameElement E₁ E₂ same f.elem (E₁.elementAt S h₁ s₁ f k) (E₂.elementAt S h₂ s₂ f k)

/-- Pointers to structs of type `t` that are both NULL or point at structs of one value. -/
def SamePointee (h₁ h₂ : Heap) : List Struct → Ty → Ptr → Ptr → Prop
  | [], _, _, _ => False
  | T :: earlier, t, p₁, p₂ =>
    if pointeeName t = some T.name then
      p₁ = .null ∧ p₂ = .null ∨
      ∃ b₁ b₂ s₁ s₂, p₁ = .base b₁ ∧ p₂ = .base b₂ ∧ h₁.block? b₁ = some s₁ ∧
        h₂.block? b₂ = some s₂ ∧ SameValue E₁ E₂ T h₁ h₂ s₁ s₂ (SamePointee h₁ h₂ earlier)
    else SamePointee h₁ h₂ earlier t p₁ p₂

end Value

end Env

open Env

/-- Structs of one value are serialized to the same bytes, in whatever heaps they are and
    whatever the two allocators do, as long as they do not fail. -/
def Determined (DL : DataLayout) (M : List Struct) (S : Struct) (earlier : List Struct) : Prop :=
  ∀ A₁ A₂ : Allocator, (∀ t n, A₁.succeeds t n = true) → (∀ t n, A₂.succeeds t n = true) →
    ∀ (h₁ h₂ : Heap) (b₁ b₂ : Nat) (s₁ s₂ : Block),
      h₁.block? b₁ = some s₁ → h₂.block? b₂ = some s₂ →
      (ofModule A₁ DL M).exactSize S s₁ < 2 ^ 64 → (ofModule A₂ DL M).exactSize S s₂ < 2 ^ 64 →
      SameValue (ofModule A₁ DL M) (ofModule A₂ DL M) S h₁ h₂ s₁ s₂
        (SamePointee (ofModule A₁ DL M) (ofModule A₂ DL M) h₁ h₂ earlier) →
      ∃ buf₁ buf₂,
        (ofModule A₁ DL M).getSerializer S (.base b₁) h₁ = .ok (.base h₁.next, h₁.push buf₁) ∧
        (ofModule A₂ DL M).getSerializer S (.base b₂) h₂ = .ok (.base h₂.next, h₂.push buf₂) ∧
        (ofModule A₁ DL M).bytesOf buf₁.cells = (ofModule A₂ DL M).bytesOf buf₂.cells

/-- The structs that fields point at are declared before them; the latest comes first. -/
def Declared : List Struct → Prop
  | [] => True
  | S :: earlier =>
    (∀ f ∈ S.fields, f.isStruct = true → ∃ T ∈ earlier, pointeeName f.type = some T.name) ∧
    (∀ f ∈ S.fields, f.isRepeated = true → f.elem.isPointerTy = true →
      ∃ T ∈ earlier, pointeeName f.elem = some T.name) ∧
    Declared earlier

/-- A struct object, and its serialized form with one element in each array, are of a size
    that a 64-bit integer holds. -/
structure Struct.Small (DL : DataLayout) (S : Struct) : Prop where
  object : DL.structSize S.packed S.elements < 2 ^ 64
  wire : 8 + (S.fields.map fun f =>
    if f.isRepeated then DL.allocSize f.elem else DL.allocSize f.type).sum < 2 ^ 64

/-- No field has padding after it, array elements are numbers, and every bit of an element is
    one of the number's. -/
structure Dense (DL : DataLayout) (S : Struct) : Prop where
  field : ∀ f ∈ S.fields, f.isRepeated = false → DL.storeSize f.type = DL.allocSize f.type
  element : ∀ f ∈ S.fields, f.isRepeated = true →
    f.elem.isPointerTy = false ∧ DL.getTypeSizeInBits f.elem = 8 * DL.allocSize f.elem

/-! ## Lists by windows -/

/-- Lists of `n` windows of length `a` are equal when their windows are. -/
theorem slice_eq_of_windows {α : Type} {l₁ l₂ : List α} {a : Nat} :
    ∀ n, (∀ k < n, slice l₁ (k * a) a = slice l₂ (k * a) a) →
      slice l₁ 0 (n * a) = slice l₂ 0 (n * a)
  | 0, _ => by simp
  | n + 1, h => by
    have ih := slice_eq_of_windows n fun k hk => h k (Nat.lt_succ_of_lt hk)
    rw [Nat.succ_mul, ← slice_append, ← slice_append, ih, Nat.zero_add, h n (Nat.lt_succ_self n)]

namespace Env

variable {E : Env} {S : Struct} {h : Heap} {blk : Block}

/-! ## The buffer field by field -/

/-- The windows of all fields, one after the other. -/
theorem Wired.slice_eq {out : List Cell} : ∀ {fs : List Field} {off : Nat},
    E.Wired S h blk out fs off →
    (∀ f ∈ fs, f.isCount = false → (E.wireBytes S h blk f).length = E.wireNat S blk f) →
    slice out off (E.sumWire S blk fs) =
      fs.flatMap fun f => if f.isCount then [] else E.wireBytes S h blk f
  | [], off, _, _ => slice_zero_length out off
  | f :: fs, off, hw, hlen => by
    have hlen' : ∀ g ∈ fs, g.isCount = false →
        (E.wireBytes S h blk g).length = E.wireNat S blk g := fun g hg =>
      hlen g (List.mem_cons_of_mem f hg)
    rw [Wired] at hw
    rw [sumWire_cons, List.flatMap_cons]
    cases hc : f.isCount with
    | true =>
      simp only [hc, if_true] at hw
      rw [wireNat_count hc, Nat.zero_add, hw.slice_eq hlen']
      rfl
    | false =>
      simp only [hc, Bool.false_eq_true, if_false] at hw
      have hf := hw.1
      rw [hlen f List.mem_cons_self hc] at hf
      rw [← slice_append, hf, hw.2.slice_eq hlen']
      rfl

/-- The window of one field. -/
theorem Wired.window {out : List Cell} {f : Field} {post : List Field} (hc : f.isCount = false) :
    ∀ {pre : List Field} {off : Nat}, E.Wired S h blk out (pre ++ f :: post) off →
      slice out (off + E.sumWire S blk pre) (E.wireBytes S h blk f).length =
        E.wireBytes S h blk f
  | [], off, hw => by
    rw [List.nil_append, Wired, if_neg (by rw [hc]; decide)] at hw
    exact hw.1
  | g :: pre, off, hw => by
    rw [List.cons_append, Wired] at hw
    rw [sumWire_cons]
    cases hg : g.isCount with
    | true =>
      rw [if_pos hg] at hw
      rw [wireNat_count hg, Nat.zero_add]
      exact hw.window hc
    | false =>
      rw [if_neg (by rw [hg]; decide)] at hw
      rw [← Nat.add_assoc]
      exact hw.2.window hc

/-- The byte after a stored field, before the next one, is the one the block came with. -/
theorem slice_emit_gap (wf : S.WellFormed) (hb : E.Holds S blk)
    (hread : E.ArraysReadable S h blk) {f : Field} {post : List Field} (hc : f.isCount = false)
    (hr : f.isRepeated = false) (hgap : E.layout.storeSize f.type < E.layout.allocSize f.type) :
    ∀ (pre : List Field) (idx : I64) (out : Block), (∀ g ∈ pre ++ f :: post, g ∈ S.fields) →
      idx.toNat + E.sumWire S blk (pre ++ f :: post) ≤ out.cells.length →
      slice (E.emit S h blk (pre ++ f :: post) idx out).cells
          (idx.toNat + E.sumWire S blk pre + E.layout.storeSize f.type) 1 =
        slice out.cells (idx.toNat + E.sumWire S blk pre + E.layout.storeSize f.type) 1
  | [], idx, out, hm, hfit => by
    have hf := hm f List.mem_cons_self
    have hm' : ∀ g ∈ post, g ∈ S.fields := fun g hg => hm g (List.mem_cons_of_mem f hg)
    have hlen : (E.wireBytes S h blk f).length = E.layout.storeSize f.type := by
      rw [length_wireBytes hread hf, if_neg (by rw [hr]; decide)]
    have hw : E.wireNat S blk f = E.layout.allocSize f.type := by
      rw [wireNat, Field.onWire, hc, hr]
      exact toNat_allocSize wf hb hf hr
    have hlt := out.fits
    rw [List.nil_append, sumWire_cons] at hfit
    have hidx := toNat_add_wireSize (E := E) (S := S) blk hc idx (by omega)
    have hnil : E.sumWire S blk [] = 0 := rfl
    rw [List.nil_append, emit, if_neg (by rw [hc]; decide), hnil, Nat.add_zero,
      slice_emit_below wf hb hread post _ _ _ _ hm' (by rw [hidx, Block.length_overwrite]; omega)
        (by omega), Block.overwrite_cells (by omega)]
    exact slice_splice_disjoint (by omega) (Or.inr (by omega))
  | g :: pre, idx, out, hm, hfit => by
    have hg := hm g List.mem_cons_self
    have hm' : ∀ x ∈ pre ++ f :: post, x ∈ S.fields := fun x hx =>
      hm x (List.mem_cons_of_mem g hx)
    have hlt := out.fits
    rw [List.cons_append, sumWire_cons] at hfit
    rw [List.cons_append, emit, sumWire_cons]
    cases hgc : g.isCount with
    | true =>
      rw [wireNat_count hgc] at hfit
      rw [if_pos rfl, wireNat_count hgc, Nat.zero_add]
      exact slice_emit_gap wf hb hread hc hr hgap pre idx out hm' (by omega)
    | false =>
      have hlen := length_wireBytes_le wf hb hread hg hgc
      have hidx := toNat_add_wireSize (E := E) (S := S) blk hgc idx (by omega)
      have ih := slice_emit_gap wf hb hread hc hr hgap pre (idx + E.wireSize S blk g)
        (out.overwrite idx.toNat (E.wireBytes S h blk g)) hm'
        (by rw [hidx, Block.length_overwrite]; omega)
      rw [hidx] at ih
      rw [if_neg (by decide), ← Nat.add_assoc, ih, Block.overwrite_cells (by omega)]
      exact slice_splice_disjoint (by omega) (Or.inr (by omega))

/-- Nothing but the header and the fields' windows is in the buffer of a dense struct. -/
theorem serialized_cells (wf : S.WellFormed) (hb : E.Holds S blk)
    (hread : E.ArraysReadable S h blk) (hsize : E.serializedSize S blk < 2 ^ 64)
    (hd : Dense E.layout S) :
    (E.serialized S h blk).cells = E.encodeI64 (BitVec.ofNat 64 (E.serializedSize S blk)) ++
      S.fields.flatMap fun f => if f.isCount then [] else E.wireBytes S h blk f := by
  have hlen := length_serialized (h := h) hsize
  have hwire : ∀ f ∈ S.fields, f.isCount = false →
      (E.wireBytes S h blk f).length = E.wireNat S blk f := by
    intro f hf hc
    rw [length_wireBytes hread hf, wireNat, Field.onWire, hc]
    cases hr : f.isRepeated with
    | true => rfl
    | false =>
      rw [toNat_allocSize wf hb hf hr]
      exact hd.field f hf hr
  have hfields := (wired_serialized wf hb hread hsize).slice_eq hwire
  rw [sum_wireSize wf] at hfields
  rw [← hfields, ← header_serialized wf hb hread hsize, slice_append]
  conv_lhs => rw [← slice_self (E.serialized S h blk).cells, hlen]
  rfl

/-! ## Dense structs -/

section Dense

variable {A₁ A₂ : Allocator} {DL : DataLayout} {M : List Struct} {S : Struct} {h₁ h₂ : Heap}
  {s₁ s₂ : Block} {same : Ty → Ptr → Ptr → Prop}

/-- Stored integers are plain bytes, the same for every observer. -/
theorem bytesOf_encode_int (t : Ty) (v : Nat) :
    (ofModule A₁ DL M).bytesOf ((ofModule A₁ DL M).encode t (.int v)) =
      (ofModule A₂ DL M).bytesOf ((ofModule A₂ DL M).encode t (.int v)) := by
  unfold bytesOf encode encodeInt
  rw [map_toByte_byte, map_toByte_byte]
  rfl

/-- Of an element without spare bits the value says every byte. -/
theorem bytesOf_of_decode {t : Ty} {k : Nat} {w₁ w₂ : List Cell} (hp : t.isPointerTy = false)
    (hbits : DL.getTypeSizeInBits t = 8 * k) (hl₁ : w₁.length = k) (hl₂ : w₂.length = k)
    (h : ((ofModule A₁ DL M).decode t w₁).asInt = ((ofModule A₂ DL M).decode t w₂).asInt) :
    (ofModule A₁ DL M).bytesOf w₁ = (ofModule A₂ DL M).bytesOf w₂ := by
  have hval : ∀ (A : Allocator) (w : List Cell), w.length = k →
      ((ofModule A DL M).decode t w).asInt =
        ofLE (inOrder DL.bigEndian ((ofModule A DL M).bytesOf w)) := by
    intro A w hl
    have hlt := ofLE_lt (inOrder DL.bigEndian ((ofModule A DL M).bytesOf w))
    rw [length_inOrder, bytesOf, List.length_map, hl,
      show (256 : Nat) ^ k = 2 ^ (8 * k) from (Nat.pow_mul 2 8 k).symm, ← hbits] at hlt
    rw [decode, if_neg (by rw [hp]; decide)]
    exact Nat.mod_eq_of_lt hlt
  rw [hval A₁ w₁ hl₁, hval A₂ w₂ hl₂] at h
  have hsame := ofLE_inj (by simp [bytesOf, hl₁, hl₂]) h
  rw [← inOrder_inOrder DL.bigEndian ((ofModule A₁ DL M).bytesOf w₁), hsame, inOrder_inOrder]

theorem SameValue.count (hv : SameValue (ofModule A₁ DL M) (ofModule A₂ DL M) S h₁ h₂ s₁ s₂ same)
    {c : Field} (hc : c ∈ S.fields) (ht : c.type = .int 64) :
    (ofModule A₁ DL M).countAt S s₁ c = (ofModule A₂ DL M).countAt S s₂ c := by
  have h := hv.scalar c hc (by rw [ht]; rfl)
  rw [intAt_count _ ht, intAt_count _ ht] at h
  exact BitVec.eq_of_toNat_eq h

theorem SameValue.exactFieldSize (wf : S.WellFormed)
    (hv : SameValue (ofModule A₁ DL M) (ofModule A₂ DL M) S h₁ h₂ s₁ s₂ same) {f : Field}
    (hf : f ∈ S.fields) :
    (ofModule A₁ DL M).exactFieldSize S s₁ f = (ofModule A₂ DL M).exactFieldSize S s₂ f := by
  unfold Env.exactFieldSize
  cases hr : f.isRepeated with
  | true =>
    rw [hv.count (wf.countOf_mem hf hr) (wf.countOf_type hf hr)]
    rfl
  | false => rfl

theorem SameValue.exactSize (wf : S.WellFormed)
    (hv : SameValue (ofModule A₁ DL M) (ofModule A₂ DL M) S h₁ h₂ s₁ s₂ same) :
    (ofModule A₁ DL M).exactSize S s₁ = (ofModule A₂ DL M).exactSize S s₂ := by
  unfold Env.exactSize
  congr 2
  exact List.map_congr_left fun f hf => hv.exactFieldSize wf hf

theorem bytesOf_encodeI64 (n : I64) :
    (ofModule A₁ DL M).bytesOf ((ofModule A₁ DL M).encodeI64 n) =
      (ofModule A₂ DL M).bytesOf ((ofModule A₂ DL M).encodeI64 n) := by
  unfold bytesOf encodeI64 encodeInt
  rw [map_toByte_byte, map_toByte_byte]
  rfl

/-- The elements of a valid struct's array. -/
theorem Valid.length_elementsAt {E : Env} {h : Heap} {blk : Block} (hv : E.Valid S h blk)
    {f : Field} (hf : f ∈ S.fields) (hr : f.isRepeated = true) :
    (E.elementsAt S h blk f).length = E.exactFieldSize S blk f := by
  apply Heap.length_bytesAt
  rcases hv.arrays f hf hr with ⟨-, hc⟩ | hread
  · left
    simp [Env.exactFieldSize, hr, hc]
  · exact Or.inr hread

/-- An element without spare bits has no padding after it. -/
theorem storeSize_of_bits {t : Ty} (hbits : DL.getTypeSizeInBits t = 8 * DL.allocSize t) :
    DL.storeSize t = DL.allocSize t := by
  unfold DataLayout.storeSize
  omega

/-- Without spare bits and pointers equal elements are equal bytes. -/
theorem SameValue.elements (wf : S.WellFormed) (hd : Dense DL S)
    (hv : SameValue (ofModule A₁ DL M) (ofModule A₂ DL M) S h₁ h₂ s₁ s₂ same) {f : Field}
    (hf : f ∈ S.fields) (hr : f.isRepeated = true) :
    (ofModule A₁ DL M).bytesOf ((ofModule A₁ DL M).elementsAt S h₁ s₁ f) =
      (ofModule A₂ DL M).bytesOf ((ofModule A₂ DL M).elementsAt S h₂ s₂ f) := by
  obtain ⟨hp, hbits⟩ := hd.element f hf hr
  have hs := storeSize_of_bits hbits
  have hl₁ := hv.valid₁.length_elementsAt hf hr
  have hl₂ := hv.valid₂.length_elementsAt hf hr
  rw [← hv.exactFieldSize wf hf] at hl₂
  set n := ((ofModule A₁ DL M).countAt S s₁ (S.countOf f)).toNat with hn
  have hsize : (ofModule A₁ DL M).exactFieldSize S s₁ f = n * DL.allocSize f.elem := by
    rw [Env.exactFieldSize, if_pos hr, Nat.mul_comm]
    rfl
  have hwin : slice ((ofModule A₁ DL M).bytesOf ((ofModule A₁ DL M).elementsAt S h₁ s₁ f)) 0
      (n * DL.allocSize f.elem) =
      slice ((ofModule A₂ DL M).bytesOf ((ofModule A₂ DL M).elementsAt S h₂ s₂ f)) 0
        (n * DL.allocSize f.elem) :=
    slice_eq_of_windows n (fun k hk => by
      have hsame := hv.array f hf hr k hk
      rw [SameElement, if_neg (by rw [hp]; decide)] at hsame
      have hle : k * DL.allocSize f.elem + DL.allocSize f.elem ≤ n * DL.allocSize f.elem := by
        rw [← Nat.succ_mul]
        exact Nat.mul_le_mul_right _ hk
      rw [← hsize] at hle
      unfold bytesOf
      rw [slice_map, slice_map]
      unfold elementAt at hsame
      rw [show (ofModule A₁ DL M).layout = DL from rfl, hs] at hsame
      rw [show (ofModule A₂ DL M).layout = DL from rfl, hs] at hsame
      refine bytesOf_of_decode hp hbits (length_slice ?_) (length_slice ?_) hsame
      · rwa [hl₁]
      · rwa [hl₂])
  rw [← hsize] at hwin
  have hb₁ := slice_self ((ofModule A₁ DL M).bytesOf ((ofModule A₁ DL M).elementsAt S h₁ s₁ f))
  have hb₂ := slice_self ((ofModule A₂ DL M).bytesOf ((ofModule A₂ DL M).elementsAt S h₂ s₂ f))
  rw [bytesOf, List.length_map, hl₁] at hb₁
  rw [bytesOf, List.length_map, hl₂] at hb₂
  exact hb₁.symm.trans (hwin.trans hb₂)

theorem SameValue.wireBytes (wf : S.WellFormed) (hd : Dense DL S)
    (hs : ∀ f ∈ S.fields, f.isStruct = false)
    (hv : SameValue (ofModule A₁ DL M) (ofModule A₂ DL M) S h₁ h₂ s₁ s₂ same)
    (hsize₁ : (ofModule A₁ DL M).exactSize S s₁ < 2 ^ 64)
    (hsize₂ : (ofModule A₂ DL M).exactSize S s₂ < 2 ^ 64) {f : Field} (hf : f ∈ S.fields) :
    (ofModule A₁ DL M).bytesOf ((ofModule A₁ DL M).wireBytes S h₁ s₁ f) =
      (ofModule A₂ DL M).bytesOf ((ofModule A₂ DL M).wireBytes S h₂ s₂ f) := by
  unfold Env.wireBytes
  cases hr : f.isRepeated with
  | true =>
    rw [if_pos rfl, if_pos rfl, arrayBytes_eq hsize₁ hf, arrayBytes_eq hsize₂ hf,
      hv.count (wf.countOf_mem hf hr) (wf.countOf_type hf hr)]
    unfold bytesOf
    rw [List.map_append, List.map_append]
    exact congrArg₂ _ (bytesOf_encodeI64 _) (hv.elements wf hd hf hr)
  | false =>
    rw [if_neg (by decide), if_neg (by decide),
      hv.scalar f hf (not_pointer wf hf (hs f hf) hr)]
    exact bytesOf_encode_int f.type _

/-- The buffers of equal values are equal. -/
theorem determined_of_dense {earlier : List Struct} (hLE : DL.bigEndian = false)
    (wf : S.WellFormed) (hfun : ∀ A, Resolves (ofModule A DL M) S)
    (hs : ∀ f ∈ S.fields, f.isStruct = false) (hd : Dense DL S) :
    Determined DL M S earlier := by
  intro A₁ A₂ hA₁ hA₂ h₁ h₂ b₁ b₂ s₁ s₂ hl₁ hl₂ hsize₁ hsize₂ hv
  refine ⟨_, _, getSerializer_ok (E := ofModule A₁ DL M) hLE wf (hfun A₁) hs hl₁ hv.valid₁ hsize₁
      (hA₁ _ _),
    getSerializer_ok (E := ofModule A₂ DL M) hLE wf (hfun A₂) hs hl₂ hv.valid₂ hsize₂
      (hA₂ _ _), ?_⟩
  have heq₁ := serializedSize_eq hsize₁
  have heq₂ := serializedSize_eq hsize₂
  rw [serialized_cells wf hv.valid₁.holds (hv.valid₁.readable hsize₁) (by rwa [heq₁]) hd,
    serialized_cells wf hv.valid₂.holds (hv.valid₂.readable hsize₂) (by rwa [heq₂]) hd, heq₁,
    heq₂, hv.exactSize wf]
  unfold bytesOf
  rw [List.map_append, List.map_append]
  refine congrArg₂ _ (bytesOf_encodeI64 _) ?_
  rw [List.map_flatMap, List.map_flatMap]
  refine List.flatMap_congr fun f hf => ?_
  cases hc : f.isCount with
  | true => rfl
  | false => exact hv.wireBytes wf hd hs hsize₁ hsize₂ hf

end Dense

/-! ## Objects of zero bytes -/

/-- `n` zero bytes. -/
def zeros (n : Nat) (hn : n < 2 ^ 64) : Block := ⟨List.replicate n (.byte 0), by simpa using hn⟩

theorem encodeInt_zero (be : Bool) (k : Nat) : encodeInt be k 0 = List.replicate k (.byte 0) := by
  rw [encodeInt, toLE_zero]
  cases be <;> simp [inOrder]

theorem slice_replicate {α : Type} {n o k : Nat} (x : α) (h : o + k ≤ n) :
    slice (List.replicate n x) o k = List.replicate k x := by
  rw [slice, List.drop_replicate, List.take_replicate, Nat.min_eq_left (by omega)]

section Zeros

variable {n : Nat} {hn : n < 2 ^ 64} {f : Field}

theorem holds_zeros (h : E.layout.structSize S.packed S.elements ≤ n) :
    E.Holds S (zeros n hn) := by
  show _ ≤ (List.replicate n (Cell.byte 0)).length
  rwa [List.length_replicate]

theorem slot_zeros (wf : S.WellFormed) (hb : E.Holds S (zeros n hn)) (hf : f ∈ S.fields) :
    E.slot S (zeros n hn) f = List.replicate (E.layout.storeSize f.type) (.byte 0) := by
  have hle := fieldOffset_lt wf hb hf
  exact slice_replicate _ (by simpa [zeros] using hle)

theorem ptrAt_zeros (wf : S.WellFormed) (hb : E.Holds S (zeros n hn)) (hf : f ∈ S.fields)
    {t : Ty} (ht : f.type = .ptr t) : E.ptrAt S (zeros n hn) f = .null := by
  have hnull : E.encode (.ptr t) (.ptr .null) =
      List.replicate (E.layout.storeSize (.ptr t)) (.byte 0) := by
    rw [DataLayout.storeSize_ptr]
    rfl
  rw [ptrAt, slot_zeros wf hb hf, ht, ← hnull, decode_encode_null]
  rfl

theorem countAt_zeros (wf : S.WellFormed) (hb : E.Holds S (zeros n hn)) (hf : f ∈ S.fields)
    (ht : f.type = .int 64) : E.countAt S (zeros n hn) f = 0 := by
  have hzero : E.encodeI64 0 = List.replicate 8 (.byte 0) := encodeInt_zero _ 8
  rw [countAt, slot_zeros wf hb hf, ht, DataLayout.storeSize_i64, ← hzero, decodeI64_encodeI64]

theorem valid_zeros (wf : S.WellFormed) (hb : E.Holds S (zeros n hn)) (h : Heap) :
    E.Valid S h (zeros n hn) where
  holds := hb
  arrays _ hf hr := .inl ⟨ptrAt_zeros wf hb hf (wf.array_spec hf hr).1,
    countAt_zeros wf hb (wf.countOf_mem hf hr) (wf.countOf_type hf hr)⟩

end Zeros

/-- With at most one element in each array a small struct is serialized. -/
theorem exactSize_lt (hsmall : S.Small E.layout)
    (hone : ∀ f ∈ S.fields, f.isRepeated = true → (E.countAt S blk (S.countOf f)).toNat ≤ 1) :
    E.exactSize S blk < 2 ^ 64 := by
  refine Nat.lt_of_le_of_lt (Nat.add_le_add_left (List.sum_le_sum fun f hf => ?_) 8) hsmall.wire
  unfold exactFieldSize
  cases hr : f.isRepeated with
  | true =>
    rw [if_pos rfl, if_pos rfl]
    have hle := Nat.mul_le_mul_left (E.layout.allocSize f.elem) (hone f hf hr)
    rwa [Nat.mul_one] at hle
  | false => exact Nat.le_refl _

section Witnesses

variable {DL : DataLayout} {M : List Struct} {h₁ h₂ : Heap}

/-- The allocator that never fails and fills memory with `c`. -/
def filling (c : Byte) : Allocator := { Allocator.calloc with fill := fun _ _ => c }

/-- Objects of zero bytes have the same value. -/
theorem sameValue_zeros {c₁ c₂ : Byte} {n : Nat} (hn : n < 2 ^ 64) (wf : S.WellFormed)
    (hb : DL.structSize S.packed S.elements ≤ n) {same : Ty → Ptr → Ptr → Prop}
    (hsame : ∀ f ∈ S.fields, f.isStruct = true → same f.type .null .null) :
    SameValue (ofModule (filling c₁) DL M) (ofModule (filling c₂) DL M) S h₁ h₂ (zeros n hn)
      (zeros n hn) same := by
  have hb₁ : ∀ c, (ofModule (filling c) DL M).Holds S (zeros n hn) := fun c => holds_zeros hb
  refine ⟨valid_zeros wf (hb₁ c₁) h₁, valid_zeros wf (hb₁ c₂) h₂, fun _ _ _ => rfl, ?_, ?_⟩
  · intro f hf hs
    obtain ⟨-, -, t, ht⟩ := struct_spec wf hf hs
    rw [ptrAt_zeros wf (hb₁ c₁) hf ht, ptrAt_zeros wf (hb₁ c₂) hf ht]
    exact hsame f hf hs
  · intro f hf hr k hk
    rw [countAt_zeros wf (hb₁ c₁) (wf.countOf_mem hf hr) (wf.countOf_type hf hr)] at hk
    exact absurd hk (Nat.not_lt_zero k)

theorem samePointee_null {E₁ E₂ : Env} {t : Ty} :
    ∀ {earlier : List Struct}, (∃ T ∈ earlier, pointeeName t = some T.name) →
      SamePointee E₁ E₂ h₁ h₂ earlier t .null .null
  | [], h => by
    obtain ⟨T, hT, -⟩ := h
    cases hT
  | T :: earlier, h => by
    unfold SamePointee
    split
    · exact .inl ⟨rfl, rfl⟩
    · next hne =>
      obtain ⟨T', hT', hname⟩ := h
      rcases List.mem_cons.mp hT' with rfl | hT'
      · exact absurd hname hne
      · exact samePointee_null ⟨T', hT', hname⟩

/-- Some size of zero bytes is an object of the struct that `t` points at. -/
theorem exists_samePointee {c : Byte} {t : Ty} :
    ∀ {earlier : List Struct}, (∃ T ∈ earlier, pointeeName t = some T.name) → Declared earlier →
      (∀ T ∈ earlier, T.WellFormed) → (∀ T ∈ earlier, T.Small DL) →
      ∃ n, ∃ hn : n < 2 ^ 64, ∀ (h₁ h₂ : Heap) (b₁ b₂ : Nat),
        h₁.block? b₁ = some (zeros n hn) → h₂.block? b₂ = some (zeros n hn) →
        SamePointee (ofModule (filling c) DL M) (ofModule (filling c) DL M) h₁ h₂ earlier t
          (.base b₁) (.base b₂)
  | [], h, _, _, _ => by
    obtain ⟨T, hT, -⟩ := h
    cases hT
  | T :: earlier, h, hd, wf, hsmall => by
    by_cases hname : pointeeName t = some T.name
    · refine ⟨_, (hsmall T List.mem_cons_self).object, fun h₁ h₂ b₁ b₂ hl₁ hl₂ => ?_⟩
      rw [SamePointee, if_pos hname]
      refine .inr ⟨b₁, b₂, _, _, rfl, rfl, hl₁, hl₂, sameValue_zeros _ (wf T List.mem_cons_self)
        (Nat.le_refl _) fun f hf hs => ?_⟩
      exact samePointee_null (hd.1 f hf hs)
    · obtain ⟨T', hT', hname'⟩ := h
      have hT' : T' ∈ earlier := by
        rcases List.mem_cons.mp hT' with rfl | hT'
        · exact absurd hname' hname
        · exact hT'
      obtain ⟨n, hn, hsame⟩ := exists_samePointee (c := c) ⟨T', hT', hname'⟩ hd.2.2
        (fun T hT => wf T (List.mem_cons_of_mem _ hT))
        (fun T hT => hsmall T (List.mem_cons_of_mem _ hT))
      refine ⟨n, hn, fun h₁ h₂ b₁ b₂ hl₁ hl₂ => ?_⟩
      rw [SamePointee, if_neg hname]
      exact hsame h₁ h₂ b₁ b₂ hl₁ hl₂

/-- An object of zero bytes whose array `f` has one element, in block 1. -/
def oneElement (E : Env) (S : Struct) (f : Field) (Z : Block) : Block :=
  E.putPtr S (E.putCount S Z f 1) f 1

/-- It, its element and other blocks. -/
def oneElementHeap (E : Env) (S : Struct) (f : Field) (Z arr : Block) (rest : List (Option Block)) :
    Heap := ⟨some (oneElement E S f Z) :: some arr :: rest, 0⟩

section OneElement

variable {n : Nat} {hn : n < 2 ^ 64} {f g : Field} {arr : Block} {rest : List (Option Block)}
  (wf : S.WellFormed) (hb : E.Holds S (zeros n hn)) (hf : f ∈ S.fields)
  (hr : f.isRepeated = true)
include wf hb hf hr

theorem ptrAt_oneElement : E.ptrAt S (oneElement E S f (zeros n hn)) f = .base 1 :=
  ptrAt_putPtr wf hf hr (holds_putCount hb 1) 1

theorem countAt_oneElement : E.countAt S (oneElement E S f (zeros n hn)) (S.countOf f) = 1 := by
  rw [oneElement, countAt_putPtr wf hf hr (holds_putCount hb 1) 1, countAt_putCount wf hf hr hb]

theorem ptrAt_oneElement_ne (hg : g ∈ S.fields) (hgr : g.isRepeated = true) (hne : g ≠ f) :
    E.ptrAt S (oneElement E S f (zeros n hn)) g = .null := by
  rw [ptrAt, oneElement, slot_putPtr_ne wf hf hr (holds_putCount hb 1) 1 hg hne,
    slot_putCount_ne wf hf hr hb 1 hg (wf.countOf_ne_array hf hg hr hgr).symm]
  exact ptrAt_zeros wf hb hg (wf.array_spec hg hgr).1

theorem countAt_oneElement_ne (hg : g ∈ S.fields) (hgr : g.isRepeated = true) (hne : g ≠ f) :
    E.countAt S (oneElement E S f (zeros n hn)) (S.countOf g) = 0 := by
  have hgm := wf.countOf_mem hg hgr
  rw [countAt, oneElement, slot_putPtr_ne wf hf hr (holds_putCount hb 1) 1 hgm
      (wf.countOf_ne_array hg hf hgr hr),
    slot_putCount_ne wf hf hr hb 1 hgm fun he => hne (wf.countOf_inj hg hf hgr hr he)]
  exact countAt_zeros wf hb hgm (wf.countOf_type hg hgr)

theorem countAt_oneElement_le (hg : g ∈ S.fields) (hgr : g.isRepeated = true) :
    (E.countAt S (oneElement E S f (zeros n hn)) (S.countOf g)).toNat ≤ 1 := by
  by_cases hne : g = f
  · rw [hne, countAt_oneElement wf hb hf hr]
    decide
  · rw [countAt_oneElement_ne wf hb hf hr hg hgr hne]
    decide

theorem read_oneElement (hlen : arr.cells.length = E.layout.allocSize f.elem) :
    (oneElementHeap E S f (zeros n hn) arr rest).read
      (E.ptrAt S (oneElement E S f (zeros n hn)) f)
      (E.exactFieldSize S (oneElement E S f (zeros n hn)) f) = some arr.cells := by
  have hone : (1 : I64).toNat = 1 := rfl
  have hblk : (oneElementHeap E S f (zeros n hn) arr rest).block? 1 = some arr := rfl
  have hz : (0 : I64).toNat = 0 := rfl
  rw [ptrAt_oneElement wf hb hf hr, exactFieldSize, if_pos hr, countAt_oneElement wf hb hf hr,
    hone, Nat.mul_one, ← hlen, Heap.read_loc hblk (by rw [hz, Nat.zero_add]), hz, slice_self]

theorem valid_oneElement (hlen : arr.cells.length = E.layout.allocSize f.elem) :
    E.Valid S (oneElementHeap E S f (zeros n hn) arr rest) (oneElement E S f (zeros n hn)) where
  holds := holds_putPtr (holds_putCount hb 1) 1
  arrays g hg hgr := by
    by_cases hne : g = f
    · subst hne
      right
      rw [read_oneElement wf hb hf hr hlen]
      rfl
    · exact .inl ⟨ptrAt_oneElement_ne wf hb hf hr hg hgr hne,
        countAt_oneElement_ne wf hb hf hr hg hgr hne⟩

theorem elementsAt_oneElement (hlen : arr.cells.length = E.layout.allocSize f.elem) :
    E.elementsAt S (oneElementHeap E S f (zeros n hn) arr rest) (oneElement E S f (zeros n hn)) f =
      arr.cells := by
  rw [elementsAt, Heap.bytesAt, read_oneElement wf hb hf hr hlen]
  rfl

/-- Two such objects have the same value when their elements do. -/
theorem sameValue_oneElement (hs : ∀ f ∈ S.fields, f.isStruct = false) {arr₁ arr₂ : Block}
    {rest₁ rest₂ : List (Option Block)} {same : Ty → Ptr → Ptr → Prop}
    (hlen₁ : arr₁.cells.length = E.layout.allocSize f.elem)
    (hlen₂ : arr₂.cells.length = E.layout.allocSize f.elem)
    (hel : SameElement E E same f.elem (slice arr₁.cells 0 (E.layout.storeSize f.elem))
      (slice arr₂.cells 0 (E.layout.storeSize f.elem))) :
    SameValue E E S (oneElementHeap E S f (zeros n hn) arr₁ rest₁)
      (oneElementHeap E S f (zeros n hn) arr₂ rest₂) (oneElement E S f (zeros n hn))
      (oneElement E S f (zeros n hn)) same where
  valid₁ := valid_oneElement wf hb hf hr hlen₁
  valid₂ := valid_oneElement wf hb hf hr hlen₂
  scalar _ _ _ := rfl
  struct g hg hgs := by
    rw [hs g hg] at hgs
    cases hgs
  array g hg hgr k hk := by
    have hle := countAt_oneElement_le wf hb hf hr hg hgr
    obtain rfl : k = 0 := by omega
    by_cases hne : g = f
    · subst hne
      rw [elementAt, elementAt, elementsAt_oneElement wf hb hf hr hlen₁,
        elementsAt_oneElement wf hb hf hr hlen₂, Nat.zero_mul]
      exact hel
    · rw [countAt_oneElement_ne wf hb hf hr hg hgr hne] at hk
      exact absurd hk (Nat.not_lt_zero 0)

end OneElement

end Witnesses

end Env

/-! ## What determined bytes imply -/

section Necessary

variable {S : Struct} {DL : DataLayout} {M earlier : List Struct} (hD : Determined DL M S earlier)
  (hLE : DL.bigEndian = false) (wf : S.WellFormed) (hfun : ∀ A, Resolves (ofModule A DL M) S)
  (hs : ∀ f ∈ S.fields, f.isStruct = false)
include hD hLE wf hfun hs

/-- The buffers of equal values. -/
theorem Determined.serialized {A₁ A₂ : Allocator} (hA₁ : ∀ t n, A₁.succeeds t n = true)
    (hA₂ : ∀ t n, A₂.succeeds t n = true) {h₁ h₂ : Heap} {b₁ b₂ : Nat} {s₁ s₂ : Block}
    (hl₁ : h₁.block? b₁ = some s₁) (hl₂ : h₂.block? b₂ = some s₂)
    (hsize₁ : (ofModule A₁ DL M).exactSize S s₁ < 2 ^ 64)
    (hsize₂ : (ofModule A₂ DL M).exactSize S s₂ < 2 ^ 64)
    (hv : SameValue (ofModule A₁ DL M) (ofModule A₂ DL M) S h₁ h₂ s₁ s₂
      (SamePointee (ofModule A₁ DL M) (ofModule A₂ DL M) h₁ h₂ earlier)) :
    (ofModule A₁ DL M).bytesOf ((ofModule A₁ DL M).serialized S h₁ s₁).cells =
      (ofModule A₂ DL M).bytesOf ((ofModule A₂ DL M).serialized S h₂ s₂).cells := by
  obtain ⟨buf₁, buf₂, hrun₁, hrun₂, heq⟩ :=
    hD A₁ A₂ hA₁ hA₂ h₁ h₂ b₁ b₂ s₁ s₂ hl₁ hl₂ hsize₁ hsize₂ hv
  rw [getSerializer_ok (E := ofModule A₁ DL M) hLE wf (hfun A₁) hs hl₁ hv.valid₁ hsize₁
    (hA₁ _ _)] at hrun₁
  rw [getSerializer_ok (E := ofModule A₂ DL M) hLE wf (hfun A₂) hs hl₂ hv.valid₂ hsize₂
    (hA₂ _ _)] at hrun₂
  rw [Heap.push_inj (congrArg Prod.snd (Except.ok.inj hrun₁)),
    Heap.push_inj (congrArg Prod.snd (Except.ok.inj hrun₂))]
  exact heq

/-- Equal elements are equal bytes. -/
theorem Determined.elements {A₁ A₂ : Allocator} (hA₁ : ∀ t n, A₁.succeeds t n = true)
    (hA₂ : ∀ t n, A₂.succeeds t n = true) {h₁ h₂ : Heap} {b₁ b₂ : Nat} {s₁ s₂ : Block}
    (hl₁ : h₁.block? b₁ = some s₁) (hl₂ : h₂.block? b₂ = some s₂)
    (hsize₁ : (ofModule A₁ DL M).exactSize S s₁ < 2 ^ 64)
    (hsize₂ : (ofModule A₂ DL M).exactSize S s₂ < 2 ^ 64)
    (hv : SameValue (ofModule A₁ DL M) (ofModule A₂ DL M) S h₁ h₂ s₁ s₂
      (SamePointee (ofModule A₁ DL M) (ofModule A₂ DL M) h₁ h₂ earlier))
    {f : Field} (hf : f ∈ S.fields) (hr : f.isRepeated = true) :
    (ofModule A₁ DL M).bytesOf ((ofModule A₁ DL M).elementsAt S h₁ s₁ f) =
      (ofModule A₂ DL M).bytesOf ((ofModule A₂ DL M).elementsAt S h₂ s₂ f) := by
  have hbytes := hD.serialized hLE wf hfun hs hA₁ hA₂ hl₁ hl₂ hsize₁ hsize₂ hv
  have hc := (wf.array_spec hf hr).2.2.2.1
  obtain ⟨pre, post, hsplit⟩ := List.append_of_mem hf
  have hwired₁ := wired_serialized wf hv.valid₁.holds (hv.valid₁.readable hsize₁)
    (by rwa [serializedSize_eq hsize₁])
  have hwired₂ := wired_serialized wf hv.valid₂.holds (hv.valid₂.readable hsize₂)
    (by rwa [serializedSize_eq hsize₂])
  rw [hsplit] at hwired₁ hwired₂
  -- the field's window is at the same place in both buffers
  have hoff : (ofModule A₁ DL M).sumWire S s₁ pre = (ofModule A₂ DL M).sumWire S s₂ pre := by
    unfold sumWire wireNat
    congr 1
    apply List.map_congr_left
    intro g hg
    have hgm : g ∈ S.fields := hsplit ▸ List.mem_append_left _ hg
    rw [fieldSizeAt_toNat hsize₁ hgm, fieldSizeAt_toNat hsize₂ hgm, hv.exactFieldSize wf hgm]
  have hlen : ((ofModule A₁ DL M).wireBytes S h₁ s₁ f).length =
      ((ofModule A₂ DL M).wireBytes S h₂ s₂ f).length := by
    rw [length_wireBytes (hv.valid₁.readable hsize₁) hf,
      length_wireBytes (hv.valid₂.readable hsize₂) hf, if_pos hr, if_pos hr,
      fieldSizeAt_toNat hsize₁ hf, fieldSizeAt_toNat hsize₂ hf, hv.exactFieldSize wf hf]
  have hwire : (ofModule A₁ DL M).bytesOf ((ofModule A₁ DL M).wireBytes S h₁ s₁ f) =
      (ofModule A₂ DL M).bytesOf ((ofModule A₂ DL M).wireBytes S h₂ s₂ f) := by
    have h := congrArg (slice · (8 + (ofModule A₁ DL M).sumWire S s₁ pre)
      ((ofModule A₁ DL M).wireBytes S h₁ s₁ f).length) hbytes
    unfold bytesOf at h
    rw [slice_map, slice_map, hwired₁.window hc, hoff, hlen, hwired₂.window hc] at h
    exact h
  unfold Env.wireBytes bytesOf at hwire
  rw [if_pos hr, if_pos hr, List.map_append, List.map_append, arrayBytes_eq hsize₁ hf,
    arrayBytes_eq hsize₂ hf] at hwire
  exact (List.append_inj hwire (by simp)).2

omit hD hLE hfun hs in
/-- The byte after a padded field is the one `malloc` left there. -/
theorem gap_serialized (hsmall : S.Small DL) {f : Field} {pre post : List Field}
    (hsplit : S.fields = pre ++ f :: post) (hc : f.isCount = false) (hr : f.isRepeated = false)
    (hgap : DL.storeSize f.type < DL.allocSize f.type) (h : Heap) (c : Byte) :
    slice ((ofModule (filling c) DL M).serialized S h (zeros _ hsmall.object)).cells
      (8 + (ofModule (filling c) DL M).sumWire S (zeros _ hsmall.object) pre +
        DL.storeSize f.type) 1 = [.byte c] := by
  set E := ofModule (filling c) DL M with hE
  set Z := zeros _ hsmall.object with hZ
  have h8 : (8 : I64).toNat = 8 := rfl
  have hb : E.Holds S Z := holds_zeros (Nat.le_refl _)
  have hcount : ∀ g ∈ S.fields, g.isRepeated = true → E.countAt S Z (S.countOf g) = 0 :=
    fun g hg hgr => countAt_zeros wf hb (wf.countOf_mem hg hgr) (wf.countOf_type hg hgr)
  have hsize : E.exactSize S Z < 2 ^ 64 :=
    exactSize_lt (E := E) hsmall fun g hg hgr => by rw [hcount g hg hgr]; decide
  have hread : E.ArraysReadable S h Z := (valid_zeros wf hb h).readable hsize
  set size : I64 := BitVec.ofNat 64 (E.serializedSize S Z) with hsz
  have hto : size.toNat = 8 + E.sumWire S Z S.fields := by
    rw [hsz, BitVec.toNat_ofNat, sum_wireSize wf]
    exact Nat.mod_eq_of_lt (by rwa [serializedSize_eq hsize])
  have hfit : E.sumWire S Z S.fields =
      E.sumWire S Z pre + (DL.allocSize f.type + E.sumWire S Z post) := by
    have hf : f ∈ S.fields := hsplit ▸ List.mem_append_right pre List.mem_cons_self
    have hw : E.wireNat S Z f = DL.allocSize f.type := by
      rw [wireNat, Field.onWire, hc, hr]
      exact toNat_allocSize wf hb hf hr
    rw [hsplit, sumWire, List.map_append, List.sum_append, List.map_cons, List.sum_cons, hw]
    rfl
  have hnew : (E.alloc.fresh h.calls size).cells = List.replicate size.toNat (.byte c) := by
    show (List.range size.toNat).map (fun _ => Cell.byte c) = _
    rw [List.map_const', List.length_range]
  have hhead : 0 + (E.encodeI64 size).length ≤ (E.alloc.fresh h.calls size).cells.length := by
    rw [length_encodeI64, Allocator.length_fresh, hto]
    omega
  have hemit := slice_emit_gap wf hb hread hc hr hgap pre 8
    ((E.alloc.fresh h.calls size).overwrite 0 (E.encodeI64 size)) 
    (fun g hg => hsplit ▸ hg) (by
      rw [← hsplit, Block.length_overwrite, Allocator.length_fresh, hto, h8])
  rw [h8, ← hsplit] at hemit
  refine hemit.trans ?_
  rw [Block.overwrite_cells hhead, slice_splice_disjoint hhead (Or.inr (by
    rw [length_encodeI64]; omega)), hnew]
  exact slice_replicate _ (by
    show 8 + E.sumWire S Z pre + DL.storeSize f.type + 1 ≤ _
    omega)

/-- A field with padding after it would show what `malloc` returned. -/
theorem Determined.field (hsmall : S.Small DL) {f : Field} (hf : f ∈ S.fields)
    (hr : f.isRepeated = false) : DL.storeSize f.type = DL.allocSize f.type := by
  cases hc : f.isCount with
  | true => rw [(wf.count_spec hf hc).1, DataLayout.storeSize_i64, DataLayout.allocSize_i64]
  | false =>
    by_contra hne
    have hgap := Nat.lt_of_le_of_ne (DL.storeSize_le_allocSize f.type) hne
    obtain ⟨pre, post, hsplit⟩ := List.append_of_mem hf
    set Z := zeros _ hsmall.object with hZ
    let h : Heap := ⟨[some Z], 0⟩
    have hv : SameValue (ofModule (filling 0) DL M) (ofModule (filling 1) DL M) S h h Z Z
        (SamePointee (ofModule (filling 0) DL M) (ofModule (filling 1) DL M) h h earlier) :=
      sameValue_zeros _ wf (Nat.le_refl _) fun g hg hgs => by rw [hs g hg] at hgs; cases hgs
    have hsize : ∀ c, (ofModule (filling c) DL M).exactSize S Z < 2 ^ 64 := by
      intro c
      refine exactSize_lt (E := ofModule (filling c) DL M) hsmall fun g hg hgr => ?_
      have hb : (ofModule (filling c) DL M).Holds S Z := holds_zeros (Nat.le_refl _)
      rw [countAt_zeros wf hb (wf.countOf_mem hg hgr) (wf.countOf_type hg hgr)]
      decide
    have hblock : h.block? 0 = some Z := rfl
    have hbytes := hD.serialized hLE wf hfun hs (fun _ _ => rfl) (fun _ _ => rfl) hblock hblock
      (hsize 0) (hsize 1) hv
    have hslice := congrArg (slice · (8 + (ofModule (filling 0) DL M).sumWire S Z pre +
      DL.storeSize f.type) 1) hbytes
    unfold bytesOf at hslice
    have h0 := gap_serialized (M := M) wf hsmall hsplit hc hr hgap h 0
    have h1 := gap_serialized (M := M) wf hsmall hsplit hc hr hgap h 1
    have hoff : (ofModule (filling 1) DL M).sumWire S Z pre =
        (ofModule (filling 0) DL M).sumWire S Z pre := rfl
    rw [← hZ, hoff] at h1
    rw [slice_map, slice_map, h0, h1] at hslice
    have h01 : ([0] : List Byte) = [1] := hslice
    exact absurd h01 (by decide)

/-- Elements with one value are equal bytes. -/
theorem Determined.oneElement (hsmall : S.Small DL) {f : Field} (hf : f ∈ S.fields)
    (hr : f.isRepeated = true) {arr₁ arr₂ : Block} (rest₁ rest₂ : List (Option Block))
    (hlen₁ : arr₁.cells.length = DL.allocSize f.elem)
    (hlen₂ : arr₂.cells.length = DL.allocSize f.elem)
    (hel : let E := ofModule (filling 0) DL M
      let Z := zeros _ hsmall.object
      SameElement E E (SamePointee E E (oneElementHeap E S f Z arr₁ rest₁)
        (oneElementHeap E S f Z arr₂ rest₂) earlier) f.elem
        (slice arr₁.cells 0 (DL.storeSize f.elem)) (slice arr₂.cells 0 (DL.storeSize f.elem))) :
    (ofModule (filling 0) DL M).bytesOf arr₁.cells =
      (ofModule (filling 0) DL M).bytesOf arr₂.cells := by
  set E := ofModule (filling 0) DL M with hE
  have hb : E.Holds S (zeros _ hsmall.object) := holds_zeros (Nat.le_refl _)
  have hsize : E.exactSize S (Env.oneElement E S f (zeros _ hsmall.object)) < 2 ^ 64 :=
    exactSize_lt (E := E) hsmall fun g hg hgr => countAt_oneElement_le wf hb hf hr hg hgr
  have hblock : ∀ arr rest, (oneElementHeap E S f (zeros _ hsmall.object) arr rest).block? 0 =
      some (Env.oneElement E S f (zeros _ hsmall.object)) := fun _ _ => rfl
  have h := hD.elements hLE wf hfun hs (fun _ _ => rfl) (fun _ _ => rfl) (hblock arr₁ rest₁)
    (hblock arr₂ rest₂) hsize hsize
    (sameValue_oneElement (E := E) wf hb hf hr hs hlen₁ hlen₂ hel) hf hr
  rwa [← hE, elementsAt_oneElement wf hb hf hr hlen₁, elementsAt_oneElement wf hb hf hr hlen₂] at h

omit hD hLE wf hfun hs in
theorem Struct.Small.element (hsmall : S.Small DL) {f : Field} (hf : f ∈ S.fields)
    (hr : f.isRepeated = true) : DL.allocSize f.elem < 2 ^ 64 := by
  have hle := List.le_sum_of_mem (List.mem_map_of_mem
    (f := fun f : Field => if f.isRepeated then DL.allocSize f.elem else DL.allocSize f.type) hf)
  have hlt := hsmall.wire
  rw [if_pos hr] at hle
  omega

/-- Padded elements would show what is in the padding. -/
theorem Determined.storeSize_element (hsmall : S.Small DL) {f : Field} (hf : f ∈ S.fields)
    (hr : f.isRepeated = true) (hp : f.elem.isPointerTy = false) :
    DL.storeSize f.elem = DL.allocSize f.elem := by
  by_contra hne
  have hle := DL.storeSize_le_allocSize f.elem
  set E := ofModule (filling 0) DL M with hE
  have hst : (E.encode f.elem (.int 0)).length = DL.storeSize f.elem := length_encode_int E _ 0
  -- a zero with padding bytes `c`
  let cells : Byte → List Cell := fun c => E.encode f.elem (.int 0) ++
    List.replicate (DL.allocSize f.elem - DL.storeSize f.elem) (.byte c)
  have hlen : ∀ c, (cells c).length = DL.allocSize f.elem := by
    intro c
    simp only [cells, List.length_append, hst, List.length_replicate]
    omega
  let arr : Byte → Block := fun c => ⟨cells c, by rw [hlen]; exact hsmall.element hf hr⟩
  have hval : ∀ c, slice (arr c).cells 0 (DL.storeSize f.elem) = E.encode f.elem (.int 0) :=
    fun c => slice_append_left hst
  have harr : ∀ c, (arr c).cells.length = DL.allocSize f.elem := hlen
  have hbytes := hD.oneElement hLE wf hfun hs hsmall hf hr [] [] (harr 0) (harr 1) (by
    intro E' Z
    rw [SameElement, if_neg (by rw [hp]; decide)]
    exact congrArg (fun w => (E.decode f.elem w).asInt) ((hval 0).trans (hval 1).symm))
  unfold bytesOf at hbytes
  simp only [arr, cells, List.map_append, List.map_replicate] at hbytes
  have htail := (List.append_inj hbytes rfl).2
  obtain ⟨k, hk⟩ : ∃ k, DL.allocSize f.elem - DL.storeSize f.elem = k + 1 :=
    ⟨DL.allocSize f.elem - DL.storeSize f.elem - 1, by omega⟩
  rw [hk, List.replicate_succ, List.replicate_succ] at htail
  have h01 : (0 : Byte) = 1 := (List.cons.inj htail).1
  exact absurd h01 (by decide)

/-- Bits that are not the number's would show, too. -/
theorem Determined.element (hsmall : S.Small DL) {f : Field} (hf : f ∈ S.fields)
    (hr : f.isRepeated = true) (hp : f.elem.isPointerTy = false) :
    DL.getTypeSizeInBits f.elem = 8 * DL.allocSize f.elem := by
  have hst := hD.storeSize_element hLE wf hfun hs hsmall hf hr hp
  by_contra hne
  have hlt : DL.getTypeSizeInBits f.elem < 8 * DL.allocSize f.elem := by
    have hdef : DL.storeSize f.elem = (DL.getTypeSizeInBits f.elem + 7) / 8 := rfl
    omega
  set E := ofModule (filling 0) DL M with hE
  have hpow : 2 ^ DL.getTypeSizeInBits f.elem < 256 ^ DL.allocSize f.elem := by
    rw [show (256 : Nat) = 2 ^ 8 from rfl, ← Nat.pow_mul]
    exact Nat.pow_lt_pow_right (by decide) hlt
  -- the lowest number that does not fit the type reads as zero
  let arr : Nat → Block := fun v => ⟨encodeInt DL.bigEndian (DL.allocSize f.elem) v, by
    rw [length_encodeInt]
    exact hsmall.element hf hr⟩
  have hlen : ∀ v, (arr v).cells.length = DL.allocSize f.elem := fun v => length_encodeInt _ _ _
  have hzero : ∀ v, v % 256 ^ DL.allocSize f.elem % 2 ^ DL.getTypeSizeInBits f.elem = 0 →
      (E.decode f.elem (slice (arr v).cells 0 (DL.storeSize f.elem))).asInt = 0 := by
    intro v hv
    have hself := slice_self (arr v).cells
    rw [hlen] at hself
    rw [hst, hself, decode, if_neg (by rw [hp]; decide)]
    show decodeInt E.ptrBytes DL.bigEndian (encodeInt DL.bigEndian _ v) % _ = 0
    rw [decodeInt_encodeInt]
    exact hv
  have hbytes := hD.oneElement hLE wf hfun hs hsmall hf hr [] [] (hlen 0)
    (hlen (2 ^ DL.getTypeSizeInBits f.elem)) (by
      intro E' Z
      rw [SameElement, if_neg (by rw [hp]; decide)]
      refine (hzero 0 ?_).trans (hzero _ ?_).symm
      · rw [Nat.zero_mod, Nat.zero_mod]
      · rw [Nat.mod_eq_of_lt hpow, Nat.mod_self])
  have hvalue := congrArg (fun l => ofLE (inOrder DL.bigEndian l)) hbytes
  simp only [bytesOf, arr, encodeInt, map_toByte_byte, inOrder_inOrder, ofLE_toLE,
    Nat.mod_eq_of_lt hpow, Nat.zero_mod] at hvalue
  exact absurd hvalue (Nat.ne_of_lt (Nat.two_pow_pos _))

/-- Elements that are pointers would show the addresses. -/
theorem Determined.not_pointer (hptr : DL.pointerSize = 8) (hsmall : ∀ T ∈ S :: earlier, T.Small DL)
    (hdecl : Declared (S :: earlier)) (wfe : ∀ T ∈ earlier, T.WellFormed) {f : Field}
    (hf : f ∈ S.fields) (hr : f.isRepeated = true) : f.elem.isPointerTy = false := by
  by_contra hp
  rw [Bool.not_eq_false] at hp
  have hsm := hsmall S List.mem_cons_self
  set E := ofModule (filling 0) DL M with hE
  obtain ⟨n, hn, hsame⟩ := exists_samePointee (M := M) (c := 0)
    (hdecl.2.1 f hf hr hp) hdecl.2.2 wfe
    (fun T hT => hsmall T (List.mem_cons_of_mem S hT))
  obtain ⟨t, ht⟩ := Ty.exists_pointee hp
  have h8 : DL.storeSize f.elem = 8 := by rw [ht, DataLayout.storeSize_ptr, hptr]
  have hle := DL.storeSize_le_allocSize f.elem
  have hst : ∀ b, (E.encode f.elem (.ptr (.base b))).length = 8 := by
    intro b
    show (encodePtr DL.pointerSize (.loc b 0)).length = 8
    rw [length_encodePtr_loc, hptr]
  -- the pointer to block `b`
  let cells : Nat → List Cell := fun b => E.encode f.elem (.ptr (.base b)) ++
    List.replicate (DL.allocSize f.elem - 8) (.byte 0)
  have hlen : ∀ b, (cells b).length = DL.allocSize f.elem := by
    intro b
    simp only [cells, List.length_append, hst, List.length_replicate]
    omega
  let arr : Nat → Block := fun b => ⟨cells b, by rw [hlen]; exact hsm.element hf hr⟩
  have hval : ∀ b, slice (arr b).cells 0 (DL.storeSize f.elem) =
      E.encode f.elem (.ptr (.base b)) := fun b => by
    rw [h8]
    exact slice_append_left (hst b)
  have hdec : ∀ b, (E.decode f.elem (slice (arr b).cells 0 (DL.storeSize f.elem))).asPtr =
      .base b := by
    intro b
    rw [hval b, ht, decode_encode_loc]
    rfl
  -- one element in block 2, its copy in block 3
  have harr : ∀ b, (arr b).cells.length = DL.allocSize f.elem := hlen
  have hbytes := hD.oneElement hLE wf hfun hs hsm hf hr [some (zeros n hn)]
    [some (zeros n hn), some (zeros n hn)] (harr 2) (harr 3) (by
      intro E' Z
      rw [SameElement, if_pos hp, hdec 2, hdec 3]
      exact hsame _ _ 2 3 rfl rfl)
  unfold bytesOf at hbytes
  simp only [arr, cells, List.map_append] at hbytes
  have hhead := (List.append_inj hbytes (by rw [List.length_map, List.length_map, hst, hst])).1
  have hbe : E.ptrBytes 2 0 = [0, 48, 0, 0, 0, 0, 0, 0] ∧
      E.ptrBytes 3 0 = [0, 64, 0, 0, 0, 0, 0, 0] := by
    show inOrder DL.bigEndian (toLE DL.pointerSize (Allocator.calloc.addr 2 + 0).toNat) = _ ∧
      inOrder DL.bigEndian (toLE DL.pointerSize (Allocator.calloc.addr 3 + 0).toNat) = _
    rw [hLE, hptr]
    decide
  have hcell : ∀ b, ((E.encode f.elem (.ptr (.base b))).map (Cell.toByte E.ptrBytes))[1]? =
      some ((E.ptrBytes b 0).getD 1 0) := by
    intro b
    show ((encodePtr DL.pointerSize (.loc b 0)).map (Cell.toByte E.ptrBytes))[1]? = _
    rw [hptr]
    rfl
  have hsecond := (hcell 2).symm.trans ((congrArg (fun l => l[1]?) hhead).trans (hcell 3))
  rw [hbe.1, hbe.2] at hsecond
  exact absurd hsecond (by decide)

end Necessary

/-! ## Main results -/

/-- For every module and every struct `S` of it without direct struct-typed fields: the
    serialized form of `S` is determined by the value exactly when `S` is dense. -/
theorem determined_iff {DL : DataLayout} {later earlier : List Struct} {S : Struct}
    (hLE : DL.bigEndian = false) (hptr : DL.pointerSize = 8)
    (wf : ∀ T ∈ later ++ S :: earlier, T.WellFormed) (hn : DistinctNames (later ++ S :: earlier))
    (hdecl : Declared (S :: earlier)) (hsmall : ∀ T ∈ S :: earlier, T.Small DL)
    (hs : ∀ f ∈ S.fields, f.isStruct = false) :
    Determined DL (later ++ S :: earlier) S earlier ↔ Dense DL S := by
  have hS : S ∈ later ++ S :: earlier := List.mem_append_right later List.mem_cons_self
  have wfS := wf S hS
  have hfun : ∀ A, Resolves (ofModule A DL (later ++ S :: earlier)) S := fun A =>
    resolves_ofModule hn hS
  have hsmS := hsmall S List.mem_cons_self
  constructor
  · intro hD
    refine ⟨fun f hf hr => hD.field hLE wfS hfun hs hsmS hf hr, fun f hf hr => ?_⟩
    have hp := hD.not_pointer hLE wfS hfun hs hptr hsmall hdecl
      (fun T hT => wf T (List.mem_append_right later (List.mem_cons_of_mem S hT))) hf hr
    exact ⟨hp, hD.element hLE wfS hfun hs hsmS hf hr hp⟩
  · exact determined_of_dense hLE wfS hfun hs

/-- `path` is dense. An `int24` has padding after it, an `int11` in an array five spare bits. -/
example : Dense .default pathStruct ∧
    DataLayout.default.storeSize (.int 24) < DataLayout.default.allocSize (.int 24) ∧
    DataLayout.default.getTypeSizeInBits (.int 11) + 5 =
      8 * DataLayout.default.allocSize (.int 11) :=
  ⟨⟨by decide, by decide⟩, by decide, by decide⟩

theorem determined_iff_path :
    Determined .default [pathStruct] pathStruct [] ↔ Dense .default pathStruct :=
  @determined_iff .default [] [] pathStruct rfl rfl
    (List.forall_mem_singleton.mpr pathStruct_isFlat.toWellFormed)
    (by unfold DistinctNames; decide) ⟨by decide, by decide, trivial⟩
    (List.forall_mem_singleton.mpr ⟨by decide, by decide⟩) (by decide)

/-- `struct c { mutable repeated a x }`, where `a` is `innerStruct`. -/
def listStruct : Struct where
  name := "c"
  packed := false
  type := some (.struct 1 "c")
  fields :=
    [{ id := 0, name := "x_count", type := .int 64, isMutable := true, isStruct := false
       isRepeated := false, isCount := true, countField := none, countsFor := some 1
       parentType := some (.struct 1 "c"), offset := 0 },
     { id := 1, name := "x", type := .ptr (.ptr (.struct 0 "a")), isMutable := true
       isStruct := false, isRepeated := true, isCount := false, countField := some 0
       countsFor := none, parentType := some (.struct 1 "c"), offset := 1 }]

/-- A `c` in block 0 with the array in block 1. -/
def listBlock : Block := ⟨encodeInt false 8 1 ++ encodePtr 8 (.base 1), by decide⟩

/-- The array's one element points at the `a` in block 2, or at a copy of it in block 3. -/
def listHeap (b : Nat) : Heap where
  blocks := [some listBlock, some ⟨encodePtr 8 (.base b), by simp [length_encodePtr_loc]⟩,
    some ⟨encodeInt false 1 7, byte_fits⟩, some ⟨encodeInt false 1 7, byte_fits⟩]
  calls := 4

def listBuffer (b : Nat) : Block where
  cells := encodeInt false 8 24 ++ encodeInt false 8 1 ++ encodePtr 8 (.base b)
  fits := by simp [length_encodePtr_loc]

def listEnv : Env := ofModule .calloc .default [listStruct, innerStruct]

theorem listBlock_sameValue :
    SameValue listEnv listEnv listStruct (listHeap 2) (listHeap 3) listBlock listBlock
      (SamePointee listEnv listEnv (listHeap 2) (listHeap 3) [innerStruct]) where
  valid₁ := ⟨by decide, by decide⟩
  valid₂ := ⟨by decide, by decide⟩
  scalar := by decide
  struct f hf hs := by
    simp only [listStruct, List.mem_cons, List.not_mem_nil, or_false] at hf
    rcases hf with rfl | rfl <;> cases hs
  array f hf hr k hk := by
    simp only [listStruct, List.mem_cons, List.not_mem_nil, or_false] at hf
    rcases hf with rfl | rfl
    · cases hr
    · obtain rfl : k = 0 := Nat.lt_one_iff.mp hk
      refine Or.inr ⟨2, 3, _, _, by decide, by decide, rfl, rfl, ?_⟩
      refine ⟨⟨by decide, by decide⟩, ⟨by decide, by decide⟩, by decide, ?_, ?_⟩ <;>
      · intro f hf hs
        obtain rfl := List.mem_singleton.mp hf
        cases hs

/-- The element is serialized as its address: equal values, different bytes. -/
theorem pointers_serialized :
    SameValue listEnv listEnv listStruct (listHeap 2) (listHeap 3) listBlock listBlock
      (SamePointee listEnv listEnv (listHeap 2) (listHeap 3) [innerStruct]) ∧
    listEnv.getSerializer listStruct (.base 0) (listHeap 2) =
      .ok (.base 4, (listHeap 2).push (listBuffer 2)) ∧
    listEnv.getSerializer listStruct (.base 0) (listHeap 3) =
      .ok (.base 4, (listHeap 3).push (listBuffer 3)) ∧
    listEnv.bytesOf (listBuffer 2).cells ≠ listEnv.bytesOf (listBuffer 3).cells ∧
    ¬ Determined .default [listStruct, innerStruct] listStruct [innerStruct] := by
  have hrun₂ : listEnv.getSerializer listStruct (.base 0) (listHeap 2) =
      .ok (.base 4, (listHeap 2).push (listBuffer 2)) := by rfl
  have hrun₃ : listEnv.getSerializer listStruct (.base 0) (listHeap 3) =
      .ok (.base 4, (listHeap 3).push (listBuffer 3)) := by rfl
  have hne : listEnv.bytesOf (listBuffer 2).cells ≠ listEnv.bytesOf (listBuffer 3).cells := by
    decide
  refine ⟨listBlock_sameValue, hrun₂, hrun₃, hne, fun hD => hne ?_⟩
  obtain ⟨buf₁, buf₂, h₁, h₂, heq⟩ := hD .calloc .calloc (fun _ _ => rfl) (fun _ _ => rfl)
    (listHeap 2) (listHeap 3) 0 0 listBlock listBlock rfl rfl (by decide) (by decide)
    listBlock_sameValue
  have h₁ := congrArg Prod.snd (Except.ok.inj (hrun₂.symm.trans h₁))
  have h₂ := congrArg Prod.snd (Except.ok.inj (hrun₃.symm.trans h₂))
  rw [Heap.push_inj h₁, Heap.push_inj h₂]
  exact heq

end Tyr
