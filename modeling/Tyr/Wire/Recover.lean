import Tyr.Wire.Value

/-
  What `deserialize_S` makes of a buffer that has a value.

  `getDeserializer_wire`: code for either byte order recovers the value from a buffer in its own
  wire form, wherever the buffer lies (`Recovers`). `getDeserializer_stuck` says that it never
  does for a field it cannot swap.
-/

namespace Tyr

open Prog

/-- Every integer is within its type. -/
def Value.Bounded (DL : DataLayout) (V : Value) (S : Struct) : Prop :=
  ∀ f ∈ S.fields,
    (f.isRepeated = false → f.isCount = false →
      V.scalar f < 2 ^ DL.getTypeSizeInBits f.type) ∧
    (f.isRepeated = true → ∀ v ∈ V.array f, v < 2 ^ DL.getTypeSizeInBits f.elem)

namespace Env

variable (E : Env) (S : Struct) (V : Value)

/-- The field of the struct object has its value, an array in a block from `lo` on. -/
def FieldLoaded (lo : Nat) (h : Heap) (obj : Block) (f : Field) : Prop :=
  if f.isRepeated then
    (E.countAt S obj (S.countOf f)).toNat = (V.array f).length ∧
    ∃ d arr, lo ≤ d ∧ E.ptrAt S obj f = .base d ∧ h.block? d = some arr ∧
      arr.cells.length = V.fieldSize E.layout f ∧
      ∀ k v, (V.array f)[k]? = some v →
        slice arr.cells (E.layout.allocSize f.elem * k) (E.layout.storeSize f.elem) =
          E.encode f.elem (.int v)
  else E.intAt S obj f = V.scalar f

/-- The deserializers of `fs` take the struct `s` from `obj` to `obj'`. -/
structure Advances (s : Nat) (fs : List Field) (h h' : Heap) (obj obj' : Block) : Prop where
  block : h'.block? s = some obj'
  length : obj'.cells.length = obj.cells.length
  other : ∀ b < h.next, b ≠ s → h'.block? b = h.block? b
  next_le : h.next ≤ h'.next
  frame : ∀ g ∈ S.fields, (∀ f ∈ fs, Untouched S g f) → E.slot S obj' g = E.slot S obj g

/-- The count that is in the buffer. -/
def CountWire (out : List Cell) (f : Field) (off : Nat) : Prop :=
  f.isRepeated = true → slice out off 8 = (toLE 8 (V.array f).length).map .byte

variable {E S V} {f : Field}

theorem FieldWire.count {out : List Cell} {off : Nat} (hw : E.FieldWire V out f off) :
    CountWire V out f off := by
  intro hr
  unfold FieldWire at hw
  rw [if_pos hr] at hw
  exact hw.1

theorem FieldLoaded.lower {lo lo' : Nat} {h : Heap} {obj : Block} (hle : lo' ≤ lo)
    (hload : E.FieldLoaded S V lo h obj f) : E.FieldLoaded S V lo' h obj f := by
  unfold FieldLoaded at hload ⊢
  split at hload
  · next hr =>
    obtain ⟨hn, d, arr, hd, hrest⟩ := hload
    rw [if_pos hr]
    exact ⟨hn, d, arr, Nat.le_trans hle hd, hrest⟩
  · next hr =>
    rw [if_neg hr]
    exact hload

section Field

variable {h : Heap} {a s : Nat} {buf obj : Block} {o : I64}

theorem fieldDeserializer_wire_scalar (flat : S.IsFlat) (ha : h.block? a = some buf)
    (hl : h.block? s = some obj) (hb : E.Holds S obj) (hf : f ∈ S.fields)
    (hc : f.isCount = false) (hr : f.isRepeated = false) (hsw : E.Swappable f.type)
    (hfit : o.toNat + V.wireSize E.layout f ≤ buf.cells.length) :
    ∃ h' obj', E.fieldDeserializer S f (.base s) (.loc a o) h =
        .ok (BitVec.ofNat 64 (V.wireSize E.layout f), h') ∧
      E.Advances S s [f] h h' obj obj' ∧
      (V.Bounded E.layout S → E.FieldWire V buf.cells f o.toNat →
        E.FieldLoaded S V h.next h' obj' f) := by
  have wf := flat.toWellFormed
  have hs := flat.isStruct f hf
  have ht := not_pointer wf hf hs hr
  have hle := storeSize_le_wireSize (E := E) (V := V) hr hc
  have hwire : V.wireSize E.layout f = E.layout.allocSize f.type := Value.wireSize_scalar hr hc
  set raw := slice buf.cells o.toNat (E.layout.storeSize f.type) with hraw
  have hdecode : E.decode f.type raw = .int (E.decode f.type raw).asInt := by
    simp only [decode, ht, Bool.false_eq_true, if_false, Val.asInt]
  have hswap := swapBytes_ok (v := (E.decode f.type raw).asInt) (flat.scalar f hf hr) hsw (h := h)
  rw [← hdecode] at hswap
  have hrun := fieldDeserializer_scalar_run wf ha hl hb hf hr hs (by omega) hswap
  set w := E.encode f.type (.int (E.wireInt f.type (E.decode f.type raw).asInt)) with hw
  have hlen : w.length = E.layout.storeSize f.type := length_encode_int E f.type _
  refine ⟨_, E.put S obj f w, hrun.trans (by rw [hwire]), ?_, ?_⟩
  · refine ⟨Heap.block?_update_self hl _, Block.length_overwrite _ _ _,
      fun b _ hne => Heap.block?_update_ne h hne _, by rw [Heap.next_update], ?_⟩
    intro g hg hun
    exact slot_put_ne wf hb hf hg (hun f List.mem_cons_self hc).1 hlen
  · intro hV hfield
    have hv := (hV f hf).1 hr hc
    unfold FieldWire at hfield
    rw [if_neg (by simp [hr]), ← hraw] at hfield
    have hval : E.wireInt f.type (E.decode f.type raw).asInt = V.scalar f := by
      rw [hfield, decode_wireCells ht hv, Val.asInt, wireInt_wireInt hv]
    unfold FieldLoaded
    rw [if_neg (by simp [hr]), intAt, slot_put_self wf hb hf hlen, hw, hval,
      decode_encode_int E ht, Nat.mod_eq_of_lt hv]
    rfl

/-- The count of an array in the buffer. -/
theorem exists_count (flat : S.IsFlat) (hf : f ∈ S.fields) (hc : f.isCount = false)
    (hr : f.isRepeated = true) (hcount : CountWire V buf.cells f o.toNat)
    (hfit : o.toNat + V.wireSize E.layout f ≤ buf.cells.length) :
    ∃ n : I64, n.toNat = (V.array f).length ∧
      E.swapI64 (E.decodeI64 (slice buf.cells o.toNat 8)) = n ∧
      V.fieldSize E.layout f = E.layout.allocSize f.elem * n.toNat ∧
      V.wireSize E.layout f = 8 + V.fieldSize E.layout f ∧
      (E.sizeFor f n).toNat = V.fieldSize E.layout f := by
  have hlt := buf.fits
  have hwire : V.wireSize E.layout f = 8 + V.fieldSize E.layout f := Value.wireSize_array hr hc
  have harray : V.fieldSize E.layout f = E.layout.allocSize f.elem * (V.array f).length :=
    Value.fieldSize_array hr
  have hle := Nat.le_mul_of_pos_left (V.array f).length
    (E.layout.allocSize_pos (flat.elem_isScalar hf hr))
  have hn : (BitVec.ofNat 64 (V.array f).length).toNat = (V.array f).length := by
    rw [BitVec.toNat_ofNat]
    exact Nat.mod_eq_of_lt (by omega)
  have hsize : E.exactSizeFor f (BitVec.ofNat 64 (V.array f).length) =
      V.fieldSize E.layout f := by
    rw [exactSizeFor, hn, harray]
  refine ⟨BitVec.ofNat 64 (V.array f).length, hn, ?_, by rw [hn, harray], hwire, ?_⟩
  · rw [hcount hr, swapI64_decodeI64 (by omega)]
  · rw [sizeFor_toNat (by rw [hsize]; omega), hsize]

/-- The array behind the count in the buffer, loaded. -/
theorem loadElements_wire (flat : S.IsFlat) (ha : h.block? a = some buf)
    (hl : h.block? s = some obj) (hb : E.Holds S obj) (hA : ∀ t n, E.alloc.succeeds t n = true)
    (hf : f ∈ S.fields) (hr : f.isRepeated = true) {n : I64}
    (hsw : E.ArraySwappable f.elem n.toNat)
    (hsize : (E.sizeFor f n).toNat = E.layout.allocSize f.elem * n.toNat)
    (hfit : o.toNat + 8 + (E.sizeFor f n).toNat ≤ buf.cells.length) :
    ∃ arr : Block, E.loadElements S f f.elem (.base s) (.loc a (o + 8)) n (E.sizeFor f n) h =
        .ok (8 + E.sizeFor f n, (h.update s (E.putPtr S obj f h.next)).push arr) ∧
      arr.cells.length = E.layout.allocSize f.elem * n.toNat ∧
      ∀ k < n.toNat, ∀ v < 2 ^ E.layout.getTypeSizeInBits f.elem,
        slice buf.cells (o.toNat + 8 + E.layout.allocSize f.elem * k)
            (E.layout.storeSize f.elem) = E.wireCells f.elem v →
        slice arr.cells (E.layout.allocSize f.elem * k) (E.layout.storeSize f.elem) =
          E.encode f.elem (.int v) := by
  have wf := flat.toWellFormed
  have h0 : (0 : I64).toNat = 0 := rfl
  obtain ⟨hcopy, hby⟩ := readable_elements ha (by omega) fun _ => hfit
  set size := E.sizeFor f n with hsz
  set new := (E.alloc.fresh h.calls size).overwrite 0 (h.bytesAt (.loc a (o + 8)) size.toNat)
    with hnew
  have hcells : new.cells = slice buf.cells (o.toNat + 8) size.toNat := by
    rw [hnew, hby]
    refine Block.overwrite_all ?_
    rw [← hby, Heap.length_bytesAt hcopy, Allocator.length_fresh]
  have hlen : new.cells.length = E.layout.allocSize f.elem * n.toNat := by
    rw [hcells, length_slice hfit, hsize]
  obtain ⟨arr, hswap, hrun⟩ := swapArrayBytes_ok (o := 0) (flat.elem_isScalar hf hr) hsw
    (Heap.block?_push_self h new) (by rw [hlen, h0, Nat.zero_add])
  rw [Heap.update_push_next] at hrun
  refine ⟨arr, loadElements_run wf hl hb hf hr (hA _ _) hcopy hrun, by rw [hswap.length, hlen], ?_⟩
  intro k hk v hv hcell
  have hmul := Nat.mul_le_mul_left (E.layout.allocSize f.elem) (Nat.succ_le_of_lt hk)
  rw [Nat.succ_eq_add_one, Nat.mul_add, Nat.mul_one] at hmul
  have hle := E.layout.storeSize_le_allocSize f.elem
  have helem := hswap.element k (Nat.zero_le k) hk (E.wireInt f.elem v) (wireInt_lt hv)
  rw [h0, Nat.zero_add, hcells, slice_slice (by omega)] at helem
  rw [helem hcell, wireCells, wireInt_wireInt hv]

/-- A loop that does not end: the array it was to turn around is empty, or its type has no
    intrinsic. -/
theorem loadElements_stuck (flat : S.IsFlat) {Self src : Ptr}
    (hA : ∀ t n, E.alloc.succeeds t n = true) (hf : f ∈ S.fields) (hr : f.isRepeated = true)
    {n : I64} (hsw : ¬ E.ArraySwappable f.elem n.toNat)
    (hsize : (E.sizeFor f n).toNat = E.layout.allocSize f.elem * n.toNat)
    (hread : h.Readable src (E.sizeFor f n).toNat) (res : I64 × Heap) :
    E.loadElements S f f.elem Self src n (E.sizeFor f n) h ≠ .ok res := by
  intro hrun
  have hlen : (E.alloc.fresh h.calls (E.sizeFor f n)).cells.length =
      E.layout.allocSize f.elem * n.toNat := by
    rw [Allocator.length_fresh, hsize]
  obtain ⟨hread', -⟩ := Heap.readable_push hread (E.alloc.fresh h.calls (E.sizeFor f n))
  rw [loadElements, bind_of_ok (malloc_ok (hA _ _)), insertNullCheck_loc,
    bind_of_ok (memcpy_ok hread' (Heap.block?_push_self h _)
      (by rw [Allocator.length_fresh, show (0 : I64).toNat = 0 from rfl, Nat.zero_add])),
    Heap.update_push_next] at hrun
  obtain ⟨u, h₁, hswap, -⟩ := bind_eq_ok hrun
  exact swapArrayBytes_ne_ok (flat.elem_isScalar hf hr) hsw (Heap.block?_push_self h _)
    (by rw [Block.length_overwrite, hlen]) _ hswap

theorem fieldDeserializer_wire_array (flat : S.IsFlat) (ha : h.block? a = some buf) (has : a ≠ s)
    (hl : h.block? s = some obj) (hb : E.Holds S obj) (hA : ∀ t n, E.alloc.succeeds t n = true)
    (hf : f ∈ S.fields) (hc : f.isCount = false) (hr : f.isRepeated = true)
    (hsw : E.ArraySwappable f.elem (V.array f).length) (hcount : CountWire V buf.cells f o.toNat)
    (hfit : o.toNat + V.wireSize E.layout f ≤ buf.cells.length) :
    ∃ h' obj', E.fieldDeserializer S f (.base s) (.loc a o) h =
        .ok (BitVec.ofNat 64 (V.wireSize E.layout f), h') ∧
      E.Advances S s [f] h h' obj obj' ∧
      (V.Bounded E.layout S → E.FieldWire V buf.cells f o.toNat →
        E.FieldLoaded S V h.next h' obj' f) := by
  have wf := flat.toWellFormed
  obtain ⟨n, hn, hread, harray, hwire, hsize⟩ :=
    exists_count (E := E) flat hf hc hr hcount hfit
  have hrun := fieldDeserializer_array_run wf ha hl hb hf hr (by omega) hread
  set obj₁ := E.putCount S obj f n with hobj₁
  set h₁ := h.update s obj₁ with hh₁
  have hl₁ : h₁.block? s = some obj₁ := Heap.block?_update_self hl obj₁
  have hb₁ : E.Holds S obj₁ := holds_putCount hb n
  have ha₁ : h₁.block? a = some buf := by rw [hh₁, Heap.block?_update_ne h has, ha]
  have hnext : h₁.next = h.next := Heap.next_update h s obj₁
  obtain ⟨arr, hload, hlen, helem⟩ := loadElements_wire (o := o) flat ha₁ hl₁ hb₁ hA hf hr
    (by rwa [hn]) (hsize.trans harray) (by omega)
  set obj₂ := E.putPtr S obj₁ f h₁.next with hobj₂
  have hl₂ := Heap.block?_update_self hl₁ obj₂
  have harr := Heap.block?_push_self (h₁.update s obj₂) arr
  rw [Heap.next_update] at harr
  refine ⟨(h₁.update s obj₂).push arr, obj₂, ?_,
    ⟨Heap.block?_push_of_some hl₂ arr, ?_, ?_, ?_, ?_⟩, ?_⟩
  · rw [hrun, hload, hwire, BitVec.ofNat_add]
    congr 3
    apply BitVec.eq_of_toNat_eq
    rw [hsize, BitVec.toNat_ofNat]
    exact (Nat.mod_eq_of_lt (by have := buf.fits; omega)).symm
  · rw [hobj₂, length_putPtr, hobj₁, length_putCount]
  · intro b hbl hne
    rw [Heap.block?_push_of_lt (by rwa [Heap.next_update, hnext]), Heap.block?_update_ne _ hne,
      Heap.block?_update_ne _ hne]
  · rw [Heap.next_push, Heap.next_update, hnext]
    exact Nat.le_succ _
  · intro g hg hun
    obtain ⟨h1, h2⟩ := hun f List.mem_cons_self hc
    rw [slot_putPtr_ne wf hf hr hb₁ h₁.next hg h1, slot_putCount_ne wf hf hr hb n hg (h2 hr)]
  · intro hV hfield
    unfold FieldWire at hfield
    rw [if_pos hr] at hfield
    unfold FieldLoaded
    rw [if_pos hr]
    refine ⟨?_, h₁.next, arr, hnext.ge, ptrAt_putPtr wf hf hr hb₁ _, harr,
      hlen.trans harray.symm, ?_⟩
    · rw [hobj₂, countAt_putPtr wf hf hr hb₁, hobj₁, countAt_putCount wf hf hr hb, hn]
    · intro k v hk
      have hklt := (List.getElem?_eq_some_iff.mp hk).1
      exact helem k (by omega) v ((hV f hf).2 hr v (List.mem_of_getElem? hk)) (hfield.2 k v hk)

theorem fieldDeserializer_wire (flat : S.IsFlat) (ha : h.block? a = some buf) (has : a ≠ s)
    (hl : h.block? s = some obj) (hb : E.Holds S obj) (hA : ∀ t n, E.alloc.succeeds t n = true)
    (hf : f ∈ S.fields) (hc : f.isCount = false) (hsw : E.FieldSwappable V f)
    (hcount : CountWire V buf.cells f o.toNat)
    (hfit : o.toNat + V.wireSize E.layout f ≤ buf.cells.length) :
    ∃ h' obj', E.fieldDeserializer S f (.base s) (.loc a o) h =
        .ok (BitVec.ofNat 64 (V.wireSize E.layout f), h') ∧
      E.Advances S s [f] h h' obj obj' ∧
      (V.Bounded E.layout S → E.FieldWire V buf.cells f o.toNat →
        E.FieldLoaded S V h.next h' obj' f) := by
  unfold FieldSwappable at hsw
  cases hr : f.isRepeated with
  | true =>
    rw [if_pos hr] at hsw
    exact fieldDeserializer_wire_array flat ha has hl hb hA hf hc hr hsw hcount hfit
  | false =>
    rw [if_neg (by simp [hr])] at hsw
    exact fieldDeserializer_wire_scalar flat ha hl hb hf hc hr hsw hfit

/-- The code for a field that cannot be swapped does not end normally. -/
theorem fieldDeserializer_stuck (flat : S.IsFlat) (ha : h.block? a = some buf) (has : a ≠ s)
    (hl : h.block? s = some obj) (hb : E.Holds S obj) (hA : ∀ t n, E.alloc.succeeds t n = true)
    (hf : f ∈ S.fields) (hc : f.isCount = false) (hsw : ¬ E.FieldSwappable V f)
    (hcount : CountWire V buf.cells f o.toNat)
    (hfit : o.toNat + V.wireSize E.layout f ≤ buf.cells.length) (res : I64 × Heap) :
    E.fieldDeserializer S f (.base s) (.loc a o) h ≠ .ok res := by
  have wf := flat.toWellFormed
  have hs := flat.isStruct f hf
  intro hrun
  unfold FieldSwappable at hsw
  cases hr : f.isRepeated with
  | true =>
    rw [if_pos hr] at hsw
    obtain ⟨n, hn, hread, harray, hwire, hsize⟩ :=
      exists_count (E := E) flat hf hc hr hcount hfit
    have ha₁ : (h.update s (E.putCount S obj f n)).block? a = some buf := by
      rw [Heap.block?_update_ne h has, ha]
    have hcopy : (h.update s (E.putCount S obj f n)).Readable (.loc a (o + 8))
        (E.sizeFor f n).toNat := (readable_elements ha₁ (by omega) fun _ => by omega).1
    rw [fieldDeserializer_array_run wf ha hl hb hf hr (by omega) hread] at hrun
    exact loadElements_stuck flat hA hf hr (by rwa [hn]) (hsize.trans harray) hcopy res hrun
  | false =>
    rw [if_neg (by simp [hr])] at hsw
    have ht := not_pointer wf hf hs hr
    have hle := storeSize_le_wireSize (E := E) (V := V) hr hc
    rw [fieldDeserializer, insertNullCheck_loc, if_neg (by simp [hs]), if_neg (by simp [ht]),
      bind_of_ok (loadTy_ok ha (by omega))] at hrun
    unfold Swappable at hsw
    push Not at hsw
    obtain ⟨hBE, hswapped, hno⟩ := hsw
    simp only [decode, ht, Bool.false_eq_true, if_false] at hrun
    rw [bind_of_error (swapBytes_fault hBE hswapped (Bool.eq_false_iff.mpr hno))] at hrun
    cases hrun

end Field

/-! ## The loop over the fields -/

section Loop

variable {h : Heap} {a s lo : Nat} {buf : Block}

/-- A field's value survives what comes later. -/
theorem FieldLoaded.mono {fs : List Field} {h' : Heap} {obj obj' : Block} (wf : S.WellFormed)
    (hs : s < lo) (hm : ∀ g ∈ fs, g ∈ S.fields) (hf : f ∈ S.fields) (hc : f.isCount = false)
    (hnew : f ∉ fs) (hfill : E.Advances S s fs h h' obj obj')
    (hload : E.FieldLoaded S V lo h obj f) : E.FieldLoaded S V lo h' obj' f := by
  have hne : ∀ g ∈ fs, f ≠ g := fun g hg he => hnew (he ▸ hg)
  have hself := hfill.frame f hf fun g hg => untouched_field wf (hm g hg) hc (hne g hg)
  unfold FieldLoaded at hload ⊢
  cases hr : f.isRepeated with
  | true =>
    simp only [hr, if_true] at hload ⊢
    have hcount := hfill.frame _ (wf.countOf_mem hf hr)
      fun g hg => untouched_count wf hf (hm g hg) hr (hne g hg)
    obtain ⟨hn, d, arr, hd, hptr, hblk, hrest⟩ := hload
    refine ⟨by rw [countAt, hcount]; exact hn, d, arr, hd, by rw [ptrAt, hself]; exact hptr, ?_,
      hrest⟩
    rw [hfill.other d (Heap.lt_next hblk) (by omega)]
    exact hblk
  | false =>
    simp only [hr, Bool.false_eq_true, if_false] at hload ⊢
    rw [intAt, hself]
    exact hload

theorem Advances.cons {fs : List Field} {h₁ h' : Heap} {obj obj₁ obj' : Block}
    (h1 : E.Advances S s [f] h h₁ obj obj₁) (h2 : E.Advances S s fs h₁ h' obj₁ obj') :
    E.Advances S s (f :: fs) h h' obj obj' where
  block := h2.block
  length := h2.length.trans h1.length
  other b hb hne := by
    rw [h2.other b (Nat.lt_of_lt_of_le hb h1.next_le) hne, h1.other b hb hne]
  next_le := Nat.le_trans h1.next_le h2.next_le
  frame g hg hun := by
    rw [h2.frame g hg fun x hx => hun x (List.mem_cons_of_mem f hx),
      h1.frame g hg fun x hx => hun x (List.mem_singleton.mp hx ▸ List.mem_cons_self)]

variable (E V f) in
/-- The next field starts where this one ends. -/
theorem toNat_add_fieldWire (off : I64) (hlt : off.toNat + V.wireSize E.layout f < 2 ^ 64) :
    (off + BitVec.ofNat 64 (V.wireSize E.layout f)).toNat =
      off.toNat + V.wireSize E.layout f := by
  rw [BitVec.toNat_add, BitVec.toNat_ofNat, Nat.add_mod_mod]
  exact Nat.mod_eq_of_lt hlt

/-- The unrolled calls of the field deserializers. -/
theorem deserializeEntries_wire (flat : S.IsFlat) (hfun : Resolves E S)
    (hA : ∀ t n, E.alloc.succeeds t n = true) (hV : V.Bounded E.layout S) (has : a ≠ s)
    (hs : s < lo) :
    ∀ (fs : List Field) (off : I64) (h : Heap) (obj : Block),
      (∀ f ∈ fs, f ∈ S.fields ∧ (f.isCount = false → E.FieldSwappable V f)) → fs.Nodup →
      lo ≤ h.next → h.block? a = some buf → h.block? s = some obj → E.Holds S obj →
      off.toNat + (fs.map (V.wireSize E.layout)).sum ≤ buf.cells.length →
      Along (V.wireSize E.layout) (E.FieldWire V buf.cells) fs off.toNat →
      ∃ idx h' obj', E.deserializeEntries S (.base a) (.base s) fs off h = .ok (idx, h') ∧
        E.Advances S s fs h h' obj obj' ∧
        ∀ f ∈ fs, f.isCount = false → E.FieldLoaded S V lo h' obj' f := by
  have wf := flat.toWellFormed
  intro fs
  induction fs with
  | nil =>
    intro off h obj _ _ _ _ hl _ _ _
    exact ⟨off, h, obj, rfl, ⟨hl, rfl, fun _ _ _ => rfl, le_rfl, fun _ _ _ => rfl⟩,
      fun f hf => nomatch hf⟩
  | cons f fs ih =>
    intro off h obj hm hnd hlo ha hl hb hfit hwire
    obtain ⟨hf, hsw⟩ := hm f List.mem_cons_self
    have hm' : ∀ g ∈ fs, g ∈ S.fields ∧ (g.isCount = false → E.FieldSwappable V g) :=
      fun g hg => hm g (List.mem_cons_of_mem f hg)
    obtain ⟨hnew, hnd'⟩ := List.nodup_cons.mp hnd
    rw [List.map_cons, List.sum_cons] at hfit
    unfold Along at hwire
    unfold deserializeEntries
    cases hc : f.isCount with
    | true =>
      simp only [hc, if_true] at hwire ⊢
      obtain ⟨idx, h', obj', hrun, hfill, hload⟩ :=
        ih off h obj hm' hnd' hlo ha hl hb (by omega) hwire
      refine ⟨idx, h', obj', hrun, ⟨hfill.block, hfill.length, hfill.other, hfill.next_le, ?_⟩, ?_⟩
      · intro g hg hun
        exact hfill.frame g hg fun x hx => hun x (List.mem_cons_of_mem f hx)
      · intro g hg hgc
        rcases List.mem_cons.mp hg with rfl | hg
        · rw [hc] at hgc
          cases hgc
        · exact hload g hg hgc
    | false =>
      simp only [hc, Bool.false_eq_true, if_false] at hwire ⊢
      obtain ⟨hhead, htail⟩ := hwire
      have hlt := buf.fits
      obtain ⟨h₁, obj₁, hrun₁, hfill₁, hload₁⟩ := fieldDeserializer_wire flat ha has hl hb hA hf hc
        (hsw hc) hhead.count (by omega)
      have ha₁ : h₁.block? a = some buf := by rw [hfill₁.other a (Heap.lt_next ha) has, ha]
      have hb₁ : E.Holds S obj₁ := by
        rw [Holds, hfill₁.length]
        exact hb
      have hoff := toNat_add_fieldWire E V f off (by omega)
      obtain ⟨idx, h', obj', hrun, hfill, hload⟩ := ih _ h₁ obj₁ hm' hnd'
        (Nat.le_trans hlo hfill₁.next_le) ha₁ hfill₁.block hb₁ (by rw [hoff]; omega)
        (by rw [hoff]; exact htail)
      refine ⟨idx, h', obj', ?_, hfill₁.cons hfill, ?_⟩
      · rw [hfun.deserializer hf hc, Ptr.add_loc,
          show (0 : I64) + off = off from BitVec.zero_add off]
        exact (bind_of_ok hrun₁).trans hrun
      · intro g hg hgc
        rcases List.mem_cons.mp hg with rfl | hg
        · exact ((hload₁ hV hhead).lower hlo).mono wf hs (fun x hx => (hm' x hx).1) hf hc hnew hfill
        · exact hload g hg hgc

/-- The loop does not get through a field that cannot be swapped. -/
theorem deserializeEntries_stuck (flat : S.IsFlat) (hfun : Resolves E S)
    (hA : ∀ t n, E.alloc.succeeds t n = true) (has : a ≠ s) :
    ∀ (fs : List Field) (off : I64) (h : Heap) (obj : Block),
      (∀ f ∈ fs, f ∈ S.fields) → h.block? a = some buf → h.block? s = some obj →
      E.Holds S obj → off.toNat + (fs.map (V.wireSize E.layout)).sum ≤ buf.cells.length →
      Along (V.wireSize E.layout) (CountWire V buf.cells) fs off.toNat →
      (∃ f ∈ fs, f.isCount = false ∧ ¬ E.FieldSwappable V f) →
      ∀ res, E.deserializeEntries S (.base a) (.base s) fs off h ≠ .ok res := by
  intro fs
  induction fs with
  | nil =>
    intro off h obj _ _ _ _ _ _ hbad
    obtain ⟨f, hf, -⟩ := hbad
    cases hf
  | cons f fs ih =>
    intro off h obj hm ha hl hb hfit hcounts hbad res hres
    have hf := hm f List.mem_cons_self
    have hm' : ∀ g ∈ fs, g ∈ S.fields := fun g hg => hm g (List.mem_cons_of_mem f hg)
    obtain ⟨x, hx, hxc, hxbad⟩ := hbad
    rw [List.map_cons, List.sum_cons] at hfit
    unfold Along at hcounts
    unfold deserializeEntries at hres
    cases hc : f.isCount with
    | true =>
      simp only [hc, if_true] at hcounts hres
      refine ih off h obj hm' ha hl hb (by omega) hcounts ⟨x, ?_, hxc, hxbad⟩ res hres
      rcases List.mem_cons.mp hx with rfl | hx
      · rw [hc] at hxc
        cases hxc
      · exact hx
    | false =>
      simp only [hc, Bool.false_eq_true, if_false, hfun.deserializer hf hc] at hcounts hres
      rw [Ptr.add_loc, show (0 : I64) + off = off from BitVec.zero_add off] at hres
      obtain ⟨hhead, htail⟩ := hcounts
      have hlt := buf.fits
      by_cases hsw : E.FieldSwappable V f
      · obtain ⟨h₁, obj₁, hrun₁, hfill₁, -⟩ := fieldDeserializer_wire flat ha has hl hb hA hf hc
          hsw hhead (by omega)
        have ha₁ : h₁.block? a = some buf := by rw [hfill₁.other a (Heap.lt_next ha) has, ha]
        have hb₁ : E.Holds S obj₁ := by
          rw [Holds, hfill₁.length]
          exact hb
        have hoff := toNat_add_fieldWire E V f off (by omega)
        rw [bind_of_ok hrun₁] at hres
        refine ih _ h₁ obj₁ hm' ha₁ hfill₁.block hb₁ (by rw [hoff]; omega)
          (by rw [hoff]; exact htail) ⟨x, ?_, hxc, hxbad⟩ res hres
        rcases List.mem_cons.mp hx with rfl | hx
        · exact absurd hsw hxbad
        · exact hx
      · obtain ⟨n, h₁, hrun₁, -⟩ := bind_eq_ok hres
        exact fieldDeserializer_stuck flat ha has hl hb hA hf hc hsw hhead (by omega) _ hrun₁

end Loop

/-! ## The whole run -/

section Run

variable {h : Heap} {a : Nat} {buf : Block}

variable (E S V) in
/-- `deserialize_S` gives the value `V` wherever the buffer lies. -/
def Recovers (buf : Block) : Prop :=
  ∀ (h : Heap) (a : Nat), h.block? a = some buf →
    ∃ r h' obj, E.getDeserializer S (.base a) h = .ok (.base r, h') ∧
      h'.block? r = some obj ∧ E.HasValue S V h' obj

theorem HasValue.bounded {blk : Block} (flat : S.IsFlat) (hrep : E.HasValue S V h blk) :
    V.Bounded E.layout S := by
  intro f hf
  refine ⟨fun hr hc => hrep.scalar_lt flat hf hr hc, fun hr v hv => ?_⟩
  obtain ⟨k, hk⟩ := List.getElem?_of_mem hv
  exact (hrep.element f hf hr k v hk).1

/-- An array that was loaded, as the object's readers see it. -/
theorem FieldLoaded.array {lo : Nat} {obj : Block} (hr : f.isRepeated = true)
    (hload : E.FieldLoaded S V lo h obj f) :
    (E.countAt S obj (S.countOf f)).toNat = (V.array f).length ∧
    (h.read (E.ptrAt S obj f) (E.exactFieldSize S obj f)).isSome ∧
    ∀ k v, (V.array f)[k]? = some v →
      slice (E.elementsAt S h obj f) (E.layout.allocSize f.elem * k) (E.layout.storeSize f.elem) =
        E.encode f.elem (.int v) := by
  unfold FieldLoaded at hload
  rw [if_pos hr] at hload
  obtain ⟨hn, d, arr, -, hptr, hblk, hlen, helem⟩ := hload
  have hsize : E.exactFieldSize S obj f = arr.cells.length := by
    rw [hlen, Value.fieldSize_array hr, exactFieldSize, if_pos hr, hn]
  have hread : h.read (E.ptrAt S obj f) (E.exactFieldSize S obj f) = some arr.cells := by
    have h0 : (0 : I64).toNat = 0 := rfl
    rw [hptr, Ptr.base, hsize, Heap.read_loc hblk (by omega), h0, slice_self]
  refine ⟨hn, by rw [hread]; rfl, fun k v hk => ?_⟩
  rw [elementsAt, Heap.bytesAt, hread]
  exact helem k v hk

/-- A struct object whose fields have their values. -/
theorem hasValue_of_loaded {lo : Nat} {obj : Block} (wf : S.WellFormed)
    (hV : V.Bounded E.layout S) (hb : E.Holds S obj)
    (hload : ∀ f ∈ S.fields, f.isCount = false → E.FieldLoaded S V lo h obj f) :
    E.HasValue S V h obj := by
  have harray := fun f hf hr => (hload f hf (wf.array_spec hf hr).2.2.2.1).array hr
  refine ⟨⟨hb, fun f hf hr => .inr (harray f hf hr).2.1⟩, ?_, fun f hf hr => (harray f hf hr).1, ?_⟩
  · intro f hf hr hc
    have hfield := hload f hf hc
    unfold FieldLoaded at hfield
    rwa [if_neg (by simp [hr])] at hfield
  · intro f hf hr k v hk
    exact ⟨(hV f hf).2 hr v (List.mem_of_getElem? hk), (harray f hf hr).2.2 k v hk⟩

/-- The struct that comes out of a buffer with the value `V`. -/
theorem getDeserializer_loaded (flat : S.IsFlat) (hfun : Resolves E S)
    (hA : ∀ t n, E.alloc.succeeds t n = true)
    (hstruct : E.layout.structSize S.packed S.elements < 2 ^ 64) (hV : V.Bounded E.layout S)
    (hsw : ∀ f ∈ S.fields, f.isCount = false → E.FieldSwappable V f)
    (hw : E.Wire S V buf.cells) {h : Heap} {a : Nat} (ha : h.block? a = some buf) :
    ∃ h' obj, E.getDeserializer S (.base a) h = .ok (.base h.next, h') ∧
      h'.block? h.next = some obj ∧ E.HasValue S V h' obj ∧
      ∀ f ∈ S.fields, f.isCount = false → E.FieldLoaded S V (h.next + 1) h' obj f := by
  have wf := flat.toWellFormed
  have hlt := buf.fits
  have hsize : V.size E.layout S < 2 ^ 64 := by rwa [← hw.length]
  have hsum := sum_fieldWire (E := E) (V := V) wf
  have h8 : (8 : I64).toNat = 8 := rfl
  set new := E.alloc.fresh h.calls (E.getStructAllocSize S) with hnew
  have hlen : buf.cells.length = V.size E.layout S := hw.length
  obtain ⟨idx, h', obj, hrun, hfill, hload⟩ := deserializeEntries_wire flat hfun hA hV
    (Nat.ne_of_lt (Heap.lt_next ha)) (Nat.lt_succ_self h.next) S.fields 8 (h.push new) new
    (fun f hf => ⟨hf, hsw f hf⟩) wf.fields_nodup (by rw [Heap.next_push])
    (Heap.block?_push_of_some ha new) (Heap.block?_push_self h new) (holds_fresh hstruct _)
    (by rw [h8, hsum, hlen]) hw.fields
  have hb : E.Holds S obj := by
    rw [Holds, hfill.length]
    exact holds_fresh hstruct _
  have hrep := hasValue_of_loaded wf hV hb hload
  refine ⟨h', obj, ?_, hfill.block, hrep, hload⟩
  have hser : 8 + E.sumSizes S obj S.fields = V.size E.layout S := by
    rw [← hrep.exactSize]
    exact serializedSize_eq (by rwa [hrep.exactSize])
  rw [getDeserializer_run wf ha (by omega) (hA _ _) hrun hfill.block hb, if_pos]
  rw [headerIn, hw.header, swapI64_decodeI64 hsize, ← hser, BitVec.ofNat_add]
  rfl

/-- `deserialize_S` on a buffer that has the value `V`. -/
theorem getDeserializer_wire (flat : S.IsFlat) (hfun : Resolves E S)
    (hA : ∀ t n, E.alloc.succeeds t n = true)
    (hstruct : E.layout.structSize S.packed S.elements < 2 ^ 64) (hV : V.Bounded E.layout S)
    (hsw : ∀ f ∈ S.fields, f.isCount = false → E.FieldSwappable V f)
    (hw : E.Wire S V buf.cells) : E.Recovers S V buf := by
  intro h a ha
  obtain ⟨h', obj, hrun, hl, hrep, -⟩ :=
    getDeserializer_loaded flat hfun hA hstruct hV hsw hw ha
  exact ⟨h.next, h', obj, hrun, hl, hrep⟩

theorem getDeserializer_stuck (flat : S.IsFlat) (hfun : Resolves E S)
    (hA : ∀ t n, E.alloc.succeeds t n = true)
    (hstruct : E.layout.structSize S.packed S.elements < 2 ^ 64)
    (hlen : buf.cells.length = V.size E.layout S)
    (hcounts : Along (V.wireSize E.layout) (CountWire V buf.cells) S.fields 8)
    (hrec : E.Recovers S V buf) : ∀ f ∈ S.fields, f.isCount = false → E.FieldSwappable V f := by
  have wf := flat.toWellFormed
  have hsum := sum_fieldWire (E := E) (V := V) wf
  intro f hf hc
  by_contra hbad
  have ha : (Heap.mk [some buf] 0).block? 0 = some buf := rfl
  obtain ⟨r, h', obj, hrun, -⟩ := hrec _ 0 ha
  rw [getDeserializer, bind_of_ok (loadI64_ok ha (by rw [hlen]; exact Nat.le_add_right 8 _)),
    insertNullCheck_loc, bind_of_ok (malloc_ok (hA _ _)), insertNullCheck_loc] at hrun
  obtain ⟨idx, h₁, hentries, -⟩ := bind_eq_ok hrun
  exact deserializeEntries_stuck flat hfun hA (Nat.ne_of_lt (Heap.lt_next ha)) S.fields 8 _ _
    (fun g hg => hg) (Heap.block?_push_of_some ha _) (Heap.block?_push_self _ _)
    (holds_fresh hstruct _) (by rw [show (8 : I64).toNat = 8 from rfl, hsum, hlen]) hcounts
    ⟨f, hf, hc, hbad⟩ _ hentries

end Run

end Env

end Tyr
