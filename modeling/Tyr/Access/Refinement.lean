import Tyr.Access.Contents

/-
  The accessors refine a store of records.

  `denote` says which operation on records a call stands for, and `observe` what its caller
  gets to see: the boolean, the value in the output parameter, the elements an output pointer
  leads to. `call_refines`: a proper and regular call does what the operation does.
  `accessors_refine`: so every run of calls is a run of the store with the same results.
-/

namespace Tyr

open Prog

/-- The block a pointer leads to. -/
def Ptr.block : Ptr → Nat
  | .loc b _ => b
  | _ => 0

namespace Env

variable (E : Env) (S : Struct)

/-! ## Calls and operations -/

/-- The operation a call stands for. Its array arguments are read from memory. -/
def denote (h : Heap) : Call → Record.Op Field
  | .create arg => .create ⟨fun f => (arg f).asInt,
      fun f => E.itemsAt h f.elem (arg f).asPtr (S.countArg arg f).toNat⟩
  | .get f Self _ =>
    if f.isRepeated then .getItems Self.block f
    else if f.isCount then .getCount Self.block (S.arrayOf f)
    else .get Self.block f
  | .getItem f Self idx _ => .getItem Self.block f idx.toNat
  | .set f Self v =>
    if f.isCount then .setCount Self.block (S.arrayOf f) v.asInt else .set Self.block f v.asInt
  | .setArray f Self src n => .setItems Self.block f (E.itemsAt h f.elem src n.toNat)
  | .setItem f Self idx v => .setItem Self.block f idx.toNat v.asInt
  | .destroy Self => .destroy Self.block

/-- The value of type `t` that a getter left at `p`. -/
def outVal (h : Heap) (t : Ty) (p : Ptr) : Val := E.decode t (h.bytesAt p (E.layout.storeSize t))

/-- The count of array `f` of the struct at `Self`. -/
def countOfSelf (h : Heap) (Self : Ptr) (f : Field) : Nat :=
  ((h.block? Self.block).map fun blk => (E.countAt S blk (S.countOf f)).toNat).getD 0

/-- What a getter that returned true has put out; of an array, the elements at the pointer. -/
def output (h : Heap) : Call → List Nat
  | .get f Self p =>
    if f.isRepeated then
      E.itemsAt h f.elem (E.outVal h f.type p).asPtr (E.countOfSelf S h Self f)
    else [(E.outVal h f.type p).asInt]
  | .getItem f _ _ p => [(E.outVal h f.elem p).asInt]
  | _ => []

/-- What the caller sees of a call that returned `v` in heap `h`. -/
def observe (h : Heap) (c : Call) (v : Val) : Record.Result :=
  match c with
  | .create _ => .created v.asPtr.block
  | .destroy _ => .done true []
  | c => .done (v != .int 0) (if v = .int 0 then [] else E.output S h c)

/-- Arguments have values of their types, and lengths are positive with a size below `2 ^ 64`
    (for the array setter the latter is `Proper`). -/
def Regular : Call → Prop
  | .create arg => ∀ f ∈ S.fields, f.isMutable = false → f.isRepeated = false →
      (arg f).asInt < 2 ^ E.layout.getTypeSizeInBits f.type
  | .set f _ v => v.asInt < 2 ^ E.layout.getTypeSizeInBits f.type ∧ (f.isCount = true →
      v.asInt ≠ 0 ∧ E.exactSizeFor (S.arrayOf f) (BitVec.ofNat 64 v.asInt) < 2 ^ 64)
  | .setArray _ _ _ n => n ≠ 0
  | .setItem f _ _ v => v.asInt < 2 ^ E.layout.getTypeSizeInBits f.elem
  | _ => True

variable {E S} {w w' : World} {st : Record.Store Field} {h h' : Heap} {b x : Nat}
  {blk xblk : Block} {f : Field} {p : Ptr} {o : I64} {r : Record Field}

/-! ## Output -/

theorem bytesAt_out {cs : List Cell} (ho : OutVal h p cs.length x o xblk) {h₁ : Heap}
    (hx : h₁.block? x = some (xblk.overwrite o.toNat cs)) : h₁.bytesAt p cs.length = cs := by
  obtain ⟨rfl, -, hfit⟩ := ho
  rw [Heap.bytesAt, Heap.read_loc hx (by rw [Block.length_overwrite]; exact hfit),
    Block.slice_overwrite_self rfl hfit]
  rfl

/-- What a getter stored is what the caller reads. -/
theorem outVal_eq {t : Ty} {v v' : Val} (ho : OutVal h p (E.layout.storeSize t) x o xblk)
    (hlen : (E.encode t v).length = E.layout.storeSize t)
    (hdec : E.decode t (E.encode t v) = v') {h₁ : Heap}
    (hx : h₁.block? x = some (xblk.overwrite o.toNat (E.encode t v))) :
    E.outVal h₁ t p = v' := by
  rw [← hlen] at ho
  rw [outVal, ← hlen, bytesAt_out ho hx, hdec]

theorem decode_encode_decode {t : Ty} (ht : t.isPointerTy = false) (cs : List Cell) :
    (E.encode t (E.decode t cs)).length = E.layout.storeSize t ∧
      E.decode t (E.encode t (E.decode t cs)) = E.decode t cs := by
  obtain ⟨k, hk⟩ : ∃ k, E.decode t cs = .int (k % 2 ^ E.layout.getTypeSizeInBits t) :=
    ⟨_, by rw [decode, ht]; rfl⟩
  rw [hk]
  exact ⟨length_encode_int E _ _, by rw [decode_encode_int E ht, Nat.mod_mod]⟩

/-- A field is loaded and stored without loss. -/
theorem decode_encode_valueAt (flat : S.IsFlat) (hf : f ∈ S.fields)
    (harr : f.isRepeated = true → E.ArrayOk S h blk f) :
    E.decode f.type (E.encode f.type (E.valueAt S blk f)) = E.valueAt S blk f := by
  have wf := flat.toWellFormed
  cases hr : f.isRepeated with
  | false => exact (decode_encode_decode (not_pointer wf hf (flat.isStruct f hf) hr) _).2
  | true =>
    obtain ⟨ht, -⟩ := wf.array_spec hf hr
    have hv : E.valueAt S blk f = .ptr (E.ptrAt S blk f) := by
      rw [ptrAt, valueAt, ht]
      rfl
    rw [hv]
    rcases harr hr with ⟨hp, -⟩ | ⟨d, arr, hp, -⟩
    · rw [hp, ht]
      exact decode_encode_null E _ _
    · rw [hp, ht]
      exact decode_encode_loc E _ _ _ _

theorem countOfSelf_base {n : I64} (hl : h.block? b = some blk)
    (hn : E.countAt S blk (S.countOf f) = n) : E.countOfSelf S h (.base b) f = n.toNat := by
  rw [countOfSelf, Ptr.block, hl, Option.map_some, Option.getD_some, hn]

/-! ## Every call -/

section Calls

variable (hrep : E.Represents S w st) (flat : S.IsFlat) (hfun : Resolves E S)
include hrep flat hfun

/-- A getter that stores what is in the field. -/
theorem getDirect_refines (hb : b ∈ w.structs) (hf : f ∈ S.fields)
    (hri : (f.isRepeated && !f.isMutable) = false)
    (hout : OutVal w.heap p (E.layout.storeSize f.type) x o xblk) (hx : ¬ E.Owns S w x) {v : Val}
    (hrun : E.call S (.get f (.base b) p) w.heap = .ok (v, h')) :
    Record.Step Field.isMutable st
      (E.denote S w.heap (.get f (.base b) p), E.observe S h' (.get f (.base b) p) v) st ∧
    E.Represents S ⟨h', w.structs⟩ st := by
  obtain ⟨blk, r, hl, hh, harr, hst, hshow⟩ := hrep.struct hb
  have hne : ∀ d, E.Owns S w d → d ≠ x := fun d hd he => hx (he ▸ hd)
  have wf := flat.toWellFormed
  have hlen := length_encode_valueAt flat hf (harr f hf)
  have hdec := decode_encode_valueAt flat hf (harr f hf)
  rw [call_get hfun hf] at hrun
  obtain ⟨rfl, rfl⟩ := returnBool_inj
    (getGetter_direct wf hh hf hl (flat.isStruct f hf) hri hlen hout) hrun
  have hk : ∀ d, E.Owns S w d → (w.heap.update x (xblk.overwrite o.toNat
      (E.encode f.type (E.valueAt S blk f)))).block? d = w.heap.block? d := fun d hd =>
    Heap.block?_update_ne _ (hne d hd) _
  have hv := outVal_eq hout hlen hdec (Heap.block?_update_self hout.live _)
  refine ⟨?_, hrep.frame ⟨_, w.structs⟩ rfl hk⟩
  cases hr : f.isRepeated with
  | true =>
    have hl' := (hk b (Or.inl hb)).trans hl
    have hitems : E.itemsAt (w.heap.update x (xblk.overwrite o.toNat
        (E.encode f.type (E.valueAt S blk f)))) f.elem (E.valueAt S blk f).asPtr
        (E.countAt S blk (S.countOf f)).toNat = r.items f := by
      rw [← hshow.items f hf hr]
      exact itemsIn_congr rfl rfl (harr f hf hr) fun d hp =>
        hk d (Or.inr ⟨b, f, hb, hf, hr, blk, hl, hp⟩)
    simp only [denote, observe, output, hr, if_true, hv, countOfSelf_base hl' rfl, hitems]
    exact .getItems hst
  | false =>
    cases hcnt : f.isCount with
    | true =>
      obtain ⟨-, hg, hrg, hco⟩ := wf.arrayOf_spec hf hcnt
      have hval : (E.valueAt S blk f).asInt = (r.items (S.arrayOf f)).length := by
        rw [← hshow.items _ hg hrg, length_itemsIn, hco, valueAt, (wf.count_spec hf hcnt).1,
          decode_i64]
        rfl
      simp only [denote, observe, output, hr, hcnt, if_true, hv, hval]
      exact .getCount hst
    | false =>
      have hval : (E.valueAt S blk f).asInt = r.scalar f := hshow.scalar f hf hr hcnt
      simp only [denote, observe, output, hr, hcnt, hv, hval]
      exact .get hst

/-- The getter of an immutable array stores a pointer to a copy. -/
theorem getCopy_refines (hb : b ∈ w.structs) (hf : f ∈ S.fields) (hr : f.isRepeated = true)
    (hm : f.isMutable = false) (hA : ∀ t n, E.alloc.succeeds t n = true)
    (hout : OutVal w.heap p (E.layout.storeSize f.type) x o xblk) (hx : ¬ E.Owns S w x) {v : Val}
    (hrun : E.call S (.get f (.base b) p) w.heap = .ok (v, h')) :
    Record.Step Field.isMutable st
      (E.denote S w.heap (.get f (.base b) p), E.observe S h' (.get f (.base b) p) v) st ∧
    E.Represents S ⟨h', w.structs⟩ st := by
  obtain ⟨blk, r, hl, hh, harr, hst, hshow⟩ := hrep.struct hb
  have hne : ∀ d, E.Owns S w d → d ≠ x := fun d hd he => hx (he ▸ hd)
  have wf := flat.toWellFormed
  obtain ⟨hread, hsize⟩ := (harr f hf hr).readable hr
  have ht := (wf.array_spec hf hr).1
  rw [call_get hfun hf] at hrun
  rcases getGetter_copy wf hh hf hr hl hm hread hout with ⟨-, copy, hcells, hget⟩ | ⟨hfail, -⟩
  · obtain ⟨rfl, rfl⟩ := returnBool_inj hget hrun
    have hxn : w.heap.next ≠ x := Nat.ne_of_gt (Heap.lt_next hout.live)
    have hk : ∀ d, E.Owns S w d → ((w.heap.push copy).update x (xblk.overwrite o.toNat
        (E.encode f.type (.ptr (.base w.heap.next))))).block? d = w.heap.block? d := by
      intro d hd
      rw [Heap.block?_update_ne _ (hne d hd),
        Heap.block?_push_of_lt (hrep.owned.lt_next hd)]
    have hv : E.outVal ((w.heap.push copy).update x (xblk.overwrite o.toNat
        (E.encode f.type (.ptr (.base w.heap.next))))) f.type p = .ptr (.base w.heap.next) := by
      refine outVal_eq hout ?_ ?_
        (Heap.block?_update_self (Heap.block?_push_of_some hout.live copy) _)
      · exact length_ptr_slot wf hf hr _
      · rw [ht]
        exact decode_encode_loc E _ _ _ _
    refine ⟨?_, hrep.frame ⟨_, w.structs⟩ rfl hk⟩
    have hl' := (hk b (Or.inl hb)).trans hl
    have hitems : E.itemsAt ((w.heap.push copy).update x (xblk.overwrite o.toNat
        (E.encode f.type (.ptr (.base w.heap.next))))) f.elem (.base w.heap.next)
        (E.countAt S blk (S.countOf f)).toNat = r.items f := by
      have hcopy : ((w.heap.push copy).update x (xblk.overwrite o.toNat
          (E.encode f.type (.ptr (.base w.heap.next))))).block? w.heap.next = some copy := by
        rw [Heap.block?_update_ne _ hxn, Heap.block?_push_self]
      have hclen : copy.cells.length = E.exactSizeFor f (E.countAt S blk (S.countOf f)) := by
        rw [hcells, Heap.length_bytesAt hread, hsize]
      rw [← hshow.items f hf hr, itemsIn, itemsAt, itemsAt, Heap.bytesAt,
        Heap.read_loc hcopy (by simpa [exactSizeFor] using Nat.le_of_eq hclen.symm)]
      show E.itemsOf f.elem (slice copy.cells 0 (E.exactSizeFor f _)) _ = _
      rw [← hclen, slice_self, hcells, hsize]
      rfl
    simp only [denote, observe, output, hr, if_true, hv, countOfSelf_base hl' rfl, Val.asPtr,
      hitems]
    exact .getItems hst
  · rw [hA] at hfail
    cases hfail

theorem get_refines {Self : Ptr} (hc : E.Proper S w (.get f Self p))
    (hA : ∀ t n, E.alloc.succeeds t n = true) {v : Val}
    (hrun : E.call S (.get f Self p) w.heap = .ok (v, h')) :
    Record.Step Field.isMutable st
      (E.denote S w.heap (.get f Self p), E.observe S h' (.get f Self p) v) st ∧
    E.Represents S ⟨h', w.structs⟩ st := by
  obtain ⟨⟨b, hb, rfl⟩, hf, x, o, xblk, hout, hx⟩ := hc
  cases hri : (f.isRepeated && !f.isMutable) with
  | false => exact getDirect_refines hrep flat hfun hb hf hri hout hx hrun
  | true =>
    simp only [Bool.and_eq_true, Bool.not_eq_true'] at hri
    exact getCopy_refines hrep flat hfun hb hf hri.1 hri.2 hA hout hx hrun

theorem getItem_refines {Self : Ptr} {idx : I64} (hc : E.Proper S w (.getItem f Self idx p))
    {v : Val} (hrun : E.call S (.getItem f Self idx p) w.heap = .ok (v, h')) :
    Record.Step Field.isMutable st
      (E.denote S w.heap (.getItem f Self idx p), E.observe S h' (.getItem f Self idx p) v) st ∧
    E.Represents S ⟨h', w.structs⟩ st := by
  obtain ⟨⟨b, hb, rfl⟩, hf, hr, x, o, xblk, hout, hx⟩ := hc
  obtain ⟨blk, r, hl, hh, harr, hst, hshow⟩ := hrep.struct hb
  have hel := flat.elem_not_pointer hf hr
  have hlen : (r.items f).length = (E.countAt S blk (S.countOf f)).toNat := by
    rw [← hshow.items f hf hr, length_itemsIn]
  rw [call_getItem hfun hf hr] at hrun
  rcases getItemGetter_ok flat.toWellFormed hh hf hr hl idx (harr f hf hr) hel hout with
    ⟨hidx, d, arr, hp, hd, hget⟩ | ⟨hidx, hget⟩
  · obtain ⟨rfl, rfl⟩ := returnBool_inj hget hrun
    have hlt : idx.toNat < (r.items f).length := by rw [hlen]; exact hidx
    obtain ⟨d', arr', hp', hd', hfit⟩ :=
      (harr f hf hr).resolve_left fun h => by rw [hp] at h; cases h.1
    obtain rfl : d = d' := (Ptr.loc.inj (hp.symm.trans hp')).1
    obtain rfl := Option.some.inj (hd.symm.trans hd')
    have hitem : (r.items f)[idx.toNat] = E.itemOf f.elem arr.cells idx.toNat := by
      have hget? := getElem?_itemsOf (E := E) (t := f.elem) arr.cells
        (show idx.toNat < (E.countAt S blk (S.countOf f)).toNat from hidx)
      rw [← itemsIn_array hp hd hfit, hshow.items f hf hr, List.getElem?_eq_getElem hlt] at hget?
      exact Option.some.inj hget?
    obtain ⟨hlen', hdec⟩ := decode_encode_decode (E := E) hel (slice arr.cells
      (E.layout.allocSize f.elem * idx.toNat) (E.layout.storeSize f.elem))
    have hv := outVal_eq hout hlen' hdec (Heap.block?_update_self hout.live _)
    refine ⟨?_, hrep.frame ⟨_, w.structs⟩ rfl fun d hd => Heap.block?_update_ne _ ?_ _⟩
    · have hval : (E.decode f.elem (slice arr.cells (E.layout.allocSize f.elem * idx.toNat)
          (E.layout.storeSize f.elem))).asInt = (r.items f)[idx.toNat] := hitem.symm
      simp only [denote, observe, output, hv, hval]
      exact .getItem hst hlt
    · rintro rfl
      exact hx hd
  · obtain ⟨rfl, rfl⟩ := returnBool_inj hget hrun
    refine ⟨.getItem_out hst ?_, hrep⟩
    rw [hlen]
    exact Nat.not_lt.mp hidx

theorem setItem_refines {Self : Ptr} {idx : I64} {a v : Val}
    (hc : E.Proper S w (.setItem f Self idx a)) (hreg : E.Regular S (.setItem f Self idx a))
    (hrun : E.call S (.setItem f Self idx a) w.heap = .ok (v, h')) :
    ∃ st', Record.Step Field.isMutable st
      (E.denote S w.heap (.setItem f Self idx a), E.observe S h' (.setItem f Self idx a) v) st' ∧
    E.Represents S ⟨h', w.structs⟩ st' := by
  obtain ⟨⟨b, hb, rfl⟩, hf, hr, k, rfl⟩ := hc
  have hk : k < 2 ^ E.layout.getTypeSizeInBits f.elem := hreg
  obtain ⟨blk, r, hl, hh, harr, hst, hshow⟩ := hrep.struct hb
  have wf := flat.toWellFormed
  have hlen : (r.items f).length = (E.countAt S blk (S.countOf f)).toNat := by
    rw [← hshow.items f hf hr, length_itemsIn]
  rw [call_setItem hfun hf hr] at hrun
  rcases getItemSetter_ok wf hh hf hr hl idx k (harr f hf hr)
    (array_ne_struct hrep.owned hb hl hf hr) with ⟨hidx, h₁, d, arr, hd, hset, hi⟩ | ⟨hidx, hset⟩
  · obtain ⟨rfl, rfl⟩ := returnBool_inj hset hrun
    obtain ⟨d', arr', hp', hd', hfit⟩ :=
      (harr f hf hr).resolve_left fun h => by rw [hi.ptr] at h; cases h.1
    obtain rfl : d = d' := (Ptr.loc.inj (hi.ptr.symm.trans hp')).1
    obtain rfl := Option.some.inj (hd.symm.trans hd')
    have hfit' : E.exactSizeFor f (E.countAt S blk (S.countOf f)) ≤
        (E.putItem arr f idx k).cells.length := by
      rw [putItem, Block.length_overwrite]
      exact hfit
    have hitems : E.itemsIn S h' blk f = (r.items f).set idx.toNat k := by
      rw [itemsIn_array hi.ptr hi.array hfit',
        itemsOf_putItem (flat.elem_not_pointer hf hr) hk hidx hfit,
        ← itemsIn_array hp' hd' hfit, hshow.items f hf hr]
    have hrep' := hrep.install wf hb hl hst hf hr hi hfit'
    rw [hitems] at hrep'
    exact ⟨_, .setItem hst (by rw [hlen]; exact hidx), hrep'⟩
  · obtain ⟨rfl, rfl⟩ := returnBool_inj hset hrun
    refine ⟨st, .setItem_out hst ?_, hrep⟩
    rw [hlen]
    exact Nat.not_lt.mp hidx

theorem setArray_refines (hA : ∀ t n, E.alloc.succeeds t n = true) {Self src : Ptr} {n : I64}
    {v : Val} (hc : E.Proper S w (.setArray f Self src n))
    (hreg : E.Regular S (.setArray f Self src n))
    (hrun : E.call S (.setArray f Self src n) w.heap = .ok (v, h')) :
    ∃ st', Record.Step Field.isMutable st
      (E.denote S w.heap (.setArray f Self src n), E.observe S h' (.setArray f Self src n) v) st' ∧
    E.Represents S ⟨h', w.structs⟩ st' := by
  obtain ⟨⟨b, hb, rfl⟩, hf, hm, hr, hlt, hread, hown⟩ := hc
  obtain ⟨blk, r, hl, hh, harr, hst, hshow⟩ := hrep.struct hb
  have wf := flat.toWellFormed
  have hsrc : E.Source S w.heap b blk f src n :=
    { size := hlt
      readable := hread
      not_struct := fun o he => hown b o he (Or.inl hb)
      not_array := fun d o hp he => hown d o he (Or.inr ⟨b, f, hb, hf, hr, blk, hl, hp⟩) }
  rw [call_setArray hfun hf hm, getSetter_array flat hf hr] at hrun
  rcases setRepeated_ok wf hh hf hr hl (fun t k _ => hA t k)
    (E.layout.allocSize_pos (flat.elem_isScalar hf hr)) (harr f hf hr)
    (array_ne_struct hrep.owned hb hl hf hr) hsrc (fun h0 => absurd h0 hreg) with
    ⟨h₁, blk', d, arr, hset, hi, hfill⟩ | ⟨h0, -⟩
  · obtain ⟨rfl, rfl⟩ := returnBool_inj hset hrun
    have hrep' := hrep.install wf hb hl hst hf hr hi hfill.1
    rw [itemsIn_filled hi hfill] at hrep'
    exact ⟨_, .setItems hst, hrep'⟩
  · exact absurd h0 hreg

omit hfun in
/-- The store after a scalar was set. -/
theorem setScalar_refines (hb : b ∈ w.structs) (hf : f ∈ S.fields) (hr : f.isRepeated = false)
    (hcnt : f.isCount = false) {k : Nat} (hk : k < 2 ^ E.layout.getTypeSizeInBits f.type)
    (hl : w.heap.block? b = some blk) (hst : st b = some r) :
    E.Represents S ⟨w.heap.update b (E.put S blk f (E.encode f.type (.int k))), w.structs⟩
      (Function.update st b (some (r.setScalar f k))) := by
  obtain ⟨y, r₁, hy, hh, harr, hst₁, hshow⟩ := hrep.struct hb
  obtain rfl := Option.some.inj (hl.symm.trans hy)
  obtain rfl := Option.some.inj (hst.symm.trans hst₁)
  have wf := flat.toWellFormed
  have hlen : (E.encode f.type (.int k)).length = E.layout.storeSize f.type :=
    length_encode_int E _ _
  have hgf : ∀ g, g.isRepeated = true ∨ g.isCount = true → g ≠ f := by
    rintro g hg rfl
    rw [hr, hcnt] at hg
    rcases hg with hg | hg <;> cases hg
  refine hrep.same hb hl hst (hrep.owned.scalar wf hb hl hf hr hcnt hlen)
    (Heap.block?_update_self hl _) (fun g hg hrg => ?_) (fun d hd => Heap.block?_update_ne _ hd _)
    (fun g hg hrg hcg => ?_) rfl
  · exact ⟨ptrAt_congr (slot_put_ne wf hh hf hg (hgf g (Or.inl hrg)) hlen),
      countAt_congr (slot_put_ne wf hh hf (wf.countOf_mem hg hrg)
        (hgf _ (Or.inr (wf.array_spec hg hrg).2.2.2.2.2.2.1)) hlen)⟩
  · by_cases he : g = f
    · subst he
      rw [intAt, slot_put_self wf hh hf hlen,
        decode_encode_int E (not_pointer wf hf (flat.isStruct g hf) hr), Nat.mod_eq_of_lt hk,
        r.scalar_setScalar]
      rfl
    · rw [intAt, slot_put_ne wf hh hf hg he hlen, r.scalar_setScalar_ne he]
      exact hshow.scalar g hg hrg hcg

theorem set_refines (hA : ∀ t n, E.alloc.succeeds t n = true) {Self : Ptr} {a v : Val}
    (hc : E.Proper S w (.set f Self a)) (hreg : E.Regular S (.set f Self a))
    (hrun : E.call S (.set f Self a) w.heap = .ok (v, h')) :
    ∃ st', Record.Step Field.isMutable st
      (E.denote S w.heap (.set f Self a), E.observe S h' (.set f Self a) v) st' ∧
    E.Represents S ⟨h', w.structs⟩ st' := by
  obtain ⟨⟨b, hb, rfl⟩, hf, hm, hr, k, rfl⟩ := hc
  obtain ⟨hk, hlength⟩ : k < 2 ^ E.layout.getTypeSizeInBits f.type ∧ (f.isCount = true → k ≠ 0 ∧
    E.exactSizeFor (S.arrayOf f) (BitVec.ofNat 64 k) < 2 ^ 64) := hreg
  obtain ⟨blk, r, hl, hh, harr, hst, hshow⟩ := hrep.struct hb
  have wf := flat.toWellFormed
  rw [call_set hfun hf hm] at hrun
  cases hcnt : f.isCount with
  | false =>
    obtain ⟨rfl, rfl⟩ := returnBool_inj
      (getSetter_scalar wf hh hf hl (flat.isStruct f hf) hr hcnt k) hrun
    refine ⟨_, ?_, setScalar_refines hrep flat hb hf hr hcnt hk hl hst⟩
    simp only [denote, hcnt]
    exact .set hst
  | true =>
    obtain ⟨hk0, hlt⟩ := hlength hcnt
    obtain ⟨-, hg, hrg, -⟩ := wf.arrayOf_spec hf hcnt
    rw [getSetter_count flat hf hcnt hr] at hrun
    have hkn : (BitVec.ofNat 64 k).toNat = k := by
      rw [(wf.count_spec hf hcnt).1] at hk
      exact Nat.mod_eq_of_lt hk
    rcases setCount_ok wf hh hg hrg hl (fun t k _ => hA t k)
      (E.layout.allocSize_pos (flat.elem_isScalar hg hrg)) (harr _ hg hrg)
      (array_ne_struct hrep.owned hb hl hg hrg) (Or.inl hlt) with
      ⟨-, -, h₁, blk', d, arr, hset, hi, hres⟩ | ⟨hbad, -⟩
    · obtain ⟨rfl, rfl⟩ := returnBool_inj hset hrun
      obtain ⟨hlen, hkeep⟩ := itemsIn_resized (harr _ hg hrg) hi hres
      refine ⟨_, ?_, hrep.install wf hb hl hst hg hrg hi (Nat.le_of_eq hres.1.symm)⟩
      rw [hshow.items _ hg hrg, ← hlen] at hkeep
      have hstep : Record.Step Field.isMutable st _ _ := .setCount hst hkeep
      rw [hlen, hkn] at hstep
      simp only [denote, hcnt, if_true]
      exact hstep
    · rcases hbad with h0 | hge
      · refine absurd ?_ hk0
        rw [← hkn, h0]
        rfl
      · exact absurd hlt (Nat.not_lt.mpr hge)

omit hrep hfun in
/-- A new struct shows the arguments of the constructor. -/
theorem Initialised.shows {arg : Field → Val} (hargs : E.CreateArgs S w.heap arg)
    (hreg : E.Regular S (.create arg)) (hi : E.Initialised S w.heap arg S.fields h' blk) :
    E.Shows S h' blk (Record.initial Field.isMutable ⟨fun f => (arg f).asInt,
      fun f => E.itemsAt w.heap f.elem (arg f).asPtr (S.countArg arg f).toNat⟩) where
  scalar f hf hr _ := by
    have hnp := not_pointer flat.toWellFormed hf (flat.isStruct f hf) hr
    rw [intAt, hi.scalar f hf hr]
    cases hm : f.isMutable with
    | true =>
      simp only [Record.initial, hm, if_true, decode_encode_int E hnp, Nat.zero_mod]
      rfl
    | false =>
      obtain ⟨v, hv⟩ := hargs.scalar f hf hm hr
      have hlt := hreg f hf hm hr
      rw [hv] at hlt
      simp only [Record.initial, hm, Bool.false_eq_true, if_false, hv, decode_encode_int E hnp]
      exact Nat.mod_eq_of_lt hlt
  items f hf hr := by
    have wf := flat.toWellFormed
    have hc := hi.count wf hf hargs hr (wf.countOf_mem hf hr)
    cases hm : f.isMutable with
    | true =>
      rw [hm, if_pos rfl] at hc
      simp only [Record.initial, hm, if_true]
      exact itemsIn_null hc
    | false =>
      rw [hm, if_neg Bool.false_ne_true] at hc
      obtain ⟨d, arr, hp, -, hd, hcells⟩ := hi.array f hf hr hm
      have hlen := Heap.length_bytesAt (hargs.array f hf hm hr).2
      simp only [Record.initial, hm, Bool.false_eq_true, if_false]
      rw [itemsIn_array hp hd (by rw [hc, hcells, hlen]), hc, hcells]
      rfl

theorem create_refines (hA : ∀ t n, E.alloc.succeeds t n = true) (hcf : S.CountsFirst)
    (hstruct : E.layout.structSize S.packed S.elements < 2 ^ 64) {arg : Field → Val} {v : Val}
    (hc : E.Proper S w (.create arg)) (hreg : E.Regular S (.create arg))
    (hrun : E.call S (.create arg) w.heap = .ok (v, h')) :
    ∃ st', Record.Step Field.isMutable st
      (E.denote S w.heap (.create arg), E.observe S h' (.create arg) v) st' ∧
    E.Represents S ⟨h', structsAfter w.structs (.create arg) v⟩ st' := by
  have ho := hrep.owned
  rw [call_create hfun] at hrun
  rcases getConstructor_ok flat hcf hstruct hc with ⟨h₁, blk, hnew, hi⟩ | ⟨⟨t, n, hfail⟩, -⟩
  · obtain ⟨rfl, rfl⟩ : Val.ptr (.base w.heap.next) = v ∧ h₁ = h' := by
      have := (bind_of_ok hnew : returnPtr _ _ = _).symm.trans hrun
      simpa [pure_apply] using this
    have hmem : ∀ x, x ∈ structsAfter w.structs (.create arg) (.ptr (.base w.heap.next)) ↔
        x ∈ w.structs ∨ x = w.heap.next := fun x =>
      or_congr_right ⟨fun h => (Ptr.loc.inj (Val.ptr.inj h)).1.symm, fun h => by rw [h]⟩
    have hfresh : w.heap.next ∉ w.structs := fun h =>
      Nat.lt_irrefl _ (ho.lt_next (Or.inl h))
    refine ⟨_, .create (hrep.absent _ hfresh), ho.created flat.toWellFormed hc hi,
      fun x hx => ?_, fun x hx => ?_⟩
    · have hx' := fun h => hx ((hmem x).mpr h)
      have hne : x ≠ w.heap.next := fun h => hx' (Or.inr h)
      exact (Function.update_of_ne hne _ _).trans (hrep.absent x fun h => hx' (Or.inl h))
    · rcases (hmem x).mp hx with hx | rfl
      · obtain ⟨y, r, hl, -, harr, hst, hshow⟩ := hrep.struct hx
        have hne : x ≠ w.heap.next := fun h => hfresh (h ▸ hx)
        refine ⟨y, r, (hi.other x (ho.lt_next (Or.inl hx))).trans hl,
          (Function.update_of_ne hne _ _).trans hst, hshow.frame harr fun f hf hr d hp => ?_⟩
        exact hi.other d (ho.lt_next (Or.inr ⟨x, f, hx, hf, hr, y, hl, hp⟩))
      · exact ⟨blk, _, hi.block, Function.update_self _ _ _, hi.shows flat hc hreg⟩
  · rw [hA] at hfail
    cases hfail

theorem destroy_refines {Self : Ptr} {v : Val} (hc : E.Proper S w (.destroy Self))
    (hrun : E.call S (.destroy Self) w.heap = .ok (v, h')) :
    ∃ st', Record.Step Field.isMutable st
      (E.denote S w.heap (.destroy Self), E.observe S h' (.destroy Self) v) st' ∧
    E.Represents S ⟨h', structsAfter w.structs (.destroy Self) v⟩ st' := by
  obtain ⟨b, hb, rfl⟩ := hc
  obtain ⟨blk, r, hl, hh, -, hst, -⟩ := hrep.struct hb
  have ho := hrep.owned
  rw [call_destroy hfun] at hrun
  obtain ⟨h₁, hfree, -, -, hk⟩ := getDestructor_ok flat hl hh (ho.disposable hb hl)
  obtain ⟨rfl, rfl⟩ : Val.int 0 = v ∧ h₁ = h' := by
    have := (bind_of_ok hfree : returnVoid _ _ = _).symm.trans hrun
    simpa [pure_apply] using this
  have hmem : ∀ x, x ∈ structsAfter w.structs (.destroy (.base b)) (.int 0) ↔
      x ∈ w.structs ∧ x ≠ b := fun x =>
    and_congr_right fun _ => not_congr ⟨fun h => (Ptr.loc.inj h).1.symm, fun h => by rw [h]⟩
  refine ⟨_, .destroy hst, ho.destroyed hb hl hk, fun x hx => ?_, fun x hx => ?_⟩
  · by_cases hne : x = b
    · subst hne
      exact Function.update_self _ _ _
    · exact (Function.update_of_ne hne _ _).trans
        (hrep.absent x fun h => hx ((hmem x).mpr ⟨h, hne⟩))
  · obtain ⟨hx, hne⟩ := (hmem x).mp hx
    obtain ⟨y, r', hly, -, harr, hst', hshow⟩ := hrep.struct hx
    refine ⟨y, r', ?_, (Function.update_of_ne hne _ _).trans hst', hshow.frame harr
      fun f hf hr d hp => ?_⟩
    · exact (hk x hne fun f hf hr hp =>
        ho.disjoint b f x ⟨hb, hf, hr, blk, hl, hp⟩ hx).trans hly
    · have hown : E.HasArray S w x f d := ⟨hx, hf, hr, y, hly, hp⟩
      refine hk d ?_ fun g hg hrg hpg => ?_
      · rintro rfl
        exact ho.disjoint _ _ _ hown hb
      · exact hne (ho.unique x f b g d hown ⟨hb, hg, hrg, blk, hl, hpg⟩).1

/-- A proper and regular call does what its operation does. -/
theorem call_refines (hA : ∀ t n, E.alloc.succeeds t n = true) (hcf : S.CountsFirst)
    (hstruct : E.layout.structSize S.packed S.elements < 2 ^ 64) {c : Call} {v : Val}
    (hc : E.Proper S w c) (hreg : E.Regular S c) (hrun : E.call S c w.heap = .ok (v, h')) :
    ∃ st', Record.Step Field.isMutable st (E.denote S w.heap c, E.observe S h' c v) st' ∧
      E.Represents S ⟨h', structsAfter w.structs c v⟩ st' := by
  cases c with
  | create arg => exact create_refines hrep flat hfun hA hcf hstruct hc hreg hrun
  | get f Self p => exact ⟨st, get_refines hrep flat hfun hc hA hrun⟩
  | getItem f Self idx p => exact ⟨st, getItem_refines hrep flat hfun hc hrun⟩
  | set f Self a => exact set_refines hrep flat hfun hA hc hreg hrun
  | setArray f Self src n => exact setArray_refines hrep flat hfun hA hc hreg hrun
  | setItem f Self idx a => exact setItem_refines hrep flat hfun hc hreg hrun
  | destroy Self => exact destroy_refines hrep flat hfun hc hrun

end Calls

theorem Regular.safe {c : Call} (hreg : E.Regular S c) (hcf : S.CountsFirst) : E.Safe S w c := by
  cases c with
  | create arg => exact hcf
  | set f Self v => exact fun hcnt b blk _ _ => Or.inl (hreg.2 hcnt).2
  | setArray f Self src n => exact fun h0 => absurd h0 hreg
  | get f Self p => trivial
  | getItem f Self idx p => trivial
  | setItem f Self idx v => trivial
  | destroy Self => trivial

variable (E S) in
/-- One call as its caller sees it: the operation meant and the result observed. -/
def ObservedStep (w : World) (e : Record.Op Field × Record.Result) (w' : World) : Prop :=
  ∃ w₁ c v, E.CallerStep S w w₁ ∧ E.Proper S w₁ c ∧ E.Regular S c ∧
    E.CallStep S w₁.heap (c, v) w'.heap ∧ w'.structs = structsAfter w.structs c v ∧
    e = (E.denote S w₁.heap c, E.observe S w'.heap c v)

end Env

open Env

/-- Every run of proper and regular calls, whatever the caller does in between, is a run of the
    store of records with the same operations and results; and wherever it has got to, every
    such call returns. -/
theorem accessors_refine {A : Allocator} {DL : DataLayout} {S : Struct} (flat : S.IsFlat)
    (hn : S.DistinctNames) (hcf : S.CountsFirst)
    (hstruct : DL.structSize S.packed S.elements < 2 ^ 64)
    (hA : ∀ t n, A.succeeds t n = true) {w₀ w : World} (h₀ : w₀.structs = ∅)
    {es : List (Record.Op Field × Record.Result)}
    (hrun : Run (ObservedStep (Env.ofStruct A DL S) S) w₀ es w) :
    (∃ st, Run (Record.Step Field.isMutable) (fun _ => none) es st ∧
      (Env.ofStruct A DL S).Represents S w st) ∧
    ∀ w₁ c, (Env.ofStruct A DL S).CallerStep S w w₁ → (Env.ofStruct A DL S).Proper S w₁ c →
      (Env.ofStruct A DL S).Regular S c →
      ∃ v h', (Env.ofStruct A DL S).call S c w₁.heap = .ok (v, h') := by
  have hfun := resolves_ofStruct A DL hn
  have hstart : (Env.ofStruct A DL S).Represents S w₀ fun _ => none :=
    ⟨owned_of_empty h₀, fun _ _ => rfl, fun b hb => by rw [h₀] at hb; exact hb.elim⟩
  have hsim : ∀ w st e w', (Env.ofStruct A DL S).Represents S w st →
      ObservedStep (Env.ofStruct A DL S) S w e w' →
      ∃ st', Record.Step Field.isMutable st e st' ∧ (Env.ofStruct A DL S).Represents S w' st' := by
    rintro w st e w' hrep ⟨w₁, c, v, hcaller, hproper, hreg, hcall, hs, rfl⟩
    obtain ⟨st', h1, h2⟩ := call_refines (hrep.frame w₁ hcaller.1 hcaller.2) flat hfun hA hcf
      hstruct hproper hreg hcall
    rw [hcaller.1, ← hs] at h2
    exact ⟨st', h1, h2⟩
  obtain ⟨st, hst, hrep⟩ := hrun.simulates hsim hstart
  refine ⟨⟨st, hst, hrep⟩, fun w₁ c hcaller hproper hreg => ?_⟩
  obtain ⟨v, h', hok, -⟩ := call_owned (hrep.owned.caller hcaller) flat hfun
    (fun t n _ => hA t n) hstruct hproper (hreg.safe hcf)
  exact ⟨v, h', hok⟩

theorem accessors_refine_path : ∃ es w,
    Run (ObservedStep (Env.ofStruct .calloc .default pathStruct) pathStruct) ⟨⟨[], 0⟩, ∅⟩ es w ∧
    es.length = 2 ∧
    (∃ st, Run (Record.Step Field.isMutable) (fun _ => none) es st ∧
      (Env.ofStruct .calloc .default pathStruct).Represents pathStruct w st) ∧
    ∀ w₁ c, (Env.ofStruct .calloc .default pathStruct).CallerStep pathStruct w w₁ →
      (Env.ofStruct .calloc .default pathStruct).Proper pathStruct w₁ c →
      (Env.ofStruct .calloc .default pathStruct).Regular pathStruct c →
      ∃ v h', (Env.ofStruct .calloc .default pathStruct).call pathStruct c w₁.heap =
        .ok (v, h') := by
  -- a path with index 7 is created and gets two elements of x
  have hcreate := create_pathWorld (fun _ _ => True) trivial
  have hset := setCount_pathWorld (fun _ _ => True) (n := 2) trivial
    ⟨[some (grownPath 2), some (Allocator.calloc.fresh 1 8)], 2⟩ rfl
  obtain ⟨es, w, hrun, hlen⟩ : ∃ es w, Run (ObservedStep (Env.ofStruct .calloc .default pathStruct)
      pathStruct) ⟨⟨[], 0⟩, ∅⟩ es w ∧ es.length = 2 := by
    obtain ⟨w₁, hc₁, hp₁, -, hs₁, ht₁⟩ := hcreate
    obtain ⟨w₂, hc₂, hp₂, -, hs₂, ht₂⟩ := hset
    refine ⟨_, _, .cons ⟨w₁, _, _, hc₁, hp₁, ?_, hs₁, ht₁, rfl⟩ (.cons ⟨w₂, _, _, hc₂, hp₂,
      ⟨by decide, fun _ => by decide⟩, hs₂, ht₂, rfl⟩ (.nil _)), rfl⟩
    unfold Regular
    decide
  exact ⟨es, w, hrun, hlen, accessors_refine pathStruct_isFlat pathStruct_distinctNames (by decide)
    (by decide) (fun _ _ => rfl) rfl hrun⟩

end Tyr
