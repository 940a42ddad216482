import Tyr.Access.Shield

/-
  Immutable fields.

  There is no setter for an immutable field, and the getter of an immutable array gives out a
  copy. But `set_S_f_item` is generated for every array, so it changes the elements of an
  immutable one as well (`immutable_changes`). In runs whose calls are otherwise (`Spares`) each
  immutable field keeps the value passed to `create_S`: `immutables_keep`.
-/

namespace Tyr

open Prog

/-- A call of a function with external linkage. -/
inductive Api where
  | accessor (c : Call)
  | serialize (Self : Ptr)
  | deserialize (SerializedSelf : Ptr)

/-- The function exists, and scalar parameters are passed numbers. -/
def Api.Emitted (S : Struct) : Api → Prop
  | accessor (.create arg) => Env.ScalarArgs S arg
  | accessor (.get f _ _) => f ∈ S.fields
  | accessor (.getItem f _ _ _) => f ∈ S.fields ∧ f.isRepeated = true
  | accessor (.set f _ v) => f ∈ S.fields ∧ f.isMutable = true ∧ f.isRepeated = false ∧
      ∃ k, v = .int k
  | accessor (.setArray f _ _ _) => f ∈ S.fields ∧ f.isMutable = true ∧ f.isRepeated = true
  | accessor (.setItem f _ _ _) => f ∈ S.fields ∧ f.isRepeated = true
  | accessor (.destroy _) => True
  | serialize _ => True
  | deserialize _ => True

/-- The structs after a call that returned `v`. -/
def Api.structsAfter (structs : Set Nat) : Api → Val → Set Nat
  | accessor (.create _), v => Env.withResult structs v.asPtr
  | deserialize _, v => Env.withResult structs v.asPtr
  | _, _ => structs

namespace Env

variable (E : Env) (S : Struct)

def callApi : Api → Prog Val
  | .accessor c => E.call S c
  | .serialize Self => returnPtr (E.getSerializer S Self)
  | .deserialize SerializedSelf => returnPtr (E.getDeserializer S SerializedSelf)

/-- NULL, or a struct that `create_S` or `deserialize_S` returned. -/
def IsStruct (structs : Set Nat) (Self : Ptr) : Prop := Self = .null ∨ ∃ b ∈ structs, Self = .base b

/-- What a call must not do to struct `s`, which was as in `h₁` when it was created: set an element
    of an immutable array, destroy the struct, put a value out into a struct or into an immutable
    array of `s`. -/
def Spares (s : Nat) (h₁ : Heap) (structs : Set Nat) : Api → Prop
  | .accessor (.get _ _ p) => p.Into (E.Outside S s h₁ structs)
  | .accessor (.getItem _ _ _ p) => p.Into (E.Outside S s h₁ structs)
  | .accessor (.set _ Self _) => IsStruct structs Self
  | .accessor (.setArray _ Self _ _) => IsStruct structs Self
  | .accessor (.setItem f Self idx _) => IsStruct structs Self ∧
      (Self = .base s → f.isMutable = false → ∀ blk, h₁.block? s = some blk →
        ¬ idx < E.countAt S blk (S.countOf f))
  | .accessor (.destroy Self) => IsStruct structs Self ∧ Self ≠ .base s
  | _ => True

/-- The caller works on blocks that are neither structs nor immutable arrays of `s`, and then
    makes a call that spares `s`. -/
def ApiStep (s : Nat) (h₁ : Heap) (w : World) (e : Api × Val) (w' : World) : Prop :=
  ∃ h, w.heap.next ≤ h.next ∧
    (∀ d < w.heap.next, ¬ E.Outside S s h₁ w.structs d → h.block? d = w.heap.block? d) ∧
    e.1.Emitted S ∧ E.Spares S s h₁ w.structs e.1 ∧ E.callApi S e.1 h = .ok (e.2, w'.heap) ∧
    w'.structs = e.1.structsAfter w.structs e.2

/-- The getters of struct `s` show for each immutable field the argument that `create_S` was given
    in heap `h₀`; the getter of an array fails when there is no memory for the copy. -/
structure Kept (h₀ : Heap) (arg : Field → Val) (s : Nat) (h : Heap) : Prop where
  scalar : ∀ f ∈ S.fields, f.isMutable = false → f.isRepeated = false → ∀ p x o xblk,
    OutVal h p (E.layout.storeSize f.type) x o xblk →
      ∃ h', E.call S (.get f (.base s) p) h = .ok (.int 1, h') ∧
        E.outVal h' f.type p = .int ((arg f).asInt % 2 ^ E.layout.getTypeSizeInBits f.type)
  array : ∀ f ∈ S.fields, f.isMutable = false → f.isRepeated = true → ∀ p x o xblk,
    OutVal h p (E.layout.storeSize f.type) x o xblk →
      (∃ h', E.call S (.get f (.base s) p) h = .ok (.int 1, h') ∧
        E.itemsAt h' f.elem (E.outVal h' f.type p).asPtr (S.countArg arg f).toNat =
          E.itemsAt h₀ f.elem (arg f).asPtr (S.countArg arg f).toNat) ∨
      (E.alloc.succeeds h.calls (E.exactSizeFor f (S.countArg arg f)) = false ∧
        E.call S (.get f (.base s) p) h = .ok (.int 0, h.tick))
  item : ∀ f ∈ S.fields, f.isMutable = false → f.isRepeated = true → ∀ idx p x o xblk,
    OutVal h p (E.layout.storeSize f.elem) x o xblk →
      if idx < S.countArg arg f then
        ∃ h' v, E.call S (.getItem f (.base s) idx p) h = .ok (.int 1, h') ∧
          E.outVal h' f.elem p = .int v ∧
          (E.itemsAt h₀ f.elem (arg f).asPtr (S.countArg arg f).toNat)[idx.toNat]? = some v
      else E.call S (.getItem f (.base s) idx p) h = .ok (.int 0, h)

/-- No array of a struct leads to a struct. -/
def Separate (w : World) : Prop :=
  ∀ b ∈ w.structs, b < w.heap.next ∧ ∀ blk, w.heap.block? b = some blk → E.Holds S blk ∧
    ∀ f ∈ S.fields, f.isRepeated = true →
      PointersIn (fun d => d ∉ w.structs) (E.slot S blk f) w.heap

variable {E S} {w w' : World} {s : Nat} {h₀ h₁ h h' : Heap} {blk blk₁ : Block} {f : Field}
  {arg : Field → Val}

/-! ## The start of a run -/

/-- An array slot holds the pointer that is read there. -/
theorem slot_eq_encodePtr (wf : S.WellFormed) (hf : f ∈ S.fields) (hr : f.isRepeated = true)
    (blk : Block) : E.slot S blk f = encodePtr E.layout.pointerSize (E.ptrAt S blk f) := by
  rw [ptrAt, (wf.array_spec hf hr).1]
  exact (encodePtr_decodePtr _ _).symm

theorem Initialised.shielded (wf : S.WellFormed) (hsep : E.Separate S w)
    (hi : E.Initialised S w.heap arg S.fields h₁ blk) :
    E.Shielded S w.heap.next h₁ (insert w.heap.next w.structs) h₁ := by
  have hfixed : ∀ d, E.Fixed S w.heap.next h₁ d → w.heap.next < d ∧ d < h₁.next := by
    rintro d ⟨f, hf, hr, hm, blk', hl, hp⟩
    obtain rfl : blk = blk' := Option.some.inj (hi.block.symm.trans hl)
    obtain ⟨d', arr, hp', hlt, hd, -⟩ := hi.array f hf hr hm
    obtain rfl := (Ptr.loc.inj (hp.symm.trans hp')).1
    exact ⟨hlt, Heap.lt_next hd⟩
  have hself := Heap.lt_next hi.block
  refine ⟨⟨blk, blk, hi.block, hi.block, fun _ _ _ => rfl⟩, fun d hd => ⟨(hfixed d hd).2, rfl⟩,
    fun b hb => ?_, Set.mem_insert _ _, fun b hb blk' hl => ?_⟩
  · rcases Set.mem_insert_iff.mp hb with rfl | hb
    · exact ⟨hself, fun hd => Nat.lt_irrefl _ (hfixed _ hd).1⟩
    · have hlt := (hsep b hb).1
      exact ⟨Nat.lt_trans hlt hself, fun hd => Nat.lt_asymm hlt (hfixed b hd).1⟩
  · rcases Set.mem_insert_iff.mp hb with rfl | hb
    · -- the mutable arrays of the new struct are NULL
      obtain rfl : blk = blk' := Option.some.inj (hi.block.symm.trans hl)
      refine ⟨hi.holds, fun f hf hr ho => ?_⟩
      rw [slot_eq_encodePtr wf hf hr, hi.null f hf hr (ho rfl)]
      exact .encodePtr_null _ _
    · obtain ⟨hlt, hold⟩ := hsep b hb
      obtain ⟨hholds, hslots⟩ := hold blk' ((hi.other b hlt).symm.trans hl)
      refine ⟨hholds, fun f hf hr _ => ((hslots f hf hr).imp fun d hd hout => ?_).mono
        (Nat.le_of_lt hself)⟩
      refine ⟨fun hm => ?_, fun hfx => Nat.lt_asymm hd (hfixed d hfx).1⟩
      rcases Set.mem_insert_iff.mp hm with rfl | hm
      · exact Nat.lt_irrefl _ hd
      · exact hout hm

/-! ## Steps -/

/-- What returns no struct leaves the set of structs. -/
theorem returnBool_triple {I : Heap → Prop} {x : Prog Bool} (hx : Triple I x fun _ h => I h) :
    Triple I (returnBool x) fun _ h => I h := .bind hx fun _ => .pure fun _ hh => hh

theorem callApi_shielded (flat : S.IsFlat) (hfun : Resolves E S) (hcl : E.Closed)
    (hstruct : E.layout.structSize S.packed S.elements < 2 ^ 64) {structs : Set Nat} {a : Api}
    (hem : a.Emitted S) (hsp : E.Spares S s h₁ structs a) :
    Triple (E.Shielded S s h₁ structs) (E.callApi S a) fun v h =>
      E.Shielded S s h₁ (a.structsAfter structs v) h := by
  have wf := flat.toWellFormed
  have hreturn : ∀ {x : Prog Ptr}, Triple (E.Shielded S s h₁ structs) x
      (fun r h => E.Shielded S s h₁ (withResult structs r) h) →
      Triple (E.Shielded S s h₁ structs) (returnPtr x)
        fun v h => E.Shielded S s h₁ (withResult structs v.asPtr) h :=
    fun hx => .bind hx fun _ => .pure fun _ hh => hh
  have hnull : ∀ {x : Prog Bool}, Triple (E.Shielded S s h₁ structs)
      (insertNullCheck [.null] false x) fun _ h => E.Shielded S s h₁ structs h := by
    intro x
    rw [insertNullCheck_null]
    exact .pure fun _ hh => hh
  cases a with
  | accessor c =>
    show Triple _ (E.call S c) _
    cases c with
    | create arg =>
      rw [call_create hfun]
      exact hreturn (getConstructor_shielded flat hstruct hem)
    | get f Self p =>
      rw [call_get hfun hem]
      exact returnBool_triple (Shielded.frame.getGetter hcl S hsp Self)
    | getItem f Self idx p =>
      rw [call_getItem hfun hem.1 hem.2]
      exact returnBool_triple (Shielded.frame.getItemGetter S E hsp Self idx)
    | set f Self v =>
      obtain ⟨hf, hm, hr, hv⟩ := hem
      rw [call_set hfun hf hm]
      refine returnBool_triple ?_
      rcases hsp with rfl | ⟨b, hb, rfl⟩
      · exact hnull
      · exact getSetter_shielded flat hb hf hm (fun _ => hv) 0
    | setArray f Self src n =>
      obtain ⟨hf, hm, hr⟩ := hem
      rw [call_setArray hfun hf hm]
      refine returnBool_triple ?_
      rcases hsp with rfl | ⟨b, hb, rfl⟩
      · exact hnull
      · refine getSetter_shielded flat hb hf hm (fun hr' => ?_) n
        rw [hr] at hr'
        cases hr'
    | setItem f Self idx v =>
      obtain ⟨hf, hr⟩ := hem
      rw [call_setItem hfun hf hr]
      refine returnBool_triple ?_
      obtain ⟨rfl | ⟨b, hb, rfl⟩, hidx⟩ := hsp
      · unfold getItemSetter
        split
        · exact hnull
        · exact .fault _
      · by_cases ho : Open s b f
        · exact getItemSetter_shielded wf hb hf ho hr idx v
        · -- an immutable array of `s`, and the index is out of range
          obtain ⟨rfl, hm⟩ : b = s ∧ f.isMutable = false := by simpa [Open] using ho
          intro h ok h' hs hrun
          obtain ⟨blk₁, blk, h1, hl, hsame⟩ := hs.self
          have hcm := wf.countOf_mem hf hr
          have hcount : E.countAt S blk (S.countOf f) = E.countAt S blk₁ (S.countOf f) :=
            countAt_congr (hsame _ hcm ((wf.array_spec hf hr).2.2.2.2.2.2.2.2.1.trans hm))
          rw [getItemSetter_out_of_range wf hl (hs.struct b hb blk hl).1 hf hr
            (by rw [hcount]; exact hidx rfl hm blk₁ h1)] at hrun
          cases hrun
          exact hs
    | destroy Self =>
      rw [call_destroy hfun]
      obtain ⟨rfl | ⟨b, hb, rfl⟩, hne⟩ := hsp
      · exact .bind (getDestructor_null _) fun _ => .pure fun _ hh => hh
      · have hbs : b ≠ s := fun he => hne (by rw [he])
        exact .bind (getDestructor_shielded flat hb hbs) fun _ => .pure fun _ hh => hh
  | serialize Self =>
    refine .bind (Shielded.frame.getSerializer hcl S Self) fun _ => ?_
    exact .pure fun _ hh => hh.1
  | deserialize p => exact hreturn (getDeserializer_shielded flat hstruct hfun p)

theorem ApiStep.shielded (flat : S.IsFlat) (hfun : Resolves E S) (hcl : E.Closed)
    (hstruct : E.layout.structSize S.packed S.elements < 2 ^ 64) {e : Api × Val}
    (hstep : E.ApiStep S s h₁ w e w') (hs : E.Shielded S s h₁ w.structs w.heap) :
    E.Shielded S s h₁ w'.structs w'.heap := by
  obtain ⟨h, hle, heq, hem, hsp, hrun, hafter⟩ := hstep
  rw [hafter]
  exact callApi_shielded flat hfun hcl hstruct hem hsp h e.2 _ (hs.congr hle heq) hrun

/-! ## What the getters show -/

theorem bytesAt_block {d n : Nat} {arr : Block} (hd : h.block? d = some arr)
    (hn : arr.cells.length = n) : h.bytesAt (.base d) n = arr.cells := by
  subst hn
  rw [Heap.bytesAt, Heap.read_loc hd (by simp)]
  exact slice_self _

section Observe

variable (flat : S.IsFlat) (hargs : E.CreateArgs S h₀ arg)
  (hi : E.Initialised S h₀ arg S.fields h₁ blk₁) {structs : Set Nat}
  (hs : E.Shielded S h₀.next h₁ structs h)
include hi hs

/-- The struct and its immutable slots. -/
theorem Shielded.live : ∃ blk, h.block? h₀.next = some blk ∧ E.Holds S blk ∧
    ∀ f ∈ S.fields, f.isMutable = false → E.slot S blk f = E.slot S blk₁ f := by
  obtain ⟨blk₁', blk, h1, hl, hsame⟩ := hs.self
  obtain rfl : blk₁ = blk₁' := Option.some.inj (hi.block.symm.trans h1)
  exact ⟨blk, hl, (hs.struct _ hs.mem blk hl).1, hsame⟩

include flat hargs

/-- An immutable array holds the caller's elements. -/
theorem Shielded.array_live
    (hsame : ∀ f ∈ S.fields, f.isMutable = false → E.slot S blk f = E.slot S blk₁ f)
    (hf : f ∈ S.fields) (hm : f.isMutable = false) (hr : f.isRepeated = true) :
    ∃ d arr, E.ptrAt S blk f = .base d ∧ h.block? d = some arr ∧
      arr.cells = h₀.bytesAt (arg f).asPtr (E.exactSizeFor f (S.countArg arg f)) ∧
      arr.cells.length = E.exactSizeFor f (S.countArg arg f) ∧
      E.countAt S blk (S.countOf f) = S.countArg arg f := by
  have wf := flat.toWellFormed
  have hcm := wf.countOf_mem hf hr
  obtain ⟨d, arr, hp, -, hd, hcells⟩ := hi.array f hf hr hm
  have hfixed : E.Fixed S h₀.next h₁ d := ⟨f, hf, hr, hm, blk₁, hi.block, hp⟩
  have hcount := hi.count wf hf hargs hr hcm
  rw [hm, if_neg Bool.false_ne_true] at hcount
  refine ⟨d, arr, (ptrAt_congr (hsame f hf hm)).trans hp, (hs.array d hfixed).2.trans hd, hcells,
    by rw [hcells, Heap.length_bytesAt (hargs.array f hf hm hr).2], ?_⟩
  rw [← hcount]
  exact countAt_congr (hsame _ hcm ((wf.array_spec hf hr).2.2.2.2.2.2.2.2.1.trans hm))

theorem Shielded.kept_scalar (hfun : Resolves E S) (hf : f ∈ S.fields) (hm : f.isMutable = false)
    (hr : f.isRepeated = false) {p : Ptr} {x : Nat} {o : I64} {xblk : Block}
    (hout : OutVal h p (E.layout.storeSize f.type) x o xblk) :
    ∃ h', E.call S (.get f (.base h₀.next) p) h = .ok (.int 1, h') ∧
      E.outVal h' f.type p = .int ((arg f).asInt % 2 ^ E.layout.getTypeSizeInBits f.type) := by
  have wf := flat.toWellFormed
  obtain ⟨blk, hl, hholds, hsame⟩ := hs.live hi
  have hs' := flat.isStruct f hf
  have hnp := not_pointer wf hf hs' hr
  obtain ⟨k, hk⟩ := hargs.scalar f hf hm hr
  have hslot : E.slot S blk f = E.encode f.type (.int k) := by
    rw [hsame f hf hm, hi.scalar f hf hr, hm, if_neg Bool.false_ne_true, hk]
  have hval : E.valueAt S blk f = .int (k % 2 ^ E.layout.getTypeSizeInBits f.type) := by
    rw [valueAt, hslot, decode_encode_int E hnp]
  have hlen : (E.encode f.type (E.valueAt S blk f)).length = E.layout.storeSize f.type := by
    rw [hval]
    exact length_encode_int E _ _
  have hget := getGetter_direct wf hholds hf hl hs' (by rw [hr]; rfl) hlen hout
  refine ⟨_, by rw [call_get hfun hf]; exact returnBool_ok hget, ?_⟩
  refine (outVal_eq hout hlen rfl (Heap.block?_update_self hout.live _)).trans ?_
  rw [hval, decode_encode_int E hnp, Nat.mod_mod, hk]
  rfl

theorem Shielded.kept_array (hfun : Resolves E S) (hf : f ∈ S.fields) (hm : f.isMutable = false)
    (hr : f.isRepeated = true) {p : Ptr} {x : Nat} {o : I64} {xblk : Block}
    (hout : OutVal h p (E.layout.storeSize f.type) x o xblk) :
    (∃ h', E.call S (.get f (.base h₀.next) p) h = .ok (.int 1, h') ∧
      E.itemsAt h' f.elem (E.outVal h' f.type p).asPtr (S.countArg arg f).toNat =
        E.itemsAt h₀ f.elem (arg f).asPtr (S.countArg arg f).toNat) ∨
    (E.alloc.succeeds h.calls (E.exactSizeFor f (S.countArg arg f)) = false ∧
      E.call S (.get f (.base h₀.next) p) h = .ok (.int 0, h.tick)) := by
  have wf := flat.toWellFormed
  obtain ⟨blk, hl, hholds, hsame⟩ := hs.live hi
  obtain ⟨d, arr, hp, hd, hcells, hlen, hcount⟩ := hs.array_live flat hargs hi hsame hf hm hr
  have harr : E.ArrayOk S h blk f := Or.inr ⟨d, arr, hp, hd, by rw [hcount, hlen]⟩
  obtain ⟨hread, hsize⟩ := harr.readable hr
  rw [hcount] at hsize
  rw [call_get hfun hf]
  rcases getGetter_copy wf hholds hf hr hl hm hread hout with
    ⟨-, copy, hcopy, hget⟩ | ⟨hfail, hget⟩
  · refine Or.inl ⟨_, returnBool_ok hget, ?_⟩
    have hdec : E.decode f.type (E.encode f.type (.ptr (.base h.next))) = .ptr (.base h.next) := by
      rw [(wf.array_spec hf hr).1]
      exact decode_encode_loc E _ _ _ _
    rw [outVal_eq hout (length_ptr_slot wf hf hr _) hdec
      (Heap.block?_update_self (Heap.block?_push_of_some hout.live copy) _)]
    -- the copy has the bytes of the array, and these are the caller's
    have hxn : h.next ≠ x := Nat.ne_of_gt (Heap.lt_next hout.live)
    have hnew : ((h.push copy).update x (xblk.overwrite o.toNat
        (E.encode f.type (.ptr (.base h.next))))).block? h.next = some copy := by
      rw [Heap.block?_update_ne _ hxn, Heap.block?_push_self]
    rw [hp, hsize, bytesAt_block hd hlen] at hcopy
    have hby := bytesAt_block hnew ((congrArg List.length hcopy).trans hlen)
    exact congrArg (fun cs => E.itemsOf f.elem cs _) (hby.trans (hcopy.trans hcells))
  · rw [hsize] at hfail
    exact Or.inr ⟨hfail, returnBool_ok hget⟩

theorem Shielded.kept_item (hfun : Resolves E S) (hf : f ∈ S.fields) (hm : f.isMutable = false)
    (hr : f.isRepeated = true) (idx : I64) {p : Ptr} {x : Nat} {o : I64} {xblk : Block}
    (hout : OutVal h p (E.layout.storeSize f.elem) x o xblk) :
    if idx < S.countArg arg f then
      ∃ h' v, E.call S (.getItem f (.base h₀.next) idx p) h = .ok (.int 1, h') ∧
        E.outVal h' f.elem p = .int v ∧
        (E.itemsAt h₀ f.elem (arg f).asPtr (S.countArg arg f).toNat)[idx.toNat]? = some v
    else E.call S (.getItem f (.base h₀.next) idx p) h = .ok (.int 0, h) := by
  have wf := flat.toWellFormed
  obtain ⟨blk, hl, hholds, hsame⟩ := hs.live hi
  obtain ⟨d, arr, hp, hd, hcells, hlen, hcount⟩ := hs.array_live flat hargs hi hsame hf hm hr
  have harr : E.ArrayOk S h blk f := Or.inr ⟨d, arr, hp, hd, by rw [hcount, hlen]⟩
  have hel := flat.elem_not_pointer hf hr
  have hitem := getItemGetter_ok wf hholds hf hr hl idx harr hel hout
  rw [hcount] at hitem
  rw [call_getItem hfun hf hr]
  split
  · next hidx =>
    obtain ⟨-, d', arr', hp', hd', hget⟩ := hitem.resolve_right fun hno => hno.1 hidx
    obtain rfl := (Ptr.loc.inj (hp.symm.trans hp')).1
    obtain rfl : arr = arr' := Option.some.inj (hd.symm.trans hd')
    obtain ⟨hlen', hdec⟩ := decode_encode_decode (E := E) hel
      (slice arr.cells (E.layout.allocSize f.elem * idx.toNat) (E.layout.storeSize f.elem))
    have hv := outVal_eq hout hlen' hdec (Heap.block?_update_self hout.live _)
    have hitems : E.itemsAt h₀ f.elem (arg f).asPtr (S.countArg arg f).toNat =
        E.itemsOf f.elem arr.cells (S.countArg arg f).toNat := by
      rw [hcells]
      rfl
    refine ⟨_, E.itemOf f.elem arr.cells idx.toNat, returnBool_ok hget, hv.trans ?_, ?_⟩
    · rw [itemOf, decode, hel]
      rfl
    · rw [hitems]
      exact getElem?_itemsOf _ (BitVec.lt_def.mp hidx)
  · next hidx => exact returnBool_ok (hitem.resolve_left fun hyes => hidx hyes.1).2

theorem Shielded.kept (hfun : Resolves E S) : E.Kept S h₀ arg h₀.next h where
  scalar _ hf hm hr _ _ _ _ hout := hs.kept_scalar flat hargs hi hfun hf hm hr hout
  array _ hf hm hr _ _ _ _ hout := hs.kept_array flat hargs hi hfun hf hm hr hout
  item _ hf hm hr idx _ _ _ _ hout := hs.kept_item flat hargs hi hfun hf hm hr idx hout

end Observe

/-- A run that starts with the heap in which `create_S` has returned struct `s`. -/
theorem kept_of_run (flat : S.IsFlat) (hcf : S.CountsFirst) (hfun : Resolves E S) (hcl : E.Closed)
    (hstruct : E.layout.structSize S.packed S.elements < 2 ^ 64) (hsep : E.Separate S w)
    (hargs : E.CreateArgs S w.heap arg)
    (hcreate : E.call S (.create arg) w.heap = .ok (.ptr (.base s), h₁)) {es : List (Api × Val)}
    (hrun : Run (E.ApiStep S s h₁) ⟨h₁, insert s w.structs⟩ es w') :
    E.Kept S w.heap arg s w'.heap := by
  rw [call_create hfun] at hcreate
  rcases getConstructor_ok flat hcf hstruct hargs with ⟨h₂, blk, hnew, hi⟩ | ⟨-, h₂, hnew, -⟩
  · obtain ⟨hs, rfl⟩ : Val.ptr (.base w.heap.next) = .ptr (.base s) ∧ h₂ = h₁ := by
      have := (bind_of_ok hnew : returnPtr _ _ = _).symm.trans hcreate
      simpa only [pure_apply, Except.ok.injEq, Prod.mk.injEq] using this
    obtain rfl := (Ptr.loc.inj (Val.ptr.inj hs)).1
    have hkeep := hrun.invariant
      (P := fun w' => E.Shielded S w.heap.next h₂ w'.structs w'.heap)
      (fun _ _ _ hs hstep => hstep.shielded flat hfun hcl hstruct hs)
      (hi.shielded flat.toWellFormed hsep)
    exact hkeep.kept flat hargs hi hfun
  · have := (bind_of_ok hnew : returnPtr _ _ = _).symm.trans hcreate
    cases this

end Env

/-- In every run whose calls spare the struct, its immutable fields keep the values passed to
    `create_S`. -/
theorem immutables_keep {A : Allocator} {DL : DataLayout} {S : Struct} (flat : S.IsFlat)
    (hcf : S.CountsFirst) (hn : S.DistinctNames)
    (hstruct : DL.structSize S.packed S.elements < 2 ^ 64) {w₀ w : World} {arg : Field → Val}
    (hsep : (Env.ofStruct A DL S).Separate S w₀)
    (hargs : (Env.ofStruct A DL S).CreateArgs S w₀.heap arg) {s : Nat} {h₁ : Heap}
    (hcreate : (Env.ofStruct A DL S).call S (.create arg) w₀.heap = .ok (.ptr (.base s), h₁))
    {es : List (Api × Val)} (hrun : Run ((Env.ofStruct A DL S).ApiStep S s h₁)
      ⟨h₁, insert s w₀.structs⟩ es w) :
    (Env.ofStruct A DL S).Kept S w₀.heap arg s w.heap :=
  Env.kept_of_run flat hcf (Env.resolves_ofStruct A DL hn) (Env.closed_ofStruct A DL S) hstruct
    hsep hargs hcreate hrun

/-- `set_path_x` on a new path, which has one immutable field. -/
theorem immutables_keep_path : ∃ w : World,
    Run ((Env.ofStruct firstOnly .default pathStruct).ApiStep pathStruct 1
        ⟨[some floatBuffer, some (createdPath 0)], 1⟩)
      ⟨⟨[some floatBuffer, some (createdPath 0)], 1⟩, insert 1 ∅⟩
      [(.accessor (.setArray pathX (.base 1) (.base 0) 1), .int 0)] w ∧
    (Env.ofStruct firstOnly .default pathStruct).Kept pathStruct ⟨[some floatBuffer], 0⟩
      (fun _ => .int 7) 1 w.heap := by
  have hstep : (Env.ofStruct firstOnly .default pathStruct).ApiStep pathStruct 1
      ⟨[some floatBuffer, some (createdPath 0)], 1⟩
      ⟨⟨[some floatBuffer, some (createdPath 0)], 1⟩, insert 1 ∅⟩
      (.accessor (.setArray pathX (.base 1) (.base 0) 1), .int 0)
      ⟨⟨[some floatBuffer, some (createdPath 1)], 2⟩, insert 1 ∅⟩ := by
    refine ⟨_, Nat.le_refl _, fun _ _ _ => rfl, ⟨by decide, by decide, by decide⟩,
      Or.inr ⟨1, Set.mem_insert _ _, rfl⟩, ?_, rfl⟩
    exact setX_path
  have hsep : (Env.ofStruct firstOnly .default pathStruct).Separate pathStruct
      ⟨⟨[some floatBuffer], 0⟩, ∅⟩ := fun b hb => hb.elim
  have hrun := Run.cons hstep (.nil _)
  refine ⟨_, hrun, immutables_keep pathStruct_isFlat (by decide) pathStruct_distinctNames
    (by decide) hsep ⟨?_, ?_⟩ created_path hrun⟩
  · exact fun _ _ _ _ => ⟨7, rfl⟩
  · decide

/-! ## The item setter of an immutable array -/

/-- `struct s { repeated int8 x }` with its count first. -/
def bytes : Struct :=
  { arrayOf (.int 8) with
    type := some (.struct 0 "s")
    fields := (arrayOf (.int 8)).fields.mapIdx fun i f =>
      { f with parentType := some (.struct 0 "s"), offset := i } }

def bytesX : Field := bytes.fields.getD 1 default

theorem bytesStruct_stable : bytesStruct (.stable .default) = bytes :=
  Struct.finalizeFields_stable _ (by decide)

/-- One byte. -/
def byteBlock (v : Byte) : Block := ⟨[.byte v], by simp⟩

/-- The struct with one element, in block 3. -/
def oneByte : Block where
  cells := encodeInt false 8 1 ++ encodePtr 8 (.base 3)
  fits := by decide

/-- An array of one element and its length. -/
def oneArg (f : Field) : Val := if f.isRepeated then .ptr (.base 0) else .int 1

theorem create_bytes : Env.CallStep (Env.ofStruct .calloc .default bytes) bytes
    ⟨[some (byteBlock 5), some (byteBlock 0)], 0⟩ (.create oneArg, .ptr (.base 2))
    ⟨[some (byteBlock 5), some (byteBlock 0), some oneByte, some (byteBlock 5)], 2⟩ := by
  rfl

theorem setItem_bytes : Env.CallStep (Env.ofStruct .calloc .default bytes) bytes
    ⟨[some (byteBlock 5), some (byteBlock 0), some oneByte, some (byteBlock 5)], 2⟩
    (.setItem bytesX (.base 2) 0 (.int 7), .int 1)
    ⟨[some (byteBlock 5), some (byteBlock 0), some oneByte, some (byteBlock 7)], 2⟩ := by
  rfl

theorem getItem_bytes : Env.CallStep (Env.ofStruct .calloc .default bytes) bytes
    ⟨[some (byteBlock 5), some (byteBlock 0), some oneByte, some (byteBlock 7)], 2⟩
    (.getItem bytesX (.base 2) 0 (.base 1), .int 1)
    ⟨[some (byteBlock 5), some (byteBlock 7), some oneByte, some (byteBlock 7)], 2⟩ := by
  rfl

/-- `set_s_x_item` succeeds on the immutable array `x`: it was created as `[5]` and
    `get_s_x_item` now shows 7. -/
theorem immutable_changes : ∃ h,
    Run (Env.CallStep (Env.ofStruct .calloc .default bytes) bytes)
      ⟨[some (byteBlock 5), some (byteBlock 0)], 0⟩
      [(.create oneArg, .ptr (.base 2)), (.setItem bytesX (.base 2) 0 (.int 7), .int 1)] h ∧
    ¬ (Env.ofStruct .calloc .default bytes).Kept bytes
      ⟨[some (byteBlock 5), some (byteBlock 0)], 0⟩ oneArg 2 h := by
  refine ⟨_, .cons create_bytes (.cons setItem_bytes (.nil _)), fun hkept => ?_⟩
  have hitem := hkept.item bytesX (by decide) rfl rfl 0 (.base 1) 1 0 (byteBlock 0)
    ⟨rfl, rfl, by decide⟩
  rw [if_pos (by decide)] at hitem
  obtain ⟨h', v, hcall, hout, hv⟩ := hitem
  obtain ⟨-, rfl⟩ := Prod.mk.inj (Except.ok.inj (getItem_bytes.symm.trans hcall))
  have h7 : (Env.ofStruct .calloc .default bytes).outVal
      ⟨[some (byteBlock 5), some (byteBlock 7), some oneByte, some (byteBlock 7)], 2⟩ bytesX.elem
      (.base 1) = .int 7 := by rfl
  have h5 : ((Env.ofStruct .calloc .default bytes).itemsAt
      ⟨[some (byteBlock 5), some (byteBlock 0)], 0⟩ bytesX.elem (oneArg bytesX).asPtr
      (bytes.countArg oneArg bytesX).toNat)[(0 : I64).toNat]? = some 5 := by rfl
  obtain rfl := Option.some.inj (h5.symm.trans hv)
  cases h7.symm.trans hout

end Tyr
