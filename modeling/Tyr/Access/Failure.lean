import Tyr.Access.Calls

/-
  Updates that fail.

  `Unchanged` is what the caller of a failed update may hope for. The array setter stores the
  new count before it knows whether the allocation succeeds and does not put the old one
  back; the count setter does, but a `realloc` to size 0 frees the array. `Harmless` says when
  neither matters, and `failedUpdate_unchanged_iff` that this is exact, at every failed call
  of every run.
-/

namespace Tyr

open Prog

/-- The array of a count field. -/
def Struct.arrayOf (S : Struct) (c : Field) : Field := (S.deref c.countsFor).getD c

theorem Struct.WellFormed.arrayOf_spec {S : Struct} {c : Field} (wf : S.WellFormed)
    (hc : c ∈ S.fields) (hcc : c.isCount = true) :
    S.deref c.countsFor = some (S.arrayOf c) ∧ S.arrayOf c ∈ S.fields ∧
      (S.arrayOf c).isRepeated = true ∧ S.countOf (S.arrayOf c) = c := by
  obtain ⟨-, -, -, r, hr, hrr, hd, hco⟩ := wf.count_spec hc hcc
  have he : S.arrayOf c = r := by rw [Struct.arrayOf, hd]; rfl
  rw [he]
  exact ⟨hd, hr, hrr, hco⟩

namespace Env

variable (E : Env) (S : Struct)

/-- Every field of struct `b` and every other block, the arrays among them, is as before. -/
def Unchanged (h h' : Heap) (b : Nat) : Prop :=
  ∃ blk blk', h.block? b = some blk ∧ h'.block? b = some blk' ∧
    (∀ f ∈ S.fields, E.valueAt S blk' f = E.valueAt S blk f) ∧
    ∀ d ≠ b, h'.block? d = h.block? d

variable {E S} {h h' : Heap} {b : Nat} {blk : Block} {f c : Field} {src : Ptr} {n : I64}

theorem countAt_of_valueAt {blk blk' : Block} (ht : c.type = .int 64)
    (he : E.valueAt S blk' c = E.valueAt S blk c) : E.countAt S blk' c = E.countAt S blk c := by
  rw [valueAt, valueAt, ht, decode_i64, decode_i64] at he
  exact BitVec.eq_of_toNat_eq (Val.int.inj he)

theorem insertNullCheck_eq {α : Type} (p : Ptr) (r : α) (k : Prog α) :
    insertNullCheck [p] r k = if p = .null then pure r else k := by
  cases p <;> simp [insertNullCheck, Ptr.isNotNull]

/-- Once the memory is there the array setter succeeds. -/
theorem sizeIsRight_eq_ok {Self d : Ptr} {ok : Bool}
    (hrun : E.sizeIsRight S f c Self src n d h = .ok (ok, h')) : ok = true := by
  obtain ⟨_, h₁, -, hrun⟩ := bind_eq_ok hrun
  obtain ⟨_, h₂, -, hrun⟩ := bind_eq_ok hrun
  obtain ⟨_, h₃, -, hrun⟩ := bind_eq_ok hrun
  obtain ⟨_, h₄, -, hrun⟩ := bind_eq_ok hrun
  cases hrun
  rfl

/-- Storing the count a struct already has. -/
theorem valueAt_putCount (wf : S.WellFormed) (hb : E.Holds S blk) (hf : f ∈ S.fields)
    (hr : f.isRepeated = true) {g : Field} (hg : g ∈ S.fields) :
    E.valueAt S (E.putCount S blk f (E.countAt S blk (S.countOf f))) g = E.valueAt S blk g := by
  by_cases hgc : g = S.countOf f
  · subst hgc
    have hc := countAt_putCount wf hf hr hb (E.countAt S blk (S.countOf f))
    rw [countAt] at hc
    rw [valueAt, valueAt, wf.countOf_type hf hr, decode_i64, decode_i64, hc]
    rfl
  · rw [valueAt, slot_putCount_ne wf hf hr hb _ hg hgc, valueAt]

section Live

variable (wf : S.WellFormed) (hl : h.block? b = some blk) (hb : E.Holds S blk)
include wf hl hb

/-- A failed array setter changes nothing exactly when the count asked for is the old one. -/
theorem setRepeated_unchanged_iff (hf : f ∈ S.fields) (hr : f.isRepeated = true)
    (hrun : E.setRepeated S f (S.countOf f) (.base b) src n h = .ok (false, h')) :
    E.Unchanged S h h' b ↔ E.countAt S blk (S.countOf f) = n := by
  have hcm := wf.countOf_mem hf hr
  have hct := wf.countOf_type hf hr
  have hl₁ := Heap.block?_update_self hl (E.putCount S blk f n)
  have hb₁ := holds_putCount (f := f) hb n
  -- whenever the struct survives, it has the new count
  have hcount : ∀ h₂ : Heap, (h₂.block? b = none ∨ h₂.block? b = some (E.putCount S blk f n)) →
      E.Unchanged S h h₂ b → E.countAt S blk (S.countOf f) = n := by
    rintro h₂ hblk ⟨old, new, ho, hn, hval, -⟩
    obtain rfl : blk = old := Option.some.inj (hl.symm.trans ho)
    rcases hblk with hnone | hsome
    · rw [hnone] at hn
      cases hn
    · obtain rfl := Option.some.inj (hsome.symm.trans hn)
      rw [← countAt_of_valueAt hct (hval _ hcm), countAt_putCount wf hf hr hb]
  -- and nothing else has happened when no block was freed
  have hsame : E.countAt S blk (S.countOf f) = n →
      E.Unchanged S h (h.update b (E.putCount S blk f n)).tick b := by
    rintro rfl
    exact ⟨blk, _, hl, hl₁, fun g hg => valueAt_putCount wf hb hf hr hg,
      fun d hd => Heap.block?_update_ne h hd _⟩
  rw [setRepeated, bind_of_ok (loadTy_slot wf hl hb hf)] at hrun
  by_cases hnull : (E.decode f.type (E.slot S blk f)).asPtr.isNotNull = true
  · rw [if_pos hnull, bind_of_ok (loadI64_slot wf hl hb hcm hct)] at hrun
    by_cases hn : E.countAt S blk (S.countOf f) = n
    · rw [if_pos hn] at hrun
      cases sizeIsRight_eq_ok hrun
    · rw [if_neg hn, bind_of_ok (storeCount_slot wf hl hb hf hr n),
        bind_of_ok (getFieldAllocSize_slot wf hl₁ hb₁ hf)] at hrun
      obtain ⟨q, h₂, hre, hrun⟩ := bind_eq_ok hrun
      rw [insertNullCheck_eq] at hrun
      split at hrun
      · next hq =>
        cases hrun
        refine iff_of_false (fun hu => hn (hcount h' ?_ hu)) hn
        rcases realloc_cases hre with ⟨-, rfl, -⟩ | ⟨-, -, d, old, -, -, rfl⟩ | rfl
        · exact Or.inr hl₁
        · by_cases hd : b = d
          · subst hd
            exact Or.inl (Heap.block?_kill_self _ _)
          · exact Or.inr ((Heap.block?_kill_ne _ hd).trans hl₁)
        · cases hq
      · cases sizeIsRight_eq_ok hrun
  · rw [if_neg hnull, bind_of_ok (storeCount_slot wf hl hb hf hr n),
      bind_of_ok (getFieldAllocSize_slot wf hl₁ hb₁ hf)] at hrun
    obtain ⟨q, h₂, hma, hrun⟩ := bind_eq_ok hrun
    rw [insertNullCheck_eq] at hrun
    split at hrun
    · next hq =>
      cases hrun
      obtain rfl : h' = (h.update b (E.putCount S blk f n)).tick := by
        unfold malloc at hma
        split at hma <;> cases hma
        · cases hq
        · rfl
      exact ⟨hcount _ (Or.inr hl₁), hsame⟩
    · cases sizeIsRight_eq_ok hrun

/-- A failed count setter changes nothing exactly when nothing was freed. -/
theorem setCount_unchanged_iff (hc : c ∈ S.fields) (hcc : c.isCount = true)
    (hrun : E.setCount S c (S.arrayOf c) (.base b) n h = .ok (false, h')) :
    E.Unchanged S h h' b ↔
      n = 0 ∨ E.sizeFor (S.arrayOf c) n ≠ 0 ∨ E.ptrAt S blk (S.arrayOf c) = .null := by
  obtain ⟨-, hf, hr, hco⟩ := wf.arrayOf_spec hc hcc
  set f := S.arrayOf c with hfdef
  have hct := wf.countOf_type hf hr
  by_cases hn : n = 0
  · rw [setCount, if_pos hn] at hrun
    cases hrun
    exact iff_of_true ⟨blk, blk, hl, hl, fun _ _ => rfl, fun _ _ => rfl⟩ (Or.inl hn)
  have hl₁ := Heap.block?_update_self hl (E.putCount S blk f n)
  have hb₁ := holds_putCount (f := f) hb n
  rw [setCount, if_neg hn, ← hco, bind_of_ok (loadI64_slot wf hl hb (wf.countOf_mem hf hr) hct),
    bind_of_ok (storeCount_slot wf hl hb hf hr n), bind_of_ok (loadTy_slot wf hl₁ hb₁ hf),
    bind_of_ok (getFieldAllocSize_slot wf hl₁ hb₁ hf), fieldSizeAt_putCount wf hf hr hb] at hrun
  have hp : (E.decode f.type (E.slot S (E.putCount S blk f n) f)).asPtr = E.ptrAt S blk f :=
    ptrAt_putCount wf hf hr hb n
  rw [hp] at hrun
  obtain ⟨q, h₂, hre, hrun⟩ := bind_eq_ok hrun
  rcases realloc_cases hre with ⟨rfl, rfl, hcase⟩ | ⟨rfl, hz, d, old, hd, hdl, rfl⟩ | rfl
  · -- the old count goes back
    have hl₂ : (h.update b (E.putCount S blk f n)).tick.block? b = _ := hl₁
    rw [bind_of_ok (storeCount_slot wf hl₂ hb₁ hf hr _), insertNullCheck_null] at hrun
    cases hrun
    refine iff_of_true ⟨blk, _, hl, Heap.block?_update_self hl₂ _, fun g hg => ?_,
      fun x hx => ?_⟩ ?_
    · rw [putCount_putCount]
      exact valueAt_putCount wf hb hf hr hg
    · rw [Heap.block?_update_ne _ hx, Heap.block?_tick, Heap.block?_update_ne _ hx]
    · rcases hcase with hnull | hz
      · exact Or.inr (Or.inr hnull)
      · exact Or.inr (Or.inl hz)
  · -- the array was freed
    by_cases hdb : d = b
    · subst hdb
      obtain ⟨o, hgep, -⟩ := structGEP_base (b := d) wf hb (wf.countOf_mem hf hr)
      have hfault : E.storeI64 (E.countAt S blk (S.countOf f))
          (E.structGEP S (.base d) (S.countOf f))
          ((h.update d (E.putCount S blk f n)).kill d).tick = .error .access := by
        rw [hgep, storeI64, store, Heap.block?_tick, Heap.block?_kill_self]
      rw [bind_of_error hfault] at hrun
      cases hrun
    · have hl₂ := (Heap.block?_kill_ne (h.update b (E.putCount S blk f n))
        (Ne.symm hdb)).trans hl₁
      rw [bind_of_ok (storeCount_slot wf
        (h := ((h.update b (E.putCount S blk f n)).kill d).tick) hl₂ hb₁ hf hr _),
        insertNullCheck_null] at hrun
      cases hrun
      refine iff_of_false ?_ ?_
      · rintro ⟨_, _, -, -, -, hother⟩
        have h1 := hother d hdb
        rw [Heap.block?_update_ne _ hdb, Heap.block?_tick, Heap.block?_kill_self] at h1
        rw [Heap.block?_update_ne _ hdb, ← h1] at hdl
        cases hdl
      · rintro (h0 | h0 | h0)
        · exact hn h0
        · exact h0 hz
        · rw [hd] at h0
          cases h0
  · -- the reallocation succeeded
    obtain ⟨_, h₃, -, hrun⟩ := bind_eq_ok hrun
    rw [insertNullCheck_loc] at hrun
    obtain ⟨_, h₄, -, hrun⟩ := bind_eq_ok hrun
    obtain ⟨_, h₅, -, hrun⟩ := bind_eq_ok hrun
    cases hrun

/-- A failed item setter changes nothing. -/
theorem getItemSetter_unchanged (hf : f ∈ S.fields) (hr : f.isRepeated = true) {IDX : I64}
    {v : Val} (hrun : E.getItemSetter S f (.base b) IDX v h = .ok (false, h')) :
    E.Unchanged S h h' b := by
  obtain ⟨ht, -, -, -, hd, hcm, -⟩ := wf.array_spec hf hr
  have hpt := wf.pointee hf hr
  simp only [getItemSetter, hpt, hd] at hrun
  rw [insertNullCheck_loc, bind_of_ok (loadTy_slot wf hl hb hf),
    bind_of_ok (loadI64_slot wf hl hb hcm (wf.countOf_type hf hr))] at hrun
  split at hrun
  · obtain ⟨_, h₂, -, hrun⟩ := bind_eq_ok hrun
    cases hrun
  · cases hrun
    exact ⟨blk, blk, hl, hl, fun _ _ => rfl, fun _ _ => rfl⟩

end Live

/-- The setter of a scalar does not fail. -/
theorem getSetter_scalar_eq_ok (hs : f.isStruct = false) (hr : f.isRepeated = false)
    (hc : f.isCount = false) {v : Val} {ok : Bool}
    (hrun : E.getSetter S f (.base b) v n h = .ok (ok, h')) : ok = true := by
  rw [getSetter, insertNullCheck_loc] at hrun
  simp only [hs, hr, hc, Bool.false_eq_true, if_false] at hrun
  obtain ⟨_, h₂, -, hrun⟩ := bind_eq_ok hrun
  cases hrun
  rfl

/-! ## Failed calls of a run -/

/-- A call of an update of the struct at `Self`. -/
def IsUpdate (S : Struct) (Self : Ptr) : Call → Prop
  | .setArray f p _ _ => p = Self ∧ f ∈ S.fields ∧ f.isMutable = true ∧ f.isRepeated = true
  | .set f p _ => p = Self ∧ f ∈ S.fields ∧ f.isMutable = true ∧ f.isRepeated = false
  | .setItem f p _ _ => p = Self ∧ f ∈ S.fields ∧ f.isRepeated = true
  | _ => False

variable (E S) in
/-- The failure of a call does no harm: the array setter is given the count the struct has; the
    count setter is given 0, or a count whose size is not 0 modulo `2 ^ 64`, or there is no
    array to free. -/
def Harmless (blk : Block) : Call → Prop
  | .setArray f _ _ n => E.countAt S blk (S.countOf f) = n
  | .set c _ v => c.isCount = true →
    BitVec.ofNat 64 v.asInt = 0 ∨ E.sizeFor (S.arrayOf c) (BitVec.ofNat 64 v.asInt) ≠ 0 ∨
      E.ptrAt S blk (S.arrayOf c) = .null
  | _ => True

theorem update_unchanged_iff (flat : S.IsFlat) (hfun : Resolves E S) {e : Call}
    (hstep : CallStep E S h (e, .int 0) h') (hl : h.block? b = some blk) (hb : E.Holds S blk)
    (hu : IsUpdate S (.base b) e) : E.Unchanged S h h' b ↔ E.Harmless S blk e := by
  have wf := flat.toWellFormed
  have hfalse : ∀ {x : Prog Bool}, returnBool x h = .ok (.int 0, h') → x h = .ok (false, h') := by
    intro x hx
    obtain ⟨ok, hok, hv⟩ := returnBool_eq_ok hx
    cases ok
    · exact hok
    · cases hv
  cases e with
  | setArray f p src n =>
    obtain ⟨rfl, hf, hm, hr⟩ := hu
    have hd := (wf.array_spec hf hr).2.2.2.2.1
    rw [CallStep, call_setArray hfun hf hm] at hstep
    have hrun := hfalse hstep
    rw [getSetter, insertNullCheck_loc] at hrun
    simp only [flat.isStruct f hf, hr, hd, Bool.false_eq_true, if_false, if_true] at hrun
    exact setRepeated_unchanged_iff wf hl hb hf hr hrun
  | set c p v =>
    obtain ⟨rfl, hf, hm, hr⟩ := hu
    rw [CallStep, call_set hfun hf hm] at hstep
    have hrun := hfalse hstep
    cases hc : c.isCount with
    | true =>
      rw [getSetter, insertNullCheck_loc] at hrun
      simp only [flat.isStruct c hf, hr, hc, (wf.arrayOf_spec hf hc).1, Bool.false_eq_true,
        if_false, if_true] at hrun
      rw [setCount_unchanged_iff wf hl hb hf hc hrun]
      exact ⟨fun h _ => h, fun h => h hc⟩
    | false => cases getSetter_scalar_eq_ok (flat.isStruct c hf) hr hc hrun
  | setItem f p idx v =>
    obtain ⟨rfl, hf, hr⟩ := hu
    rw [CallStep, call_setItem hfun hf hr] at hstep
    exact iff_of_true (getItemSetter_unchanged wf hl hb hf hr (hfalse hstep)) trivial
  | create arg => exact hu.elim
  | get f p out => exact hu.elim
  | getItem f p idx out => exact hu.elim
  | destroy p => exact hu.elim

end Env

open Env

/-- In every run of calls, with any pattern of allocation outcomes: an update of a live struct
    that returns false has changed nothing if and only if its failure is harmless. -/
theorem failedUpdate_unchanged_iff {A : Allocator} {DL : DataLayout} {S : Struct}
    (flat : S.IsFlat) (hn : S.DistinctNames) {h₀ h₂ : Heap} {es fs : List (Call × Val)} {e : Call}
    (hrun : Run (CallStep (Env.ofStruct A DL S) S) h₀ (es ++ (e, .int 0) :: fs) h₂) :
    ∃ h h', Run (CallStep (Env.ofStruct A DL S) S) h₀ es h ∧
      CallStep (Env.ofStruct A DL S) S h (e, .int 0) h' ∧
      Run (CallStep (Env.ofStruct A DL S) S) h' fs h₂ ∧
      ∀ b blk, h.block? b = some blk → (Env.ofStruct A DL S).Holds S blk →
        IsUpdate S (.base b) e →
        ((Env.ofStruct A DL S).Unchanged S h h' b ↔ (Env.ofStruct A DL S).Harmless S blk e) := by
  obtain ⟨h, h', h1, h2, h3⟩ := hrun.exists_step
  exact ⟨h, h', h1, h2, h3, fun b blk hl hb hu =>
    update_unchanged_iff flat (resolves_ofStruct A DL hn) h2 hl hb hu⟩

/-- The first allocation call succeeds, the others fail. -/
def firstOnly : Allocator where
  succeeds t _ := decide (t = 0)
  fill _ _ := 0
  addr b := BitVec.ofNat 64 (4096 * (b + 1))

/-- A `path` as `create_path` makes it, except for the count of `x`. -/
def createdPath (xCount : Nat) : Block where
  cells := encodeInt false 4 7 ++ encodeInt false 8 xCount ++ encodePtr 8 .null ++
    encodeInt false 8 0 ++ encodePtr 8 .null
  fits := by simp [encodePtr]

/-- The caller's array, one float. -/
def floatBuffer : Block := ⟨encodeInt false 4 0x3f800000, by decide⟩

theorem created_path : CallStep (Env.ofStruct firstOnly .default pathStruct) pathStruct
    ⟨[some floatBuffer], 0⟩ (.create fun _ => .int 7, .ptr (.base 1))
    ⟨[some floatBuffer, some (createdPath 0)], 1⟩ := by
  rfl

/-- `set_path_x` with one element, whose allocation fails. -/
theorem setX_path : CallStep (Env.ofStruct firstOnly .default pathStruct) pathStruct
    ⟨[some floatBuffer, some (createdPath 0)], 1⟩ (.setArray pathX (.base 1) (.base 0) 1, .int 0)
    ⟨[some floatBuffer, some (createdPath 1)], 2⟩ := by
  rfl

/-- It returns false and leaves a count of 1 on an array that is NULL. -/
theorem failedUpdate_changes :
    ∃ h h', Run (CallStep (Env.ofStruct firstOnly .default pathStruct) pathStruct)
        ⟨[some floatBuffer], 0⟩ [(.create fun _ => .int 7, .ptr (.base 1))] h ∧
      CallStep (Env.ofStruct firstOnly .default pathStruct) pathStruct h
        (.setArray pathX (.base 1) (.base 0) 1, .int 0) h' ∧
      ¬ (Env.ofStruct firstOnly .default pathStruct).Unchanged pathStruct h h' 1 := by
  refine ⟨_, _, .cons created_path (.nil _), setX_path, ?_⟩
  rintro ⟨blk, blk', hblk, hblk', hval, -⟩
  obtain rfl : createdPath 0 = blk := Option.some.inj hblk
  obtain rfl : createdPath 1 = blk' := Option.some.inj hblk'
  have hcount := hval (pathStruct.countOf pathX) (by decide)
  revert hcount
  decide

theorem failedUpdate_unchanged_iff_path :
    ∃ h h', Run (CallStep (Env.ofStruct firstOnly .default pathStruct) pathStruct)
        ⟨[some floatBuffer], 0⟩ [(.create fun _ => .int 7, .ptr (.base 1))] h ∧
      CallStep (Env.ofStruct firstOnly .default pathStruct) pathStruct h
        (.setArray pathX (.base 1) (.base 0) 1, .int 0) h' ∧
      Run (CallStep (Env.ofStruct firstOnly .default pathStruct) pathStruct) h' []
        ⟨[some floatBuffer, some (createdPath 1)], 2⟩ ∧
      ∀ b blk, h.block? b = some blk →
        (Env.ofStruct firstOnly .default pathStruct).Holds pathStruct blk →
        IsUpdate pathStruct (.base b) (.setArray pathX (.base 1) (.base 0) 1) →
        ((Env.ofStruct firstOnly .default pathStruct).Unchanged pathStruct h h' b ↔
          (Env.ofStruct firstOnly .default pathStruct).Harmless pathStruct blk
            (.setArray pathX (.base 1) (.base 0) 1)) :=
  failedUpdate_unchanged_iff pathStruct_isFlat pathStruct_distinctNames
    (.cons created_path (.cons setX_path (.nil _)))

end Tyr
