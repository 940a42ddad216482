import Tyr.Access.Lifetime

/-
  Who owns which block.

  `World` is the heap with the structs that were created and not yet destroyed. `Owned`: each
  array of each of them is NULL and empty or a live block with room for its elements, and no
  block belongs to two arrays or is a struct as well. A call the caller makes properly
  (`Proper`) keeps that when it is `Safe`: no array of a nonzero count is set to length 0, no
  count is set whose byte size wraps, no immutable array comes before its count.
  `ownership`: then every call returns, item accesses stay in live blocks and `destroy_S` frees
  each block the struct owns once. For the setters the condition is exact
  (`setter_owned_iff`).
-/

namespace Tyr

open Prog

/-- The heap and the structs that are alive. -/
structure World where
  heap : Heap
  structs : Set Nat

namespace Env

variable (E : Env) (S : Struct)

/-! ## Ownership -/

/-- Array `f` of struct `b` is block `d`. -/
def HasArray (w : World) (b : Nat) (f : Field) (d : Nat) : Prop :=
  b ∈ w.structs ∧ f ∈ S.fields ∧ f.isRepeated = true ∧
    ∃ blk, w.heap.block? b = some blk ∧ E.ptrAt S blk f = .base d

/-- Block `d` is a struct or an array of one. -/
def Owns (w : World) (d : Nat) : Prop := d ∈ w.structs ∨ ∃ b f, E.HasArray S w b f d

structure Owned (w : World) : Prop where
  live : ∀ b ∈ w.structs, ∃ blk, w.heap.block? b = some blk ∧ E.Holds S blk ∧
    ∀ f ∈ S.fields, f.isRepeated = true → E.ArrayOk S w.heap blk f
  disjoint : ∀ b f d, E.HasArray S w b f d → d ∉ w.structs
  unique : ∀ b f b' f' d, E.HasArray S w b f d → E.HasArray S w b' f' d → b = b' ∧ f = f'

/-- The caller does what it likes with blocks that no struct owns. -/
def CallerStep (w w' : World) : Prop :=
  w'.structs = w.structs ∧ ∀ d, E.Owns S w d → w'.heap.block? d = w.heap.block? d

/-! ## Calls -/

/-- `p` points to `n` bytes that the caller owns. -/
def CallerMemory (w : World) (p : Ptr) (n : Nat) : Prop :=
  ∃ x o xblk, OutVal w.heap p n x o xblk ∧ ¬ E.Owns S w x

/-- What the caller has to see to: `Self` is a live struct, pointers lead to memory of the
    caller's own, and an array argument holds the elements announced. -/
def Proper (w : World) : Call → Prop
  | .create arg => E.CreateArgs S w.heap arg
  | .get f Self p => (∃ b ∈ w.structs, Self = .base b) ∧ f ∈ S.fields ∧
      E.CallerMemory S w p (E.layout.storeSize f.type)
  | .getItem f Self _ p => (∃ b ∈ w.structs, Self = .base b) ∧ f ∈ S.fields ∧
      f.isRepeated = true ∧ E.CallerMemory S w p (E.layout.storeSize f.elem)
  | .set f Self v => (∃ b ∈ w.structs, Self = .base b) ∧ f ∈ S.fields ∧ f.isMutable = true ∧
      f.isRepeated = false ∧ ∃ k, v = .int k
  | .setArray f Self src n => (∃ b ∈ w.structs, Self = .base b) ∧ f ∈ S.fields ∧
      f.isMutable = true ∧ f.isRepeated = true ∧ E.exactSizeFor f n < 2 ^ 64 ∧
      w.heap.Readable src (E.exactSizeFor f n) ∧ ∀ d o, src = .loc d o → ¬ E.Owns S w d
  | .setItem f Self _ v => (∃ b ∈ w.structs, Self = .base b) ∧ f ∈ S.fields ∧
      f.isRepeated = true ∧ ∃ k, v = .int k
  | .destroy Self => ∃ b ∈ w.structs, Self = .base b

/-- What a call must not do for ownership to be kept. -/
def Safe (w : World) : Call → Prop
  | .create _ => S.CountsFirst
  | .setArray f Self _ n => n = 0 → ∀ b blk, Self = .base b → w.heap.block? b = some blk →
      E.ptrAt S blk f = .null ∨ E.countAt S blk (S.countOf f) = 0
  | .set c Self v => c.isCount = true → ∀ b blk, Self = .base b → w.heap.block? b = some blk →
      E.exactSizeFor (S.arrayOf c) (BitVec.ofNat 64 v.asInt) < 2 ^ 64 ∨
        E.ptrAt S blk (S.arrayOf c) = .null ∧
          E.sizeFor (S.arrayOf c) (BitVec.ofNat 64 v.asInt) = 0 ∧
          E.alloc.succeeds w.heap.calls 0 = false
  | _ => True

/-- The structs alive after a call that returned `v`. -/
def structsAfter (structs : Set Nat) : Call → Val → Set Nat
  | .create _, v => {b | b ∈ structs ∨ v = .ptr (.base b)}
  | .destroy Self, _ => {b | b ∈ structs ∧ Self ≠ .base b}
  | _, _ => structs

/-- The caller works on its own memory and then calls an accessor properly, under the condition
    `cond`. -/
def WorldStep (cond : World → Call → Prop) (w : World) (e : Call × Val) (w' : World) : Prop :=
  ∃ w₁, E.CallerStep S w w₁ ∧ E.Proper S w₁ e.1 ∧ cond w₁ e.1 ∧
    E.CallStep S w₁.heap e w'.heap ∧ w'.structs = structsAfter w.structs e.1 e.2

variable {E S} {w w' : World} {h' : Heap} {b d : Nat} {blk blk' : Block} {f : Field}

/-! ## Steps that keep ownership -/

theorem Owned.lt_next (ho : E.Owned S w) (hd : E.Owns S w d) : d < w.heap.next := by
  rcases hd with hd | ⟨b, f, hb, hf, hr, blk, hl, hp⟩
  · obtain ⟨blk, hl, -⟩ := ho.live d hd
    exact Heap.lt_next hl
  · obtain ⟨blk', hl', -, harr⟩ := ho.live b hb
    obtain rfl := Option.some.inj (hl.symm.trans hl')
    rcases harr f hf hr with ⟨hn, -⟩ | ⟨d', arr, hp', hd', -⟩
    · rw [hp] at hn
      cases hn
    · rw [(Ptr.loc.inj (hp.symm.trans hp')).1]
      exact Heap.lt_next hd'

theorem owned_of_empty (h : w.structs = ∅) : E.Owned S w where
  live b hb := by rw [h] at hb; exact hb.elim
  disjoint b f d hd := by rw [HasArray, h] at hd; exact hd.1.elim
  unique b f b' f' d hd := by rw [HasArray, h] at hd; exact hd.1.elim

/-- Only the blocks that are owned matter. -/
theorem Owned.frame (ho : E.Owned S w) (w' : World) (hs : w'.structs = w.structs)
    (hk : ∀ d, E.Owns S w d → w'.heap.block? d = w.heap.block? d) :
    E.Owned S w' ∧ ∀ b f d, E.HasArray S w' b f d ↔ E.HasArray S w b f d := by
  have hiff : ∀ b f d, E.HasArray S w' b f d ↔ E.HasArray S w b f d := by
    intro b f d
    unfold HasArray
    rw [hs]
    refine and_congr_right fun hb => ?_
    rw [hk b (Or.inl hb)]
  refine ⟨⟨fun b hb => ?_, fun b f d h => ?_, fun b f b' f' d h h' => ?_⟩, hiff⟩
  · rw [hs] at hb
    obtain ⟨blk, hl, hh, harr⟩ := ho.live b hb
    refine ⟨blk, by rw [hk b (Or.inl hb), hl], hh, fun f hf hr => ?_⟩
    refine (harr f hf hr).imp_right fun ⟨d, arr, hp, hd, hfit⟩ => ⟨d, arr, hp, ?_, hfit⟩
    rw [hk d (Or.inr ⟨b, f, hb, hf, hr, blk, hl, hp⟩), hd]
  · rw [hs]
    exact ho.disjoint b f d ((hiff b f d).mp h)
  · exact ho.unique b f b' f' d ((hiff b f d).mp h) ((hiff b' f' d).mp h')

theorem Owned.frame_heap (ho : E.Owned S w)
    (hk : ∀ d, E.Owns S w d → h'.block? d = w.heap.block? d) : E.Owned S ⟨h', w.structs⟩ :=
  (ho.frame ⟨h', w.structs⟩ rfl hk).1

theorem Owned.caller (ho : E.Owned S w) (hc : E.CallerStep S w w') : E.Owned S w' :=
  (ho.frame w' hc.1 hc.2).1

/-- Struct `b` changes but for its arrays. -/
theorem Owned.same (ho : E.Owned S w) (hb : b ∈ w.structs)
    (hl : w.heap.block? b = some blk) (hl' : h'.block? b = some blk') (hh : E.Holds S blk')
    (hp : ∀ f ∈ S.fields, f.isRepeated = true → E.ptrAt S blk' f = E.ptrAt S blk f ∧
      E.countAt S blk' (S.countOf f) = E.countAt S blk (S.countOf f))
    (hk : ∀ d ≠ b, h'.block? d = w.heap.block? d) : E.Owned S ⟨h', w.structs⟩ := by
  have hiff : ∀ b' f d, E.HasArray S ⟨h', w.structs⟩ b' f d → E.HasArray S w b' f d := by
    rintro b' f d ⟨hb', hf, hr, x, hx, hpx⟩
    by_cases he : b' = b
    · subst he
      obtain rfl := Option.some.inj (hl'.symm.trans hx)
      exact ⟨hb', hf, hr, blk, hl, by rw [← (hp f hf hr).1, hpx]⟩
    · exact ⟨hb', hf, hr, x, by rw [← hk b' he]; exact hx, hpx⟩
  have harray : ∀ b' x f, b' ∈ w.structs → w.heap.block? b' = some x → f ∈ S.fields →
      f.isRepeated = true → E.ArrayOk S w.heap x f → E.ArrayOk S h' x f := by
    intro b' x f hb' hx hf hr harr
    refine harr.imp_right fun ⟨d, arr, hpx, hd, hfit⟩ => ⟨d, arr, hpx, ?_, hfit⟩
    rw [hk d (fun he => ho.disjoint b' f d ⟨hb', hf, hr, x, hx, hpx⟩ (he ▸ hb)), hd]
  refine ⟨fun b' hb' => ?_, fun b' f d h => ho.disjoint b' f d (hiff b' f d h),
    fun b₁ f₁ b₂ f₂ d h₁ h₂ => ho.unique b₁ f₁ b₂ f₂ d (hiff _ _ _ h₁) (hiff _ _ _ h₂)⟩
  obtain ⟨x, hx, hhx, harr⟩ := ho.live b' hb'
  by_cases he : b' = b
  · subst he
    obtain rfl := Option.some.inj (hl.symm.trans hx)
    refine ⟨blk', hl', hh, fun f hf hr => ?_⟩
    have := harray b' blk f hb' hl hf hr (harr f hf hr)
    unfold ArrayOk at this ⊢
    rwa [(hp f hf hr).1, (hp f hf hr).2]
  · exact ⟨x, by rw [← hx]; exact hk b' he, hhx, fun f hf hr =>
      harray b' x f hb' hx hf hr (harr f hf hr)⟩

theorem Owned.keeps (ho : E.Owned S w) (wf : S.WellFormed) (hb : b ∈ w.structs)
    (hl : w.heap.block? b = some blk) (hk : E.Keeps S w.heap b blk h' blk') :
    E.Owned S ⟨h', w.structs⟩ := by
  obtain ⟨x, hx, hh, -⟩ := ho.live b hb
  obtain rfl := Option.some.inj (hl.symm.trans hx)
  refine ho.same hb hl hk.block (by rw [Holds, hk.length]; exact hh) (fun f hf hr => ⟨?_, ?_⟩)
    hk.other
  · show (E.valueAt S blk' f).asPtr = (E.valueAt S blk f).asPtr
    rw [hk.value f hf]
  · exact countAt_of_valueAt (wf.countOf_type hf hr) (hk.value _ (wf.countOf_mem hf hr))

/-- A scalar changes. -/
theorem Owned.scalar (ho : E.Owned S w) (wf : S.WellFormed) (hb : b ∈ w.structs)
    (hl : w.heap.block? b = some blk) (hf : f ∈ S.fields) (hr : f.isRepeated = false)
    (hc : f.isCount = false) {v : List Cell} (hv : v.length = E.layout.storeSize f.type) :
    E.Owned S ⟨w.heap.update b (E.put S blk f v), w.structs⟩ := by
  obtain ⟨x, hx, hh, -⟩ := ho.live b hb
  obtain rfl := Option.some.inj (hl.symm.trans hx)
  refine ho.same hb hl (Heap.block?_update_self hl _) (holds_put hh) (fun g hg hrg => ?_)
    fun d hd => Heap.block?_update_ne _ hd _
  have hgf : g ≠ f := by
    rintro rfl
    rw [hr] at hrg
    cases hrg
  have hcf : S.countOf g ≠ f := by
    intro he
    have h1 := (wf.array_spec hg hrg).2.2.2.2.2.2.1
    rw [he, hc] at h1
    cases h1
  exact ⟨ptrAt_congr (slot_put_ne wf hh hf hg hgf hv),
    countAt_congr (slot_put_ne wf hh hf (wf.countOf_mem hg hrg) hcf hv)⟩

section Install

variable (ho : E.Owned S w) (hb : b ∈ w.structs) (hl : w.heap.block? b = some blk)
  (hf : f ∈ S.fields) (hr : f.isRepeated = true) {n : I64} {arr : Block}
  (hi : E.Installs S w.heap b blk f n d arr h' blk')
include ho hb hl hf hr hi

/-- The other structs are as before. -/
theorem Installs.struct_ne {b' : Nat} (hb' : b' ∈ w.structs) (hne : b' ≠ b) :
    h'.block? b' = w.heap.block? b' := by
  refine hi.other b' (ho.lt_next (Or.inl hb')) hne fun hp => ?_
  exact ho.disjoint b f b' ⟨hb, hf, hr, blk, hl, hp⟩ hb'

/-- So are the other arrays. -/
theorem Installs.array_ne {b' d' : Nat} {g : Field} (hg : E.HasArray S w b' g d')
    (hne : ¬ (b' = b ∧ g = f)) : d' ≠ d ∧ h'.block? d' = w.heap.block? d' := by
  have hlt := ho.lt_next (Or.inr ⟨b', g, hg⟩)
  have hpd : E.ptrAt S blk f ≠ .base d' := fun hp =>
    hne (ho.unique b' g b f d' hg ⟨hb, hf, hr, blk, hl, hp⟩)
  have hdb : d' ≠ b := by
    rintro rfl
    exact ho.disjoint _ _ _ hg hb
  refine ⟨?_, hi.other d' hlt hdb hpd⟩
  rintro rfl
  rcases hi.origin with hp | hn
  · exact hpd hp
  · omega

/-- An array is installed, in the block it had or in a new one. -/
theorem Owned.install (wf : S.WellFormed) (hfit : E.exactSizeFor f n ≤ arr.cells.length) :
    E.Owned S ⟨h', w.structs⟩ := by
  obtain ⟨x, hx, hh, harrs⟩ := ho.live b hb
  obtain rfl := Option.some.inj (hl.symm.trans hx)
  -- an array of the new heap is an old one or the one installed
  have hcase : ∀ b' g d', E.HasArray S ⟨h', w.structs⟩ b' g d' →
      (E.HasArray S w b' g d' ∧ ¬ (b' = b ∧ g = f)) ∨ (b' = b ∧ g = f ∧ d' = d) := by
    rintro b' g d' ⟨hb', hg, hrg, y, hy, hp⟩
    by_cases hbb : b' = b
    · subst hbb
      obtain rfl := Option.some.inj (hi.block.symm.trans hy)
      by_cases hgf : g = f
      · subst hgf
        exact Or.inr ⟨rfl, rfl, (Ptr.loc.inj (hp.symm.trans hi.ptr)).1⟩
      · have hs := hi.frame g hg hgf (wf.countOf_ne_array hf hg hr hrg).symm
        exact Or.inl ⟨⟨hb', hg, hrg, blk, hl, by rw [← hp]; exact (ptrAt_congr hs).symm⟩,
          fun h => hgf h.2⟩
    · have hk := hi.struct_ne ho hb hl hf hr hb' hbb
      exact Or.inl ⟨⟨hb', hg, hrg, y, by rw [← hk]; exact hy, hp⟩, fun h => hbb h.1⟩
  have hdnew : d ∉ w.structs := by
    intro hd
    rcases hi.origin with hp | hn
    · exact ho.disjoint b f d ⟨hb, hf, hr, blk, hl, hp⟩ hd
    · exact absurd (ho.lt_next (Or.inl hd)) (by omega)
  have harray : ∀ b' y g, b' ∈ w.structs → w.heap.block? b' = some y → g ∈ S.fields →
      g.isRepeated = true → ¬ (b' = b ∧ g = f) → E.ArrayOk S w.heap y g → E.ArrayOk S h' y g := by
    intro b' y g hb' hy hg hrg hne harr
    refine harr.imp_right fun ⟨d', arr', hp, hd', hfit'⟩ => ⟨d', arr', hp, ?_, hfit'⟩
    rw [(hi.array_ne ho hb hl hf hr ⟨hb', hg, hrg, y, hy, hp⟩ hne).2, hd']
  refine ⟨fun b' hb' => ?_, fun b' g d' h => ?_, fun b₁ g₁ b₂ g₂ d' h₁ h₂ => ?_⟩
  · by_cases hbb : b' = b
    · subst hbb
      refine ⟨blk', hi.block, by rw [Holds, hi.length]; exact hh, fun g hg hrg => ?_⟩
      by_cases hgf : g = f
      · subst hgf
        refine Or.inr ⟨d, arr, hi.ptr, hi.array, ?_⟩
        rw [hi.count]
        exact hfit
      · have h1 := harray b' blk g hb hl hg hrg (fun h => hgf h.2) (harrs g hg hrg)
        have hp := hi.frame g hg hgf (wf.countOf_ne_array hf hg hr hrg).symm
        have hc := hi.frame _ (wf.countOf_mem hg hrg) (wf.countOf_ne_array hg hf hrg hr)
          fun he => hgf (wf.countOf_inj hg hf hrg hr he)
        unfold ArrayOk at h1 ⊢
        rwa [ptrAt_congr hp, countAt_congr hc]
    · obtain ⟨y, hy, hhy, harr⟩ := ho.live b' hb'
      exact ⟨y, (hi.struct_ne ho hb hl hf hr hb' hbb).trans hy, hhy, fun g hg hrg =>
        harray b' y g hb' hy hg hrg (fun h => hbb h.1) (harr g hg hrg)⟩
  · rcases hcase b' g d' h with ⟨hold', -⟩ | ⟨-, -, rfl⟩
    · exact ho.disjoint b' g d' hold'
    · exact hdnew
  · rcases hcase b₁ g₁ d' h₁ with ⟨k₁, n₁⟩ | ⟨rfl, rfl, rfl⟩
    · rcases hcase b₂ g₂ d' h₂ with ⟨k₂, -⟩ | ⟨rfl, rfl, rfl⟩
      · exact ho.unique b₁ g₁ b₂ g₂ d' k₁ k₂
      · exact absurd rfl (hi.array_ne ho hb hl hf hr k₁ n₁).1
    · rcases hcase b₂ g₂ d' h₂ with ⟨k₂, n₂⟩ | ⟨rfl, rfl, -⟩
      · exact absurd rfl (hi.array_ne ho hb hl hf hr k₂ n₂).1
      · exact ⟨rfl, rfl⟩

end Install

theorem Owned.created (ho : E.Owned S w) (wf : S.WellFormed) {arg : Field → Val}
    (hargs : E.CreateArgs S w.heap arg) (hi : E.Initialised S w.heap arg S.fields h' blk) :
    E.Owned S ⟨h', structsAfter w.structs (.create arg) (.ptr (.base w.heap.next))⟩ := by
  have hmem : ∀ x, x ∈ structsAfter w.structs (.create arg) (.ptr (.base w.heap.next)) ↔
      x ∈ w.structs ∨ x = w.heap.next := by
    intro x
    refine or_congr_right ⟨fun h => (Ptr.loc.inj (Val.ptr.inj h)).1.symm, fun h => by rw [h]⟩
  have hkeep : ∀ d, E.Owns S w d → d < w.heap.next ∧ h'.block? d = w.heap.block? d := fun d hd =>
    ⟨ho.lt_next hd, hi.other d (ho.lt_next hd)⟩
  have hcase : ∀ b f d, E.HasArray S ⟨h', structsAfter w.structs (.create arg)
      (.ptr (.base w.heap.next))⟩ b f d →
      (E.HasArray S w b f d ∧ b < w.heap.next) ∨ (b = w.heap.next ∧ w.heap.next < d ∧
        f ∈ S.fields ∧ f.isRepeated = true ∧ E.ptrAt S blk f = .base d) := by
    rintro b f d ⟨hb, hf, hr, y, hy, hp⟩
    rcases (hmem b).mp hb with hb | rfl
    · obtain ⟨hlt, hk⟩ := hkeep b (Or.inl hb)
      exact Or.inl ⟨⟨hb, hf, hr, y, by rw [← hk]; exact hy, hp⟩, hlt⟩
    · obtain rfl := Option.some.inj (hi.block.symm.trans hy)
      refine Or.inr ⟨rfl, ?_, hf, hr, hp⟩
      cases hm : f.isMutable with
      | true =>
        rw [hi.null f hf hr hm] at hp
        cases hp
      | false =>
        obtain ⟨d', arr, hp', hlt, -⟩ := hi.array f hf hr hm
        rwa [(Ptr.loc.inj (hp.symm.trans hp')).1]
  refine ⟨fun b hb => ?_, fun b f d h hd => ?_, fun b₁ f₁ b₂ f₂ d h₁ h₂ => ?_⟩
  · rcases (hmem b).mp hb with hb | rfl
    · obtain ⟨y, hy, hh, harr⟩ := ho.live b hb
      refine ⟨y, (hkeep b (Or.inl hb)).2.trans hy, hh, fun f hf hr => ?_⟩
      refine (harr f hf hr).imp_right fun ⟨d, arr, hp, hd, hfit⟩ => ⟨d, arr, hp, ?_, hfit⟩
      rw [← hd]
      exact (hkeep d (Or.inr ⟨b, f, hb, hf, hr, y, hy, hp⟩)).2
    · exact ⟨blk, hi.block, hi.holds, fun f hf hr =>
        hi.arrayOk wf hargs hf hf hr (wf.countOf_mem hf hr)⟩
  · rcases hcase b f d h with ⟨h₀, -⟩ | ⟨rfl, hlt, -⟩
    · have := (hkeep d (Or.inr ⟨b, f, h₀⟩)).1
      rcases (hmem d).mp hd with hd | rfl
      · exact ho.disjoint b f d h₀ hd
      · exact absurd this (Nat.lt_irrefl _)
    · rcases (hmem d).mp hd with hd | rfl
      · exact absurd (hkeep d (Or.inl hd)).1 (by omega)
      · exact absurd hlt (Nat.lt_irrefl _)
  · rcases hcase b₁ f₁ d h₁ with ⟨k₁, -⟩ | ⟨rfl, hlt₁, hf₁, hr₁, hp₁⟩
    · have hlt := (hkeep d (Or.inr ⟨b₁, f₁, k₁⟩)).1
      rcases hcase b₂ f₂ d h₂ with ⟨k₂, -⟩ | ⟨rfl, hlt₂, -⟩
      · exact ho.unique b₁ f₁ b₂ f₂ d k₁ k₂
      · exact absurd hlt (by omega)
    · rcases hcase b₂ f₂ d h₂ with ⟨k₂, -⟩ | ⟨rfl, -, hf₂, hr₂, hp₂⟩
      · exact absurd (hkeep d (Or.inr ⟨b₂, f₂, k₂⟩)).1 (by omega)
      · refine ⟨rfl, ?_⟩
        by_contra hne
        exact hi.apart f₁ hf₁ f₂ hf₂ hr₁ hr₂ hne d hp₁ hp₂

/-- The arrays of an owned struct can be freed. -/
theorem Owned.disposable (ho : E.Owned S w) (hb : b ∈ w.structs)
    (hl : w.heap.block? b = some blk) : Disposable E S w.heap b blk S.fields := by
  obtain ⟨x, hx, -, harr⟩ := ho.live b hb
  obtain rfl := Option.some.inj (hl.symm.trans hx)
  refine ⟨fun f hf hr => ?_, fun f hf g hg hrf hrg hne d hp hp' => ?_⟩
  · refine (harr f hf hr).imp (fun h => h.1) fun ⟨d, arr, hp, hd, _⟩ => ⟨d, arr, hp, ?_, hd⟩
    rintro rfl
    exact ho.disjoint d f d ⟨hb, hf, hr, blk, hl, hp⟩ hb
  · exact hne (ho.unique b f b g d ⟨hb, hf, hrf, blk, hl, hp⟩ ⟨hb, hg, hrg, blk, hl, hp'⟩).2

theorem Owned.destroyed (ho : E.Owned S w) (hb : b ∈ w.structs)
    (hl : w.heap.block? b = some blk) {v : Val}
    (hk : ∀ x ≠ b, (∀ f ∈ S.fields, f.isRepeated = true → E.ptrAt S blk f ≠ .base x) →
      h'.block? x = w.heap.block? x) :
    E.Owned S ⟨h', structsAfter w.structs (.destroy (.base b)) v⟩ := by
  have hmem : ∀ x, x ∈ structsAfter w.structs (.destroy (.base b)) v ↔ x ∈ w.structs ∧ x ≠ b := by
    intro x
    refine and_congr_right fun _ => not_congr ⟨fun h => (Ptr.loc.inj h).1.symm, fun h => by rw [h]⟩
  have hstruct : ∀ x ∈ w.structs, x ≠ b → h'.block? x = w.heap.block? x := fun x hx hne =>
    hk x hne fun f hf hr hp => ho.disjoint b f x ⟨hb, hf, hr, blk, hl, hp⟩ hx
  have hcase : ∀ b' f d, E.HasArray S ⟨h', structsAfter w.structs (.destroy (.base b)) v⟩ b' f d →
      E.HasArray S w b' f d ∧ b' ≠ b := by
    rintro b' f d ⟨hb', hf, hr, y, hy, hp⟩
    obtain ⟨hb', hne⟩ := (hmem b').mp hb'
    exact ⟨⟨hb', hf, hr, y, (hstruct b' hb' hne).symm.trans hy, hp⟩, hne⟩
  refine ⟨fun b' hb' => ?_, fun b' f d h hd => ?_, fun b₁ f₁ b₂ f₂ d h₁ h₂ => ?_⟩
  · obtain ⟨hb', hne⟩ := (hmem b').mp hb'
    obtain ⟨y, hy, hh, harr⟩ := ho.live b' hb'
    refine ⟨y, (hstruct b' hb' hne).trans hy, hh, fun f hf hr => ?_⟩
    refine (harr f hf hr).imp_right fun ⟨d, arr, hp, hd, hfit⟩ => ⟨d, arr, hp, ?_, hfit⟩
    have hown : E.HasArray S w b' f d := ⟨hb', hf, hr, y, hy, hp⟩
    rw [← hd]
    refine hk d ?_ fun g hg hrg hpg => ?_
    · rintro rfl
      exact ho.disjoint _ _ _ hown hb
    · exact hne (ho.unique b' f b g d hown ⟨hb, hg, hrg, blk, hl, hpg⟩).1
  · exact ho.disjoint b' f d (hcase b' f d h).1 ((hmem d).mp hd).1
  · exact ho.unique b₁ f₁ b₂ f₂ d (hcase _ _ _ h₁).1 (hcase _ _ _ h₂).1

/-! ## Every call -/

theorem ArrayOk.readable {h : Heap} (harr : E.ArrayOk S h blk f) (hr : f.isRepeated = true) :
    h.Readable (E.ptrAt S blk f) (E.fieldSizeAt S blk f).toNat ∧
      (E.fieldSizeAt S blk f).toNat = E.exactSizeFor f (E.countAt S blk (S.countOf f)) := by
  rw [fieldSizeAt_array hr]
  rcases harr with ⟨-, hc⟩ | ⟨d, arr, hp, hd, hfit⟩
  · rw [hc, sizeFor_toNat (by rw [exactSizeFor_zero]; decide), exactSizeFor_zero]
    exact ⟨Or.inl rfl, rfl⟩
  · have hlt := arr.fits
    rw [sizeFor_toNat (by omega), hp]
    refine ⟨Or.inr ?_, rfl⟩
    rw [Heap.read_loc hd (by simpa using hfit)]
    rfl

/-- A field of an owned struct is loaded and stored with its own size. -/
theorem length_encode_valueAt (flat : S.IsFlat) {h : Heap} (hf : f ∈ S.fields)
    (harr : f.isRepeated = true → E.ArrayOk S h blk f) :
    (E.encode f.type (E.valueAt S blk f)).length = E.layout.storeSize f.type := by
  have wf := flat.toWellFormed
  cases hr : f.isRepeated with
  | false =>
    have hnp := not_pointer wf hf (flat.isStruct f hf) hr
    rw [valueAt, decode, hnp]
    exact length_encode_int E _ _
  | true =>
    obtain ⟨ht, -⟩ := wf.array_spec hf hr
    have hv : E.valueAt S blk f = .ptr (E.ptrAt S blk f) := by
      rw [ptrAt, valueAt, ht]
      rfl
    rw [hv]
    rcases harr hr with ⟨hp, -⟩ | ⟨d, arr, hp, -⟩
    · rw [hp, ht]
      exact length_encode_null E _ _
    · rw [hp, ht]
      exact length_encode_loc E _ _ _ _

theorem getSetter_array (flat : S.IsFlat) (hf : f ∈ S.fields) (hr : f.isRepeated = true)
    (src : Ptr) (n : I64) : E.getSetter S f (.base b) (.ptr src) n =
      E.setRepeated S f (S.countOf f) (.base b) src n := by
  rw [getSetter, insertNullCheck_loc]
  simp only [flat.isStruct f hf, hr, (flat.toWellFormed.array_spec hf hr).2.2.2.2.1,
    Bool.false_eq_true, if_false, if_true]
  rfl

theorem getSetter_count (flat : S.IsFlat) (hf : f ∈ S.fields) (hc : f.isCount = true)
    (hr : f.isRepeated = false) (k : Nat) (n : I64) : E.getSetter S f (.base b) (.int k) n =
      E.setCount S (S.countOf (S.arrayOf f)) (S.arrayOf f) (.base b) (BitVec.ofNat 64 k) := by
  obtain ⟨hd, -, -, hco⟩ := flat.toWellFormed.arrayOf_spec hf hc
  rw [getSetter, insertNullCheck_loc, hco]
  simp only [flat.isStruct f hf, hr, hc, hd, Bool.false_eq_true, if_false, if_true]
  rfl

section Calls

variable (ho : E.Owned S w) (flat : S.IsFlat) (hfun : Resolves E S)
include ho flat hfun

theorem get_owned {Self p : Ptr} (hc : E.Proper S w (.get f Self p)) :
    ∃ v h', E.call S (.get f Self p) w.heap = .ok (v, h') ∧ E.Owned S ⟨h', w.structs⟩ := by
  obtain ⟨⟨b, hb, rfl⟩, hf, x, o, xblk, hout, hx⟩ := hc
  obtain ⟨blk, hl, hh, harr⟩ := ho.live b hb
  have wf := flat.toWellFormed
  have hs := flat.isStruct f hf
  have hne : ∀ d, E.Owns S w d → d ≠ x := fun d hd he => hx (he ▸ hd)
  rw [call_get hfun hf]
  cases hri : (f.isRepeated && !f.isMutable) with
  | false =>
    have hrun := getGetter_direct wf hh hf hl hs hri
      (length_encode_valueAt flat hf (harr f hf)) hout
    exact ⟨_, _, returnBool_ok hrun, ho.frame_heap fun d hd =>
      Heap.block?_update_ne _ (hne d hd) _⟩
  | true =>
    simp only [Bool.and_eq_true, Bool.not_eq_true'] at hri
    rcases getGetter_copy wf hh hf hri.1 hl hri.2 ((harr f hf hri.1).readable hri.1).1 hout with
      ⟨-, copy, -, hrun⟩ | ⟨-, hrun⟩
    · refine ⟨_, _, returnBool_ok hrun, ho.frame_heap fun d hd => ?_⟩
      rw [Heap.block?_update_ne _ (hne d hd), Heap.block?_push_of_lt (ho.lt_next hd)]
    · exact ⟨_, _, returnBool_ok hrun, ho.frame_heap fun _ _ => rfl⟩

theorem getItem_owned {Self p : Ptr} {idx : I64} (hc : E.Proper S w (.getItem f Self idx p)) :
    ∃ v h', E.call S (.getItem f Self idx p) w.heap = .ok (v, h') ∧
      E.Owned S ⟨h', w.structs⟩ := by
  obtain ⟨⟨b, hb, rfl⟩, hf, hr, x, o, xblk, hout, hx⟩ := hc
  obtain ⟨blk, hl, hh, harr⟩ := ho.live b hb
  rw [call_getItem hfun hf hr]
  rcases getItemGetter_ok flat.toWellFormed hh hf hr hl idx (harr f hf hr)
    (flat.elem_not_pointer hf hr) hout with ⟨-, d, arr, -, -, hrun⟩ | ⟨-, hrun⟩
  · refine ⟨_, _, returnBool_ok hrun, ho.frame_heap fun d hd => Heap.block?_update_ne _ ?_ _⟩
    rintro rfl
    exact hx hd
  · exact ⟨_, _, returnBool_ok hrun, ho⟩

omit flat hfun in
/-- An array is not the struct it belongs to. -/
theorem array_ne_struct (hb : b ∈ w.structs) (hl : w.heap.block? b = some blk)
    (hf : f ∈ S.fields) (hr : f.isRepeated = true) : ∀ d, E.ptrAt S blk f = .base d → d ≠ b := by
  rintro d hp rfl
  exact ho.disjoint d f d ⟨hb, hf, hr, blk, hl, hp⟩ hb

theorem setItem_owned {Self : Ptr} {idx : I64} {v : Val}
    (hc : E.Proper S w (.setItem f Self idx v)) :
    ∃ r h', E.call S (.setItem f Self idx v) w.heap = .ok (r, h') ∧
      E.Owned S ⟨h', w.structs⟩ := by
  obtain ⟨⟨b, hb, rfl⟩, hf, hr, k, rfl⟩ := hc
  obtain ⟨blk, hl, hh, harr⟩ := ho.live b hb
  have wf := flat.toWellFormed
  rw [call_setItem hfun hf hr]
  rcases getItemSetter_ok wf hh hf hr hl idx k (harr f hf hr)
    (array_ne_struct ho hb hl hf hr) with ⟨hidx, h', d, arr, hd, hrun, hi⟩ | ⟨-, hrun⟩
  · refine ⟨_, _, returnBool_ok hrun, ho.install hb hl hf hr hi wf ?_⟩
    rcases harr f hf hr with ⟨hn, -⟩ | ⟨d', arr', hp, hd', hfit⟩
    · rw [hi.ptr] at hn
      cases hn
    · rw [← (Ptr.loc.inj (hi.ptr.symm.trans hp)).1, hd] at hd'
      rw [putItem, Block.length_overwrite, Option.some.inj hd']
      exact hfit
  · exact ⟨_, _, returnBool_ok hrun, ho⟩

variable (hA : ∀ t n, 0 < n → E.alloc.succeeds t n = true)
include hA

theorem setArray_owned {Self src : Ptr} {n : I64} (hc : E.Proper S w (.setArray f Self src n))
    (hsafe : E.Safe S w (.setArray f Self src n)) :
    ∃ r h', E.call S (.setArray f Self src n) w.heap = .ok (r, h') ∧
      E.Owned S ⟨h', w.structs⟩ := by
  obtain ⟨⟨b, hb, rfl⟩, hf, hm, hr, hlt, hread, hown⟩ := hc
  obtain ⟨blk, hl, hh, harr⟩ := ho.live b hb
  have wf := flat.toWellFormed
  have hsrc : E.Source S w.heap b blk f src n :=
    { size := hlt
      readable := hread
      not_struct := fun o he => hown b o he (Or.inl hb)
      not_array := fun d o hp he => hown d o he (Or.inr ⟨b, f, hb, hf, hr, blk, hl, hp⟩) }
  rw [call_setArray hfun hf hm, getSetter_array flat hf hr]
  rcases setRepeated_ok wf hh hf hr hl hA (E.layout.allocSize_pos (flat.elem_isScalar hf hr))
    (harr f hf hr) (array_ne_struct ho hb hl hf hr) hsrc
    (fun h0 => hsafe h0 b blk rfl hl) with
    ⟨h', blk', d, arr, hrun, hi, hfill⟩ | ⟨-, h', blk', hrun, hk⟩
  · exact ⟨_, _, returnBool_ok hrun, ho.install hb hl hf hr hi wf hfill.1⟩
  · exact ⟨_, _, returnBool_ok hrun, ho.keeps wf hb hl hk⟩

theorem set_owned {Self : Ptr} {v : Val} (hc : E.Proper S w (.set f Self v))
    (hsafe : E.Safe S w (.set f Self v)) :
    ∃ r h', E.call S (.set f Self v) w.heap = .ok (r, h') ∧ E.Owned S ⟨h', w.structs⟩ := by
  obtain ⟨⟨b, hb, rfl⟩, hf, hm, hr, k, rfl⟩ := hc
  obtain ⟨blk, hl, hh, harr⟩ := ho.live b hb
  have wf := flat.toWellFormed
  have hs := flat.isStruct f hf
  rw [call_set hfun hf hm]
  cases hcount : f.isCount with
  | false =>
    exact ⟨_, _, returnBool_ok (getSetter_scalar wf hh hf hl hs hr hcount k),
      ho.scalar wf hb hl hf hr hcount (length_encode_int E _ _)⟩
  | true =>
    obtain ⟨-, hg, hrg, -⟩ := wf.arrayOf_spec hf hcount
    rw [getSetter_count flat hf hcount hr]
    rcases setCount_ok wf hh hg hrg hl hA (E.layout.allocSize_pos (flat.elem_isScalar hg hrg))
      (harr _ hg hrg) (array_ne_struct ho hb hl hg hrg) (hsafe hcount b blk rfl hl) with
      ⟨-, -, h', blk', d, arr, hrun, hi, hres⟩ | ⟨-, h', blk', hrun, hk⟩
    · exact ⟨_, _, returnBool_ok hrun, ho.install hb hl hg hrg hi wf (Nat.le_of_eq hres.1.symm)⟩
    · exact ⟨_, _, returnBool_ok hrun, ho.keeps wf hb hl hk⟩

/-- A proper and safe call returns and keeps ownership. -/
theorem call_owned (hstruct : E.layout.structSize S.packed S.elements < 2 ^ 64) {c : Call}
    (hc : E.Proper S w c) (hsafe : E.Safe S w c) :
    ∃ v h', E.call S c w.heap = .ok (v, h') ∧ E.Owned S ⟨h', structsAfter w.structs c v⟩ := by
  cases c with
  | create arg =>
    rw [call_create hfun]
    rcases getConstructor_ok flat hsafe hstruct hc with ⟨h', blk, hrun, hi⟩ | ⟨-, h', hrun, hk⟩
    · exact ⟨_, _, bind_of_ok hrun, ho.created flat.toWellFormed hc hi⟩
    · have hsame : structsAfter w.structs (.create arg) (.ptr .null) = w.structs := by
        ext b
        exact or_iff_left fun h => nomatch h
      refine ⟨_, _, bind_of_ok hrun, ?_⟩
      rw [hsame]
      exact ho.frame_heap fun d hd => hk d (ho.lt_next hd)
  | get f Self p => exact get_owned ho flat hfun hc
  | getItem f Self idx p => exact getItem_owned ho flat hfun hc
  | set f Self v => exact set_owned ho flat hfun hA hc hsafe
  | setArray f Self src n => exact setArray_owned ho flat hfun hA hc hsafe
  | setItem f Self idx v => exact setItem_owned ho flat hfun hc
  | destroy Self =>
    obtain ⟨b, hb, rfl⟩ := hc
    obtain ⟨blk, hl, hh, -⟩ := ho.live b hb
    obtain ⟨h', hrun, -, -, hk⟩ := getDestructor_ok flat hl hh (ho.disposable hb hl)
    rw [call_destroy hfun]
    exact ⟨_, _, bind_of_ok hrun, ho.destroyed hb hl hk⟩

end Calls

/-! ## Unsafe calls -/

/-- A struct whose array has been freed is not owned. -/
theorem not_owned_of_freed (hb : b ∈ w.structs) (hf : f ∈ S.fields) (hr : f.isRepeated = true)
    (hl : w.heap.block? b = some blk) (hp : E.ptrAt S blk f = .base d)
    (hd : w.heap.block? d = none) : ¬ E.Owned S w := by
  intro ho
  obtain ⟨x, hx, -, harr⟩ := ho.live b hb
  obtain rfl := Option.some.inj (hl.symm.trans hx)
  rcases harr f hf hr with ⟨hn, -⟩ | ⟨d', arr, hp', hd', -⟩
  · rw [hp] at hn
    cases hn
  · rw [← (Ptr.loc.inj (hp.symm.trans hp')).1, hd] at hd'
    cases hd'

/-- Nor is one whose array is too small. -/
theorem not_owned_of_short (hb : b ∈ w.structs) (hf : f ∈ S.fields) (hr : f.isRepeated = true)
    {n : I64} {h : Heap} {arr : Block} (hi : E.Installs S h b blk' f n d arr w.heap blk)
    (hshort : arr.cells.length < E.exactSizeFor f n) : ¬ E.Owned S w := by
  intro ho
  obtain ⟨x, hx, -, harr⟩ := ho.live b hb
  obtain rfl := Option.some.inj (hi.block.symm.trans hx)
  rcases harr f hf hr with ⟨hn, -⟩ | ⟨d', arr', hp', hd', hfit⟩
  · rw [hi.ptr] at hn
    cases hn
  · rw [← (Ptr.loc.inj (hi.ptr.symm.trans hp')).1] at hd'
    obtain rfl := Option.some.inj (hi.array.symm.trans hd')
    rw [hi.count] at hfit
    omega

section Unsafe

variable (ho : E.Owned S w) (wf : S.WellFormed) (hb : b ∈ w.structs)
  (hl : w.heap.block? b = some blk) (hf : f ∈ S.fields) (hr : f.isRepeated = true)
include ho wf hb hl hf hr

/-- Setting a nonempty array to length 0 frees it and keeps the pointer. -/
theorem setRepeated_zero (src : Ptr) (hp : E.ptrAt S blk f ≠ .null)
    (hc : E.countAt S blk (S.countOf f) ≠ 0) :
    ∃ h', E.setRepeated S f (S.countOf f) (.base b) src 0 w.heap = .ok (false, h') ∧
      ¬ E.Owned S ⟨h', w.structs⟩ := by
  obtain ⟨x, hx, hh, harr⟩ := ho.live b hb
  obtain rfl := Option.some.inj (hl.symm.trans hx)
  obtain ⟨d, arr, hpd, hd, -⟩ := (harr f hf hr).resolve_left fun h => hp h.1
  have hdb := array_ne_struct ho hb hl hf hr d hpd
  have hl₁ := Heap.block?_update_self hl (E.putCount S blk f 0)
  have hh₁ := holds_putCount (f := f) hh 0
  have hd₁ : (w.heap.update b (E.putCount S blk f 0)).block? d = some arr := by
    rw [Heap.block?_update_ne _ hdb, hd]
  have hp' : (E.decode f.type (E.slot S blk f)).asPtr = .base d := hpd
  have hz : E.sizeFor f 0 = 0 := BitVec.mul_zero
  have hl₂ : ((w.heap.update b (E.putCount S blk f 0)).kill d).tick.block? b = _ :=
    (Heap.block?_kill_ne _ (Ne.symm hdb)).trans hl₁
  refine ⟨((w.heap.update b (E.putCount S blk f 0)).kill d).tick, ?_,
    not_owned_of_freed (d := d) hb hf hr hl₂ ?_ (Heap.block?_kill_self _ _)⟩
  · rw [setRepeated, bind_of_ok (loadTy_slot wf hl hh hf), hp', Ptr.isNotNull_loc, if_pos rfl,
      bind_of_ok (loadI64_slot wf hl hh (wf.countOf_mem hf hr) (wf.countOf_type hf hr)),
      if_neg hc, bind_of_ok (storeCount_slot wf hl hh hf hr 0),
      bind_of_ok (getFieldAllocSize_slot wf hl₁ hh₁ hf), fieldSizeAt_putCount wf hf hr hh, hz,
      bind_of_ok (realloc_zero hd₁), insertNullCheck_null, pure_apply]
  · rw [ptrAt_putCount wf hf hr hh, hpd]

/-- A count whose size wraps to 0 frees the array as well. -/
theorem setCount_zero {n : I64} (hn : n ≠ 0) (hz : E.sizeFor f n = 0)
    (hp : E.ptrAt S blk f = .base d) :
    ∃ h', E.setCount S (S.countOf f) f (.base b) n w.heap = .ok (false, h') ∧
      ¬ E.Owned S ⟨h', w.structs⟩ := by
  obtain ⟨x, hx, hh, harr⟩ := ho.live b hb
  obtain rfl := Option.some.inj (hl.symm.trans hx)
  obtain ⟨d', arr, hpd, hd, -⟩ := (harr f hf hr).resolve_left fun h => by rw [hp] at h; cases h.1
  obtain rfl : d = d' := (Ptr.loc.inj (hp.symm.trans hpd)).1
  have hdb := array_ne_struct ho hb hl hf hr d hpd
  have hl₁ := Heap.block?_update_self hl (E.putCount S blk f n)
  have hh₁ := holds_putCount (f := f) hh n
  have hd₁ : (w.heap.update b (E.putCount S blk f n)).block? d = some arr := by
    rw [Heap.block?_update_ne _ hdb, hd]
  have hl₂ : ((w.heap.update b (E.putCount S blk f n)).kill d).tick.block? b = _ :=
    (Heap.block?_kill_ne _ (Ne.symm hdb)).trans hl₁
  refine ⟨((w.heap.update b (E.putCount S blk f n)).kill d).tick.update b
      (E.putCount S (E.putCount S blk f n) f (E.countAt S blk (S.countOf f))), ?_,
    not_owned_of_freed (d := d) hb hf hr (Heap.block?_update_self hl₂ _) ?_ ?_⟩
  · rw [setCount_head wf hh hf hr hl hn, hp, hz, bind_of_ok (realloc_zero hd₁),
      bind_of_ok (storeCount_slot wf hl₂ hh₁ hf hr _), insertNullCheck_null, pure_apply]
  · rw [ptrAt_putCount wf hf hr hh₁, ptrAt_putCount wf hf hr hh, hpd]
  · rw [Heap.block?_update_ne _ hdb]
    exact Heap.block?_kill_self _ _

/-- A count whose size does not fit 64 bits never leaves an array behind that has room. -/
theorem setCount_wrap (hA : ∀ t n, 0 < n → E.alloc.succeeds t n = true) {n : I64}
    (hlarge : 2 ^ 64 ≤ E.exactSizeFor f n)
    (hn : ¬ (E.ptrAt S blk f = .null ∧ E.sizeFor f n = 0 ∧
      E.alloc.succeeds w.heap.calls 0 = false)) :
    ∃ r h', E.setCount S (S.countOf f) f (.base b) n w.heap = .ok (r, h') ∧
      ¬ E.Owned S ⟨h', w.structs⟩ := by
  obtain ⟨x, hx, hh, harr⟩ := ho.live b hb
  obtain rfl := Option.some.inj (hl.symm.trans hx)
  have hn0 : n ≠ 0 := by
    rintro rfl
    rw [exactSizeFor_zero] at hlarge
    omega
  have hshort : ∀ {arr : Block}, arr.cells.length < E.exactSizeFor f n := fun {arr} => by
    have := arr.fits
    omega
  rcases harr f hf hr with ⟨hp, -⟩ | ⟨d, arr, hp, hd, -⟩
  · have hsuc : E.alloc.succeeds w.heap.calls (E.sizeFor f n).toNat = true := by
      by_cases hz : E.sizeFor f n = 0
      · rw [hz]
        exact (Bool.not_eq_false _).mp fun h => hn ⟨hp, hz, h⟩
      · exact hA _ _ (Nat.pos_of_ne_zero fun h => hz (BitVec.eq_of_toNat_eq h))
    obtain ⟨h', blk', d, arr, hrun, hi, -⟩ := setCount_fresh wf hh hf hr hl hn0 hp hsuc
    exact ⟨true, h', hrun, not_owned_of_short (w := ⟨h', w.structs⟩) hb hf hr hi hshort⟩
  · by_cases hz : E.sizeFor f n = 0
    · obtain ⟨h', hrun, hno⟩ := setCount_zero ho wf hb hl hf hr hn0 hz hp
      exact ⟨false, h', hrun, hno⟩
    · obtain ⟨h', blk', d', arr', hrun, hi, -⟩ := setCount_realloc wf hh hf hr hl hn0 hp
        (array_ne_struct ho hb hl hf hr d hp) hd hz
        (hA _ _ (Nat.pos_of_ne_zero fun h => hz (BitVec.eq_of_toNat_eq h)))
      exact ⟨true, h', hrun, not_owned_of_short (w := ⟨h', w.structs⟩) hb hf hr hi hshort⟩

end Unsafe

/-- A setter called properly keeps ownership if and only if the call is safe. -/
theorem setter_owned_iff (ho : E.Owned S w) (flat : S.IsFlat) (hfun : Resolves E S)
    (hA : ∀ t n, 0 < n → E.alloc.succeeds t n = true) {c : Call} (hc : E.Proper S w c)
    (hu : ∃ Self, IsUpdate S Self c) :
    ∃ v h', E.call S c w.heap = .ok (v, h') ∧ (E.Owned S ⟨h', w.structs⟩ ↔ E.Safe S w c) := by
  have wf := flat.toWellFormed
  cases c with
  | set f Self v =>
    by_cases hsafe : E.Safe S w (.set f Self v)
    · obtain ⟨r, h', hrun, ho'⟩ := set_owned ho flat hfun hA hc hsafe
      exact ⟨r, h', hrun, iff_of_true ho' hsafe⟩
    · have hunsafe := hsafe
      obtain ⟨⟨b, hb, rfl⟩, hf, hm, hr, k, rfl⟩ := hc
      simp only [Safe, not_forall, not_or, Nat.not_lt] at hunsafe
      obtain ⟨hcount, b', blk, he, hl, hlarge, hn⟩ := hunsafe
      obtain rfl : b = b' := (Ptr.loc.inj he).1
      obtain ⟨-, hg, hrg, -⟩ := wf.arrayOf_spec hf hcount
      rw [call_set hfun hf hm, getSetter_count flat hf hcount hr]
      obtain ⟨r, h', hrun, hno⟩ := setCount_wrap ho wf hb hl hg hrg hA hlarge hn
      exact ⟨_, h', returnBool_ok hrun, iff_of_false hno hsafe⟩
  | setArray f Self src n =>
    by_cases hsafe : E.Safe S w (.setArray f Self src n)
    · obtain ⟨r, h', hrun, ho'⟩ := setArray_owned ho flat hfun hA hc hsafe
      exact ⟨r, h', hrun, iff_of_true ho' hsafe⟩
    · have hunsafe := hsafe
      obtain ⟨⟨b, hb, rfl⟩, hf, hm, hr, -⟩ := hc
      simp only [Safe, not_forall, not_or] at hunsafe
      obtain ⟨rfl, b', blk, he, hl, hp, hcount⟩ := hunsafe
      obtain rfl : b = b' := (Ptr.loc.inj he).1
      rw [call_setArray hfun hf hm, getSetter_array flat hf hr]
      obtain ⟨h', hrun, hno⟩ := setRepeated_zero ho wf hb hl hf hr src hp hcount
      exact ⟨_, h', returnBool_ok hrun, iff_of_false hno hsafe⟩
  | setItem f Self idx v =>
    obtain ⟨r, h', hrun, ho'⟩ := setItem_owned ho flat hfun hc
    exact ⟨r, h', hrun, iff_of_true ho' trivial⟩
  | create arg => exact hu.elim fun _ h => h.elim
  | get f Self p => exact hu.elim fun _ h => h.elim
  | getItem f Self idx p => exact hu.elim fun _ h => h.elim
  | destroy Self => exact hu.elim fun _ h => h.elim

variable (E S) in
/-- What ownership is good for. Every proper and safe call returns; an item that the bounds check
    admits lies in a live block; `destroy_S` frees the blocks of a struct, each once (freeing a
    block twice is a fault), and no other. -/
structure Sound (w : World) : Prop where
  owned : E.Owned S w
  returns : ∀ w₁ c, E.CallerStep S w w₁ → E.Proper S w₁ c → E.Safe S w₁ c →
    ∃ v h', E.call S c w₁.heap = .ok (v, h')
  item : ∀ b ∈ w.structs, ∀ blk, w.heap.block? b = some blk → ∀ f ∈ S.fields,
    f.isRepeated = true → ∀ idx < E.countAt S blk (S.countOf f), ∃ d o arr,
      E.itemGEP f.elem (E.ptrAt S blk f) idx = .loc d o ∧ E.HasArray S w b f d ∧
      w.heap.block? d = some arr ∧ o.toNat + E.layout.allocSize f.elem ≤ arr.cells.length
  destroy : ∀ b ∈ w.structs, ∃ h', E.call S (.destroy (.base b)) w.heap = .ok (.int 0, h') ∧
    h'.block? b = none ∧ (∀ f d, E.HasArray S w b f d → h'.block? d = none) ∧
    ∀ x ≠ b, (∀ f, ¬ E.HasArray S w b f x) → h'.block? x = w.heap.block? x

theorem Owned.sound (ho : E.Owned S w) (flat : S.IsFlat) (hfun : Resolves E S)
    (hA : ∀ t n, 0 < n → E.alloc.succeeds t n = true)
    (hstruct : E.layout.structSize S.packed S.elements < 2 ^ 64) : E.Sound S w where
  owned := ho
  returns w₁ c hw hc hsafe := by
    obtain ⟨v, h', hrun, -⟩ := call_owned (ho.caller hw) flat hfun hA hstruct hc hsafe
    exact ⟨v, h', hrun⟩
  item b hb blk hl f hf hr idx hidx := by
    obtain ⟨x, hx, -, harr⟩ := ho.live b hb
    obtain rfl := Option.some.inj (hl.symm.trans hx)
    rcases harr f hf hr with ⟨-, hc⟩ | ⟨d, arr, hp, hd, hfit⟩
    · rw [hc] at hidx
      exact absurd hidx (by bv_omega)
    · obtain ⟨o, hgep, -, hofit⟩ := item_fits hidx hfit
      exact ⟨d, o, arr, by rw [hp, hgep], ⟨hb, hf, hr, blk, hl, hp⟩, hd, hofit⟩
  destroy b hb := by
    obtain ⟨blk, hl, hh, -⟩ := ho.live b hb
    obtain ⟨h', hrun, hgone, harr, hk⟩ := getDestructor_ok flat hl hh (ho.disposable hb hl)
    rw [call_destroy hfun]
    refine ⟨h', bind_of_ok hrun, hgone, ?_, fun x hx hno => hk x hx fun f hf hr hp =>
      hno f ⟨hb, hf, hr, blk, hl, hp⟩⟩
    rintro f d ⟨-, hf, hr, y, hy, hp⟩
    obtain rfl := Option.some.inj (hl.symm.trans hy)
    exact harr f hf hr d hp

end Env

open Env

/-- In every run of proper calls that are all safe, from a heap without structs and with no
    allocation of a positive size failing: ownership holds in the state reached. -/
theorem ownership {A : Allocator} {DL : DataLayout} {S : Struct} (flat : S.IsFlat)
    (hn : S.DistinctNames) (hstruct : DL.structSize S.packed S.elements < 2 ^ 64)
    (hA : ∀ t n, 0 < n → A.succeeds t n = true) {w₀ w : World} (h₀ : w₀.structs = ∅)
    {es : List (Call × Val)}
    (hrun : Run (WorldStep (Env.ofStruct A DL S) S (Safe (Env.ofStruct A DL S) S)) w₀ es w) :
    (Env.ofStruct A DL S).Sound S w := by
  have hfun := resolves_ofStruct A DL hn
  refine Owned.sound (hrun.invariant (fun w e w' ho hstep => ?_) (owned_of_empty h₀)) flat hfun hA
    hstruct
  obtain ⟨w₁, hcaller, hproper, hsafe, hcall, hs⟩ := hstep
  obtain ⟨v, h', hrun', ho'⟩ :=
    call_owned (ho.caller hcaller) flat hfun hA hstruct hproper hsafe
  obtain ⟨rfl, rfl⟩ : e.2 = v ∧ w'.heap = h' := by
    have := hcall.symm.trans hrun'
    simpa using this
  rw [hcaller.1, ← hs] at ho'
  exact ho'

/-- A world whose only struct, a `path`, is block 0. -/
def pathWorld (blocks : List (Option Block)) (calls : Nat) : World where
  heap := ⟨blocks, calls⟩
  structs := structsAfter ∅ (.create fun _ => .int 7) (.ptr (.base 0))

/-- A `path` with `xCount` floats announced in block 1. -/
def grownPath (xCount : Nat) : Block where
  cells := encodeInt false 4 7 ++ encodeInt false 8 xCount ++ encodePtr 8 (.base 1) ++
    encodeInt false 8 0 ++ encodePtr 8 .null
  fits := by simp [encodePtr]

/-- What `malloc(0)` returns. -/
def emptyBlock : Block := ⟨[], by decide⟩

theorem mem_pathWorld (blocks : List (Option Block)) (calls : Nat) :
    0 ∈ (pathWorld blocks calls).structs := Or.inr rfl

theorem create_pathWorld (cond : World → Call → Prop)
    (hc : cond ⟨⟨[], 0⟩, ∅⟩ (.create fun _ => .int 7)) :
    WorldStep (Env.ofStruct .calloc .default pathStruct) pathStruct cond ⟨⟨[], 0⟩, ∅⟩
      (.create fun _ => .int 7, .ptr (.base 0)) (pathWorld [some (createdPath 0)] 1) := by
  refine ⟨_, ⟨rfl, fun _ _ => rfl⟩, ⟨fun f hf hm hr => ⟨7, rfl⟩, ?_⟩, hc, rfl, rfl⟩
  have hnone : ∀ f ∈ pathStruct.fields, f.isMutable = false → f.isRepeated = false := by decide
  intro f hf hm hr
  rw [hnone f hf hm] at hr
  cases hr

/-- `set_path_x_count`. -/
theorem setCount_pathWorld (cond : World → Call → Prop) {n : Nat}
    (hc : cond (pathWorld [some (createdPath 0)] 1)
      (.set (pathStruct.countOf pathX) (.base 0) (.int n)))
    (h' : Heap) (hrun : CallStep (Env.ofStruct .calloc .default pathStruct) pathStruct
      ⟨[some (createdPath 0)], 1⟩ (.set (pathStruct.countOf pathX) (.base 0) (.int n), .int 1) h') :
    WorldStep (Env.ofStruct .calloc .default pathStruct) pathStruct cond
      (pathWorld [some (createdPath 0)] 1)
      (.set (pathStruct.countOf pathX) (.base 0) (.int n), .int 1)
      (pathWorld h'.blocks h'.calls) :=
  ⟨_, ⟨rfl, fun _ _ => rfl⟩, ⟨⟨0, mem_pathWorld _ _, rfl⟩, by decide, rfl, rfl, n, rfl⟩, hc, hrun,
    rfl⟩

/-- A count of `2 ^ 62` floats: the block allocated for them is empty. -/
theorem setCount_wraps : ∃ w, Run (WorldStep (Env.ofStruct .calloc .default pathStruct) pathStruct
      fun _ _ => True) ⟨⟨[], 0⟩, ∅⟩
      [(.create fun _ => .int 7, .ptr (.base 0)),
        (.set (pathStruct.countOf pathX) (.base 0) (.int 4611686018427387904), .int 1)] w ∧
    ¬ (Env.ofStruct .calloc .default pathStruct).Owned pathStruct w := by
  refine ⟨_, .cons (create_pathWorld _ trivial) (.cons (setCount_pathWorld _ trivial
    ⟨[some (grownPath 4611686018427387904), some emptyBlock], 2⟩ rfl) (.nil _)), fun ho => ?_⟩
  obtain ⟨blk, hl, -, harr⟩ := ho.live 0 (mem_pathWorld _ _)
  obtain rfl : grownPath 4611686018427387904 = blk := Option.some.inj hl
  have hp : (Env.ofStruct .calloc .default pathStruct).ptrAt pathStruct
      (grownPath 4611686018427387904) pathX = .base 1 := by decide
  have hc : (Env.ofStruct .calloc .default pathStruct).countAt pathStruct
      (grownPath 4611686018427387904) (pathStruct.countOf pathX) = 4611686018427387904 := by decide
  rcases harr pathX (by decide) rfl with ⟨hn, -⟩ | ⟨d, arr, hpd, hd, hfit⟩
  · rw [hp] at hn
    cases hn
  · rw [hc] at hfit
    rw [← (Ptr.loc.inj (hp.symm.trans hpd)).1] at hd
    obtain rfl : emptyBlock = arr := Option.some.inj hd
    revert hfit
    decide

theorem ownership_path : ∃ w,
    Run (WorldStep (Env.ofStruct .calloc .default pathStruct) pathStruct
      (Safe (Env.ofStruct .calloc .default pathStruct) pathStruct)) ⟨⟨[], 0⟩, ∅⟩
      [(.create fun _ => .int 7, .ptr (.base 0)),
        (.set (pathStruct.countOf pathX) (.base 0) (.int 2), .int 1)] w ∧
    (Env.ofStruct .calloc .default pathStruct).Sound pathStruct w := by
  have hrun : Run (WorldStep (Env.ofStruct .calloc .default pathStruct) pathStruct
      (Safe (Env.ofStruct .calloc .default pathStruct) pathStruct)) ⟨⟨[], 0⟩, ∅⟩
      [(.create fun _ => .int 7, .ptr (.base 0)),
        (.set (pathStruct.countOf pathX) (.base 0) (.int 2), .int 1)] _ :=
    .cons (create_pathWorld _ (by unfold Safe; decide)) (.cons (setCount_pathWorld _
      (fun _ _ _ _ _ => Or.inl (by decide))
      ⟨[some (grownPath 2), some (Allocator.calloc.fresh 1 8)], 2⟩ rfl) (.nil _))
  exact ⟨_, hrun, ownership pathStruct_isFlat pathStruct_distinctNames (by decide)
    (fun _ _ _ => rfl) rfl hrun⟩

end Tyr
