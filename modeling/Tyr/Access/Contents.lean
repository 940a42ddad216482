import Tyr.Access.Ownership
import Tyr.Access.Record

/-
  What the blocks of a struct say.

  `itemsIn` reads an array as a list of numbers. `Shows`: a struct in memory shows a record.
  `Represents`: each live struct shows the record a store has for it.
  The lemmas say how the list read changes with the block: `itemsIn_filled` for the array
  setter, `itemsIn_resized` for the count setter, `itemsIn_putItem` for the item setter; and
  how the store follows a change of one struct (`Represents.modify`).
-/

namespace Tyr

namespace Env

variable (E : Env) (S : Struct)

/-! ## Elements -/

/-- Element `i` of an array whose bytes are `cs`. -/
def itemOf (t : Ty) (cs : List Cell) (i : Nat) : Nat :=
  (E.decode t (slice cs (E.layout.allocSize t * i) (E.layout.storeSize t))).asInt

def itemsOf (t : Ty) (cs : List Cell) (n : Nat) : List Nat := (List.range n).map (E.itemOf t cs)

/-- The `n` elements at `p`. -/
def itemsAt (h : Heap) (t : Ty) (p : Ptr) (n : Nat) : List Nat :=
  E.itemsOf t (h.bytesAt p (E.layout.allocSize t * n)) n

/-- The elements of array `f` of a struct. -/
def itemsIn (h : Heap) (blk : Block) (f : Field) : List Nat :=
  E.itemsAt h f.elem (E.ptrAt S blk f) (E.countAt S blk (S.countOf f)).toNat

variable {E S} {h h' : Heap} {b d : Nat} {blk blk' arr : Block} {f : Field} {t : Ty} {n : I64}
  {cs ds : List Cell} {k : Nat}

@[simp] theorem length_itemsOf (cs : List Cell) (k : Nat) : (E.itemsOf t cs k).length = k := by
  simp [itemsOf]

theorem getElem?_itemsOf (cs : List Cell) {i : Nat} (hi : i < k) :
    (E.itemsOf t cs k)[i]? = some (E.itemOf t cs i) := by
  simp [itemsOf, hi]

/-- An element depends on its own bytes. -/
theorem itemOf_congr {i : Nat} (he : slice cs 0 k = slice ds 0 k)
    (hk : E.layout.allocSize t * i + E.layout.allocSize t ≤ k) :
    E.itemOf t cs i = E.itemOf t ds i := by
  have hst := E.layout.storeSize_le_allocSize t
  have key : ∀ l : List Cell, slice l (E.layout.allocSize t * i) (E.layout.storeSize t) =
      slice (slice l 0 k) (E.layout.allocSize t * i) (E.layout.storeSize t) := by
    intro l
    rw [slice_slice (by omega), Nat.zero_add]
  rw [itemOf, itemOf, key cs, key ds, he]

theorem mul_succ_le {i : Nat} (hi : i < k) (a : Nat) : a * i + a ≤ a * k := by
  calc a * i + a = a * (i + 1) := (Nat.mul_succ a i).symm
    _ ≤ a * k := Nat.mul_le_mul_left a hi

theorem itemsOf_congr (he : slice cs 0 (E.layout.allocSize t * k) =
    slice ds 0 (E.layout.allocSize t * k)) : E.itemsOf t cs k = E.itemsOf t ds k := by
  refine List.map_congr_left fun i hi => itemOf_congr he ?_
  exact mul_succ_le (List.mem_range.mp hi) _

theorem itemsIn_null (hc : E.countAt S blk (S.countOf f) = 0) : E.itemsIn S h blk f = [] := by
  rw [itemsIn, hc]
  rfl

theorem itemsIn_array (hp : E.ptrAt S blk f = .base d) (hd : h.block? d = some arr)
    (hfit : E.exactSizeFor f (E.countAt S blk (S.countOf f)) ≤ arr.cells.length) :
    E.itemsIn S h blk f =
      E.itemsOf f.elem arr.cells (E.countAt S blk (S.countOf f)).toNat := by
  have hread := Heap.read_loc (o := 0) hd (by simpa [exactSizeFor] using hfit)
  have hby : h.bytesAt (.base d) (E.layout.allocSize f.elem *
      (E.countAt S blk (S.countOf f)).toNat) = slice arr.cells 0 (E.layout.allocSize f.elem *
      (E.countAt S blk (S.countOf f)).toNat) := by
    rw [Heap.bytesAt, hread]
    rfl
  rw [itemsIn, itemsAt, hp, hby]
  apply itemsOf_congr
  rw [slice_slice (by omega)]

@[simp] theorem length_itemsIn (h : Heap) (blk : Block) (f : Field) :
    (E.itemsIn S h blk f).length = (E.countAt S blk (S.countOf f)).toNat :=
  length_itemsOf _ _

/-- The elements of an array that stays where it is. -/
theorem itemsIn_congr (hp : E.ptrAt S blk' f = E.ptrAt S blk f)
    (hc : E.countAt S blk' (S.countOf f) = E.countAt S blk (S.countOf f))
    (harr : E.ArrayOk S h blk f)
    (hd : ∀ d, E.ptrAt S blk f = .base d → h'.block? d = h.block? d) :
    E.itemsIn S h' blk' f = E.itemsIn S h blk f := by
  rcases harr with ⟨-, hz⟩ | ⟨d, arr, hpd, hdl, hfit⟩
  · rw [itemsIn_null (hc.trans hz), itemsIn_null hz]
  · rw [itemsIn_array hpd hdl hfit, itemsIn_array (hp.trans hpd) ((hd d hpd).trans hdl)
      (by rw [hc]; exact hfit), hc]

/-- What the array setter leaves. -/
theorem itemsIn_filled {src : Ptr} (hi : E.Installs S h b blk f n d arr h' blk')
    (hfill : Filled h src (E.exactSizeFor f n) arr) :
    E.itemsIn S h' blk' f = E.itemsAt h f.elem src n.toNat := by
  rw [itemsIn_array hi.ptr hi.array (by rw [hi.count]; exact hfill.1), hi.count, itemsAt]
  apply itemsOf_congr
  show slice arr.cells 0 (E.exactSizeFor f n) = slice (h.bytesAt src (E.exactSizeFor f n)) 0
    (E.exactSizeFor f n)
  rw [← hfill.2, slice_slice (by omega)]

/-- What the count setter leaves: the elements that fit. -/
theorem itemsIn_resized (harr : E.ArrayOk S h blk f) (hi : E.Installs S h b blk f n d arr h' blk')
    (hres : Resized h (E.ptrAt S blk f) (E.exactSizeFor f n) arr) :
    (E.itemsIn S h' blk' f).length = n.toNat ∧
      ∀ i < n.toNat, i < (E.itemsIn S h blk f).length →
        (E.itemsIn S h' blk' f)[i]? = (E.itemsIn S h blk f)[i]? := by
  have hlen : (E.itemsIn S h' blk' f).length = n.toNat := by rw [length_itemsIn, hi.count]
  refine ⟨hlen, fun i hin hio => ?_⟩
  rw [length_itemsIn] at hio
  rcases harr with ⟨-, hz⟩ | ⟨d₀, old, hp, hd, hfit⟩
  · rw [hz] at hio
    exact absurd hio (Nat.not_lt_zero i)
  · rw [itemsIn_array hi.ptr hi.array (by rw [hi.count, hres.1]), itemsIn_array hp hd hfit,
      hi.count, getElem?_itemsOf _ hin, getElem?_itemsOf _ hio]
    have h1 := mul_succ_le hin (E.layout.allocSize f.elem)
    have h2 := mul_succ_le hio (E.layout.allocSize f.elem)
    congr 1
    exact itemOf_congr (hres.2 d₀ old hp hd _ h1 (Nat.le_trans h2 hfit)) (Nat.le_refl _)

/-- What the item setter leaves. -/
theorem itemsOf_putItem {idx : I64} {v : Nat} (hel : f.elem.isPointerTy = false)
    (hv : v < 2 ^ E.layout.getTypeSizeInBits f.elem) (hidx : idx < n)
    (hfit : E.exactSizeFor f n ≤ arr.cells.length) :
    E.itemsOf f.elem (E.putItem arr f idx v).cells n.toNat =
      (E.itemsOf f.elem arr.cells n.toNat).set idx.toNat v := by
  have hst := E.layout.storeSize_le_allocSize f.elem
  have hlen : (E.encode f.elem (.int v)).length = E.layout.storeSize f.elem :=
    length_encode_int E _ _
  have hidx' : idx.toNat < n.toNat := hidx
  have hle := Nat.le_trans (mul_succ_le hidx' (E.layout.allocSize f.elem)) hfit
  have hcells : (E.putItem arr f idx v).cells =
      splice arr.cells (E.layout.allocSize f.elem * idx.toNat) (E.encode f.elem (.int v)) :=
    Block.overwrite_cells (by omega)
  apply List.ext_getElem?
  intro i
  by_cases hi : i < n.toNat
  · rw [getElem?_itemsOf _ hi, hcells, List.getElem?_set]
    by_cases he : idx.toNat = i
    · subst he
      have hsl := slice_splice_self (l := arr.cells) (o := E.layout.allocSize f.elem * idx.toNat)
        (w := E.encode f.elem (.int v)) (by omega)
      rw [hlen] at hsl
      rw [if_pos rfl, length_itemsOf, if_pos hi, itemOf, hsl, decode_encode_int E hel,
        Nat.mod_eq_of_lt hv]
      rfl
    · rw [if_neg he, getElem?_itemsOf _ hi, itemOf, itemOf, slice_splice_disjoint (by omega)]
      rw [hlen]
      rcases Nat.lt_or_gt_of_ne he with hlt | hlt
      · right
        have := mul_succ_le hlt (E.layout.allocSize f.elem)
        omega
      · left
        have := mul_succ_le hlt (E.layout.allocSize f.elem)
        omega
  · rw [List.getElem?_eq_none (by simpa using hi), List.getElem?_eq_none (by simpa using hi)]

/-! ## Structs and records -/

variable (E S) in
/-- The struct in `blk` shows the record `r`. -/
structure Shows (h : Heap) (blk : Block) (r : Record Field) : Prop where
  scalar : ∀ f ∈ S.fields, f.isRepeated = false → f.isCount = false →
    E.intAt S blk f = r.scalar f
  items : ∀ f ∈ S.fields, f.isRepeated = true → E.itemsIn S h blk f = r.items f

variable (E S) in
/-- The live structs are the records of the store. -/
structure Represents (w : World) (st : Record.Store Field) : Prop where
  owned : E.Owned S w
  absent : ∀ b ∉ w.structs, st b = none
  present : ∀ b ∈ w.structs, ∃ blk r, w.heap.block? b = some blk ∧ st b = some r ∧
    E.Shows S w.heap blk r

variable {w w' : World} {st : Record.Store Field} {r r' : Record Field}

/-- A struct shows the same record as long as its arrays are there. -/
theorem Shows.frame (hs : E.Shows S h blk r)
    (harr : ∀ f ∈ S.fields, f.isRepeated = true → E.ArrayOk S h blk f)
    (hd : ∀ f ∈ S.fields, f.isRepeated = true → ∀ d, E.ptrAt S blk f = .base d →
      h'.block? d = h.block? d) : E.Shows S h' blk r where
  scalar := hs.scalar
  items f hf hr := by
    rw [itemsIn_congr rfl rfl (harr f hf hr) (hd f hf hr)]
    exact hs.items f hf hr

/-- A live struct with all that is known of it. -/
theorem Represents.struct (hr : E.Represents S w st) (hb : b ∈ w.structs) :
    ∃ blk r, w.heap.block? b = some blk ∧ E.Holds S blk ∧
      (∀ f ∈ S.fields, f.isRepeated = true → E.ArrayOk S w.heap blk f) ∧ st b = some r ∧
      E.Shows S w.heap blk r := by
  obtain ⟨blk, r, hl, hst, hs⟩ := hr.present b hb
  obtain ⟨x, hx, hh, harr⟩ := hr.owned.live b hb
  obtain rfl := Option.some.inj (hl.symm.trans hx)
  exact ⟨blk, r, hl, hh, harr, hst, hs⟩

theorem Represents.frame (hr : E.Represents S w st) (w' : World) (hs : w'.structs = w.structs)
    (hk : ∀ d, E.Owns S w d → w'.heap.block? d = w.heap.block? d) : E.Represents S w' st where
  owned := (hr.owned.frame w' hs hk).1
  absent b hb := hr.absent b (by rwa [hs] at hb)
  present b hb := by
    rw [hs] at hb
    obtain ⟨blk, r, hl, -, harr, hst, hshow⟩ := hr.struct hb
    exact ⟨blk, r, (hk b (Or.inl hb)).trans hl, hst, hshow.frame harr fun f hf hrf d hp =>
      hk d (Or.inr ⟨b, f, hb, hf, hrf, blk, hl, hp⟩)⟩

/-- Struct `b` changes and the other structs keep their blocks. -/
theorem Represents.modify (hr : E.Represents S w st) (hb : b ∈ w.structs)
    (ho : E.Owned S ⟨h', w.structs⟩) (hl' : h'.block? b = some blk')
    (hshow : E.Shows S h' blk' r') (hstruct : ∀ x ∈ w.structs, x ≠ b →
      h'.block? x = w.heap.block? x)
    (harray : ∀ x ≠ b, ∀ f d, E.HasArray S w x f d → h'.block? d = w.heap.block? d) :
    E.Represents S ⟨h', w.structs⟩ (Function.update st b (some r')) where
  owned := ho
  absent x hx := by
    have hne : x ≠ b := fun he => hx (he ▸ hb)
    rw [Function.update_of_ne hne]
    exact hr.absent x hx
  present x hx := by
    by_cases hne : x = b
    · subst hne
      exact ⟨blk', r', hl', Function.update_self _ _ _, hshow⟩
    · obtain ⟨blk, r, hl, -, harr, hst, hs⟩ := hr.struct hx
      refine ⟨blk, r, (hstruct x hx hne).trans hl, by rw [Function.update_of_ne hne, hst],
        hs.frame harr fun f hf hrf d hp => ?_⟩
      exact harray x hne f d ⟨hx, hf, hrf, blk, hl, hp⟩

/-- The store after an array was installed. -/
theorem Represents.install (hr : E.Represents S w st) (wf : S.WellFormed) (hb : b ∈ w.structs)
    (hl : w.heap.block? b = some blk) (hst : st b = some r) (hf : f ∈ S.fields)
    (hrf : f.isRepeated = true) (hi : E.Installs S w.heap b blk f n d arr h' blk')
    (hfit : E.exactSizeFor f n ≤ arr.cells.length) :
    E.Represents S ⟨h', w.structs⟩
      (Function.update st b (some (r.setItems f (E.itemsIn S h' blk' f)))) := by
  obtain ⟨x, rx, hx, hh, harr, hst', hs⟩ := hr.struct hb
  obtain rfl := Option.some.inj (hl.symm.trans hx)
  obtain rfl := Option.some.inj (hst.symm.trans hst')
  refine hr.modify hb (hr.owned.install hb hl hf hrf hi wf hfit) hi.block ⟨?_, ?_⟩
    (fun x hx hne => hi.struct_ne hr.owned hb hl hf hrf hx hne)
    (fun x hne g d' hg => (hi.array_ne hr.owned hb hl hf hrf hg fun h => hne h.1).2)
  · intro g hg hrg hcg
    have hgc : g ≠ S.countOf f := by
      rintro rfl
      rw [(wf.array_spec hf hrf).2.2.2.2.2.2.1] at hcg
      cases hcg
    have hgf : g ≠ f := by
      rintro rfl
      rw [hrf] at hrg
      cases hrg
    rw [intAt, hi.frame g hg hgf hgc]
    exact hs.scalar g hg hrg hcg
  · intro g hg hrg
    by_cases hgf : g = f
    · subst hgf
      exact (r.items_setItems g _).symm
    · have hpg := ptrAt_congr (hi.frame g hg hgf (wf.countOf_ne_array hf hg hrf hrg).symm)
      have hcg := countAt_congr (hi.frame _ (wf.countOf_mem hg hrg)
        (wf.countOf_ne_array hg hf hrg hrf) fun he => hgf (wf.countOf_inj hg hf hrg hrf he))
      rw [r.items_setItems_ne hgf, ← hs.items g hg hrg]
      exact itemsIn_congr hpg hcg (harr g hg hrg) fun d' hp =>
        (hi.array_ne hr.owned hb hl hf hrf ⟨hb, hg, hrg, blk, hl, hp⟩ fun h => hgf h.2).2

/-- Struct `b` changes but for its arrays. -/
theorem Represents.same (hr : E.Represents S w st) (hb : b ∈ w.structs)
    (hl : w.heap.block? b = some blk) (hst : st b = some r) (ho : E.Owned S ⟨h', w.structs⟩)
    (hl' : h'.block? b = some blk')
    (hp : ∀ f ∈ S.fields, f.isRepeated = true → E.ptrAt S blk' f = E.ptrAt S blk f ∧
      E.countAt S blk' (S.countOf f) = E.countAt S blk (S.countOf f))
    (hk : ∀ d ≠ b, h'.block? d = w.heap.block? d)
    (hscalar : ∀ f ∈ S.fields, f.isRepeated = false → f.isCount = false →
      E.intAt S blk' f = r'.scalar f) (hitems : r'.items = r.items) :
    E.Represents S ⟨h', w.structs⟩ (Function.update st b (some r')) := by
  obtain ⟨x, rx, hx, hh, harr, hst', hs⟩ := hr.struct hb
  obtain rfl := Option.some.inj (hl.symm.trans hx)
  obtain rfl := Option.some.inj (hst.symm.trans hst')
  have hne : ∀ x f d, E.HasArray S w x f d → d ≠ b := by
    rintro x f d h rfl
    exact hr.owned.disjoint x f d h hb
  refine hr.modify hb ho hl' ⟨hscalar, fun f hf hrf => ?_⟩ (fun x _ hxb => hk x hxb)
    fun x _ f d h => hk d (hne x f d h)
  rw [hitems, ← hs.items f hf hrf]
  exact itemsIn_congr (hp f hf hrf).1 (hp f hf hrf).2 (harr f hf hrf) fun d hpd =>
    hk d (hne b f d ⟨hb, hf, hrf, blk, hl, hpd⟩)

end Env

end Tyr
