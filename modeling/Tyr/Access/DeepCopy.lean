import Tyr.Access.Footprint
import Tyr.Access.Constructor
import Tyr.Access.Refinement

/-
  Struct-typed fields as copies of their own.

  `create_S` treats an immutable struct-typed field like an array of one pointer: it copies as many
  bytes from the argument as a pointer takes. The setter of a mutable one goes through a buffer,
  and neither the buffer nor the struct that the field held before is freed.

  `Stored`, `EqualObjects` and `Reaches` say what is at a pointer to a struct, by recursion on the
  order of declaration. `copiesDeep_iff`: what `create_S` stores is a copy that shares nothing with
  the argument exactly when each argument is of the size of a pointer and all pointers in it are
  NULL (`CoversStruct`), and through the setter it never goes as claimed, because the copy that
  is overwritten stays allocated.
-/

namespace Tyr

open Prog

namespace Env

/-! ## Objects -/

section Objects

variable (E : Env)

/-- At `p` is an object of the struct `t` points at, as generated code makes them: the block has
    its size, arrays are in order, a struct-typed field is NULL or leads to such an object. -/
def Stored : List Struct → Heap → Ty → Ptr → Prop
  | [], _, _, _ => False
  | T :: earlier, h, t, p =>
    if pointeeName t = some T.name then
      ∃ b blk, p = .base b ∧ h.block? b = some blk ∧
        blk.cells.length = E.layout.structSize T.packed T.elements ∧
        (∀ g ∈ T.fields, g.isRepeated = true → E.ArrayOk T h blk g) ∧
        ∀ g ∈ T.fields, g.isStruct = true →
          E.ptrAt T blk g = .null ∨ Stored earlier h g.type (E.ptrAt T blk g)
    else Stored earlier h t p

/-- What is at `p'` in `h'` has in every field the value that is at `p` in `h`. -/
def EqualObjects : List Struct → Ty → Heap → Ptr → Heap → Ptr → Prop
  | [], _, _, _, _, _ => False
  | T :: earlier, t, h, p, h', p' =>
    if pointeeName t = some T.name then
      ∃ b blk b' blk', p = .base b ∧ h.block? b = some blk ∧ p' = .base b' ∧
        h'.block? b' = some blk' ∧ ∀ g ∈ T.fields,
          E.fieldOffset T g + E.layout.storeSize g.type ≤ blk'.cells.length ∧
          if g.isStruct then
            (E.ptrAt T blk g = .null ∧ E.ptrAt T blk' g = .null) ∨
              EqualObjects earlier g.type h (E.ptrAt T blk g) h' (E.ptrAt T blk' g)
          else if g.isRepeated then E.itemsIn T h blk g = E.itemsIn T h' blk' g
          else E.valueAt T blk g = E.valueAt T blk' g
    else EqualObjects earlier t h p h' p'

/-- Block `d` belongs to the object at `p`. -/
def Reaches : List Struct → Heap → Ty → Ptr → Nat → Prop
  | [], _, _, _, _ => False
  | T :: earlier, h, t, p, d =>
    if pointeeName t = some T.name then
      ∃ b blk, p = .base b ∧ h.block? b = some blk ∧ (d = b ∨ ∃ g ∈ T.fields,
        (g.isRepeated = true ∧ E.ptrAt T blk g = .base d) ∨
          (g.isStruct = true ∧ Reaches earlier h g.type (E.ptrAt T blk g) d))
    else Reaches earlier h t p d

/-- In `h'` there is at `p'` a copy of what was at `p` in `h`, and the two share no block. -/
def DeepCopy (Ss : List Struct) (t : Ty) (h : Heap) (p : Ptr) (h' : Heap) (p' : Ptr) : Prop :=
  E.EqualObjects Ss t h p h' p' ∧ ∀ d, E.Reaches Ss h' t p d → ¬ E.Reaches Ss h' t p' d

/-- The first `n` bytes of a `T` are all there is to it, and no more than it has. -/
def CoversStruct (T : Struct) (blk : Block) (n : Nat) : Prop :=
  n ≤ E.layout.structSize T.packed T.elements ∧ ∀ g ∈ T.fields,
    E.fieldOffset T g + E.layout.storeSize g.type ≤ n ∧
      (g.type.isPointerTy = true → E.ptrAt T blk g = .null)

end Objects

variable {E : Env} {Ss : List Struct} {h h' : Heap} {t : Ty} {p p' : Ptr}

/-- An object reaches its own block. -/
theorem Stored.reaches (hst : E.Stored Ss h t p) (heq : ∀ x < h.next, h'.block? x = h.block? x) :
    ∃ b, p = .base b ∧ E.Reaches Ss h' t p b := by
  induction Ss with
  | nil => exact hst.elim
  | cons T earlier ih =>
    unfold Stored at hst
    simp only [Reaches]
    split at hst
    · next hname =>
      obtain ⟨b, blk, rfl, hl, -⟩ := hst
      simp only [if_pos hname]
      exact ⟨b, rfl, b, blk, rfl, (heq b (Heap.lt_next hl)).trans hl, Or.inl rfl⟩
    · next hname =>
      simp only [if_neg hname]
      exact ih hst

/-- A copy is a live block. -/
theorem EqualObjects.live (hsame : E.EqualObjects Ss t h p h' p') :
    ∃ b blk, p' = .base b ∧ h'.block? b = some blk := by
  induction Ss with
  | nil => exact hsame.elim
  | cons T earlier ih =>
    unfold EqualObjects at hsame
    split at hsame
    · obtain ⟨-, -, b, blk, -, -, hp, hl, -⟩ := hsame
      exact ⟨b, blk, hp, hl⟩
    · exact ih hsame

theorem not_reaches_null (d : Nat) : ¬ E.Reaches Ss h t .null d := by
  induction Ss with
  | nil => exact fun hr => hr
  | cons T earlier ih =>
    unfold Reaches
    split
    · rintro ⟨b, -, hb, -⟩
      cases hb
    · exact ih

/-! ## The bytes of an object in a new block -/

section Bytes

variable {T : Struct} {earlier : List Struct} {b d n : Nat} {blk arr : Block}

/-- What lies within the bytes copied is the same in both. -/
theorem slot_of_copied (hcells : arr.cells = slice blk.cells 0 n) {g : Field}
    (hg : E.fieldOffset T g + E.layout.storeSize g.type ≤ n) : E.slot T arr g = E.slot T blk g := by
  rw [slot, slot, hcells, slice_slice (by omega), Nat.zero_add]

variable (hname : pointeeName t = some T.name) (wf : T.WellFormed) (hl : h.block? b = some blk)
  (hfit : n ≤ blk.cells.length) (heq : ∀ x < h.next, h'.block? x = h.block? x)
  (hd : h.next ≤ d) (hl' : h'.block? d = some arr) (hcells : arr.cells = slice blk.cells 0 n)
include hname wf hl hfit heq hl' hcells

theorem covers_of_deepCopy (hst : E.Stored (T :: earlier) h t (.base b))
    (hcopy : E.DeepCopy (T :: earlier) t h (.base b) h' (.base d)) : E.CoversStruct T blk n := by
  have hlen : arr.cells.length = n := by
    rw [hcells]
    exact length_slice (by omega)
  have hlb : h'.block? b = some blk := (heq b (Heap.lt_next hl)).trans hl
  simp only [DeepCopy, EqualObjects, Reaches, if_pos hname] at hcopy
  simp only [Stored, if_pos hname] at hst
  obtain ⟨b₀, blk₀, hb₀, hl₀, hsize, harr, hnest⟩ := hst
  obtain ⟨rfl, -⟩ := Ptr.loc.inj hb₀
  obtain rfl : blk = blk₀ := Option.some.inj (hl.symm.trans hl₀)
  obtain ⟨⟨b₁, blk₁, d₁, arr₁, hb₁, hl₁, hd₁, hl'₁, hfields⟩, hshare⟩ := hcopy
  obtain ⟨rfl, -⟩ := Ptr.loc.inj hd₁
  obtain rfl : arr = arr₁ := Option.some.inj (hl'.symm.trans hl'₁)
  refine ⟨hsize ▸ hfit, fun g hg => ?_⟩
  have hgn : E.fieldOffset T g + E.layout.storeSize g.type ≤ n := hlen ▸ (hfields g hg).1
  have hsame : E.ptrAt T arr g = E.ptrAt T blk g := ptrAt_congr (slot_of_copied hcells hgn)
  refine ⟨hgn, fun hptr => ?_⟩
  -- a pointer that is copied is shared
  cases hr : g.isRepeated with
  | true =>
    rcases harr g hg hr with ⟨hnull, -⟩ | ⟨e, x, hp, -⟩
    · exact hnull
    · exact absurd ⟨d, arr, rfl, hl', Or.inr ⟨g, hg, Or.inl ⟨hr, hsame.trans hp⟩⟩⟩
        (hshare e ⟨b, blk, rfl, hlb, Or.inr ⟨g, hg, Or.inl ⟨hr, hp⟩⟩⟩)
  | false =>
    have hs : g.isStruct = true := by
      by_contra hs
      rw [not_pointer wf hg (by simpa using hs) hr] at hptr
      cases hptr
    rcases hnest g hg hs with hnull | hst
    · exact hnull
    · obtain ⟨e, hp, hreach⟩ := hst.reaches heq
      exact absurd ⟨d, arr, rfl, hl', Or.inr ⟨g, hg, Or.inr ⟨hs, hsame ▸ hreach⟩⟩⟩
        (hshare e ⟨b, blk, rfl, hlb, Or.inr ⟨g, hg, Or.inr ⟨hs, hreach⟩⟩⟩)

include hd in
theorem deepCopy_of_covers (hcover : E.CoversStruct T blk n) :
    E.DeepCopy (T :: earlier) t h (.base b) h' (.base d) := by
  obtain ⟨-, hcover⟩ := hcover
  have hlen : arr.cells.length = n := by
    rw [hcells]
    exact length_slice (by omega)
  have hlb : h'.block? b = some blk := (heq b (Heap.lt_next hl)).trans hl
  have hslot : ∀ g ∈ T.fields, E.slot T arr g = E.slot T blk g := fun g hg =>
    slot_of_copied hcells (hcover g hg).1
  have hnull : ∀ g ∈ T.fields, g.isStruct = true ∨ g.isRepeated = true →
      E.ptrAt T blk g = .null ∧ E.ptrAt T arr g = .null := by
    intro g hg hor
    have hptr : g.type.isPointerTy = true := by
      rcases hor with hs | hr
      · obtain ⟨-, -, t, ht⟩ := struct_spec wf hg hs
        rw [ht]
        rfl
      · rw [(wf.array_spec hg hr).1]
        rfl
    exact ⟨(hcover g hg).2 hptr, (ptrAt_congr (hslot g hg)).trans ((hcover g hg).2 hptr)⟩
  -- no pointer leads anywhere, so each of the two is one block
  have hone : ∀ {x e : Nat} {y : Block}, h'.block? x = some y →
      (∀ g ∈ T.fields, g.isStruct = true ∨ g.isRepeated = true → E.ptrAt T y g = .null) →
      E.Reaches (T :: earlier) h' t (.base x) e → e = x := by
    intro x e y hy hptr hreach
    simp only [Reaches, if_pos hname] at hreach
    obtain ⟨x', y', hx, hy', he⟩ := hreach
    obtain ⟨rfl, -⟩ := Ptr.loc.inj hx
    obtain rfl : y = y' := Option.some.inj (hy.symm.trans hy')
    rcases he with he | ⟨g, hg, ⟨hr, hp⟩ | ⟨hs, hre⟩⟩
    · exact he
    · rw [hptr g hg (Or.inr hr)] at hp
      cases hp
    · rw [hptr g hg (Or.inl hs)] at hre
      exact absurd hre (not_reaches_null e)
  refine ⟨?_, fun e h1 h2 => ?_⟩
  · simp only [EqualObjects, if_pos hname]
    refine ⟨b, blk, d, arr, rfl, hl, rfl, hl', fun g hg => ⟨hlen ▸ (hcover g hg).1, ?_⟩⟩
    split
    · next hs => exact Or.inl (hnull g hg (Or.inl hs))
    · split
      · next hr =>
        obtain ⟨h1, h2⟩ := hnull g hg (Or.inr hr)
        rw [itemsIn, itemsIn, h1, h2, countAt_congr (hslot _ (wf.countOf_mem hg hr))]
        rfl
      · rw [valueAt, valueAt, hslot g hg]
  · have hb := hone hlb (fun g hg hor => (hnull g hg hor).1) h1
    have hd' := hone hl' (fun g hg hor => (hnull g hg hor).2) h2
    have := Heap.lt_next hl
    omega

end Bytes

/-- A new block with the first `n` bytes of an object is a copy of it that shares nothing exactly
    when these are the whole of it. -/
theorem deepCopy_iff (hn : Ss.Pairwise fun S T => S.name ≠ T.name)
    (wf : ∀ T ∈ Ss, T.WellFormed) {b d n : Nat} {blk arr : Block} (hst : E.Stored Ss h t (.base b))
    (hl : h.block? b = some blk) (hfit : n ≤ blk.cells.length)
    (heq : ∀ x < h.next, h'.block? x = h.block? x) (hd : h.next ≤ d) (hl' : h'.block? d = some arr)
    (hcells : arr.cells = slice blk.cells 0 n) :
    E.DeepCopy Ss t h (.base b) h' (.base d) ↔
      ∀ T ∈ Ss, pointeeName t = some T.name → E.CoversStruct T blk n := by
  induction Ss with
  | nil => exact hst.elim
  | cons T earlier ih =>
    obtain ⟨hT, hn⟩ := List.pairwise_cons.mp hn
    have wfT := wf T List.mem_cons_self
    by_cases hname : pointeeName t = some T.name
    · constructor
      · intro hcopy T' hT' hname'
        obtain rfl : T' = T := by
          rcases List.mem_cons.mp hT' with rfl | hmem
          · rfl
          · exact absurd (Option.some.inj (hname.symm.trans hname')) (hT T' hmem)
        exact covers_of_deepCopy hname wfT hl hfit heq hl' hcells hst hcopy
      · intro hcover
        exact deepCopy_of_covers hname wfT hl hfit heq hd hl' hcells
          (hcover T List.mem_cons_self hname)
    · simp only [Stored, if_neg hname] at hst
      have hrest := ih hn (fun T hT => wf T (List.mem_cons_of_mem _ hT)) hst
      simp only [DeepCopy, EqualObjects, Reaches, if_neg hname, List.forall_mem_cons] at hrest ⊢
      exact hrest.trans ⟨fun h => ⟨fun he => absurd he hname, h⟩, fun h => h.2⟩

/-! ## The constructor -/

section Constructor

variable (E) (S : Struct)

/-- Arguments of the constructor of a struct with struct-typed fields: as in `CreateArgs`, and an
    object for each of these. -/
structure ObjectArgs (earlier : List Struct) (h : Heap) (arg : Field → Val) : Prop where
  scalar : ∀ f ∈ S.fields, f.isMutable = false → f.isRepeated = false → f.isStruct = false →
    ∃ v, arg f = .int v
  array : ∀ f ∈ S.fields, f.isMutable = false → f.isRepeated = true →
    E.exactSizeFor f (S.countArg arg f) < 2 ^ 64 ∧
      h.Readable (arg f).asPtr (E.exactSizeFor f (S.countArg arg f))
  struct : ∀ f ∈ S.fields, f.isMutable = false → f.isStruct = true →
    E.Stored earlier h f.type (arg f).asPtr

/-- The constructor, called in heap `h₀`, has come past the fields in `done`. -/
structure Partway (h₀ : Heap) (arg : Field → Val) (done : List Field) (h : Heap) (blk : Block) :
    Prop where
  block : h.block? h₀.next = some blk
  holds : E.Holds S blk
  count : ∀ c ∈ done, c.isCount = true → c.isMutable = false →
    E.countAt S blk c = BitVec.ofNat 64 (arg c).asInt
  copy : ∀ f ∈ done, f.isStruct = true → f.isMutable = false → ∃ d arr,
    E.ptrAt S blk f = .base d ∧ h₀.next < d ∧ h.block? d = some arr ∧
      arr.cells = h₀.bytesAt (arg f).asPtr (E.layout.allocSize f.type)
  other : ∀ x < h₀.next, h.block? x = h₀.block? x

variable {E S} {h₀ : Heap} {arg : Field → Val} {done rest : List Field} {blk : Block}
  {f : Field} (wf : S.WellFormed) (hp : E.Partway S h₀ arg done h blk)
  (hs : S.fields = done ++ f :: rest)
include wf hp hs

/-- The fields before `f` keep their values when `f` is stored. -/
theorem Partway.put {w : List Cell} (hw : w.length = E.layout.storeSize f.type)
    (hl : h'.block? h₀.next = some (E.put S blk f w))
    (hother : ∀ x < h.next, x ≠ h₀.next → h'.block? x = h.block? x)
    (hcount : f.isCount = true → f.isMutable = false →
      E.decodeI64 w = BitVec.ofNat 64 (arg f).asInt)
    (hcopy : f.isStruct = true → f.isMutable = false → ∃ d arr,
      E.ptrAt S (E.put S blk f w) f = .base d ∧ h₀.next < d ∧ h'.block? d = some arr ∧
        arr.cells = h₀.bytesAt (arg f).asPtr (E.layout.allocSize f.type)) :
    E.Partway S h₀ arg (done ++ [f]) h' (E.put S blk f w) := by
  obtain ⟨hf, hnew, hsub⟩ := wf.mem_of_split hs
  have hslot : ∀ g ∈ done, E.slot S (E.put S blk f w) g = E.slot S blk g := fun g hg =>
    slot_put_ne wf hp.holds hf (hsub g hg) (fun he => hnew (he ▸ hg)) hw
  refine ⟨hl, holds_put hp.holds, fun c hc hcc hm => ?_, fun g hg hgs hm => ?_, fun x hx => ?_⟩
  · rcases List.mem_append.mp hc with hc | hc
    · exact (countAt_congr (hslot c hc)).trans (hp.count c hc hcc hm)
    · obtain rfl := List.mem_singleton.mp hc
      rw [countAt, slot_put_self wf hp.holds hf hw]
      exact hcount hcc hm
  · rcases List.mem_append.mp hg with hg | hg
    · obtain ⟨d, arr, hptr, hlt, hd, hcells⟩ := hp.copy g hg hgs hm
      refine ⟨d, arr, (ptrAt_congr (hslot g hg)).trans hptr, hlt, ?_, hcells⟩
      rw [hother d (Heap.lt_next hd) (Nat.ne_of_gt hlt), hd]
    · obtain rfl := List.mem_singleton.mp hg
      exact hcopy hgs hm
  · have hlt := Heap.lt_next hp.block
    rw [hother x (by omega) (by omega), hp.other x hx]

/-- A store that makes no new block. -/
theorem Partway.store {w : List Cell} (hw : w.length = E.layout.storeSize f.type)
    (hcount : f.isCount = true → f.isMutable = false →
      E.decodeI64 w = BitVec.ofNat 64 (arg f).asInt)
    (hcopy : f.isStruct = true → f.isMutable = true) :
    E.Partway S h₀ arg (done ++ [f]) (h.update h₀.next (E.put S blk f w)) (E.put S blk f w) :=
  hp.put wf hs hw (Heap.block?_update_self hp.block _)
    (fun _ _ hx => Heap.block?_update_ne h hx _) hcount
    fun hgs hm => by rw [hcopy hgs] at hm; cases hm

/-- A mutable field starts as 0 or NULL. -/
theorem initField_mutable (hm : f.isMutable = true) (Arg : Val) (Next : Prog Ptr) :
    ∃ h' blk', E.initField S f (.base h₀.next) Arg Next h = Next h' ∧
      E.Partway S h₀ arg (done ++ [f]) h' blk' := by
  obtain ⟨hf, -, -⟩ := wf.mem_of_split hs
  have hw : (E.encode f.type (zero f.type)).length = E.layout.storeSize f.type := by
    unfold zero
    split
    · next hptr =>
      cases htype : f.type with
      | ptr t => exact length_encode_null E _ _
      | int n => rw [htype] at hptr; cases hptr
      | float => rw [htype] at hptr; cases hptr
      | double => rw [htype] at hptr; cases hptr
      | struct i n => rw [htype] at hptr; cases hptr
    · exact length_encode_int E _ _
  refine ⟨_, _, ?_, hp.store wf hs hw (fun _ hm' => ?_) fun _ => hm⟩
  · unfold initField
    rw [if_pos hm]
    exact bind_of_ok (store_slot wf hp.block hp.holds hf hw)
  · rw [hm] at hm'
    cases hm'

/-- An immutable scalar. -/
theorem initField_number (hm : f.isMutable = false) (hr : f.isRepeated = false)
    (hns : f.isStruct = false) {v : Nat} (hv : arg f = .int v) (Next : Prog Ptr) :
    ∃ h' blk', E.initField S f (.base h₀.next) (arg f) Next h = Next h' ∧
      E.Partway S h₀ arg (done ++ [f]) h' blk' := by
  obtain ⟨hf, -, -⟩ := wf.mem_of_split hs
  have hw := length_encode_int E f.type v
  refine ⟨_, _, ?_, hp.store wf hs hw (fun hc _ => ?_) fun hs => ?_⟩
  · unfold initField
    rw [hm, if_neg Bool.false_ne_true, not_pointer wf hf hns hr, if_neg Bool.false_ne_true, hv]
    exact bind_of_ok (store_slot wf hp.block hp.holds hf hw)
  · have ht := (wf.count_spec hf hc).1
    have hd := E.decode_i64 (E.encode f.type (.int v))
    rw [ht, decode_encode_int E rfl] at hd
    apply BitVec.eq_of_toNat_eq
    rw [ht, ← Val.int.inj hd, hv, BitVec.toNat_ofNat]
    rfl
  · rw [hns] at hs
    cases hs

/-- The count of an immutable array whose turn it is. -/
theorem Partway.sizeOf (hcf : S.CountsFirst) (hargs : E.ObjectArgs S Ss h₀ arg)
    (hr : f.isRepeated = true) (hm : f.isMutable = false) :
    (E.fieldSizeAt S blk f).toNat = E.exactSizeFor f (S.countArg arg f) := by
  obtain ⟨hf, -, -⟩ := wf.mem_of_split hs
  have hcount := wf.mem_of_offset_lt hs (wf.countOf_mem hf hr) (hcf f hf hr hm)
  obtain ⟨-, -, -, -, -, -, hcc, -, hmut, -⟩ := wf.array_spec hf hr
  rw [fieldSizeAt_array hr, hp.count _ hcount hcc (hmut.trans hm)]
  exact sizeFor_toNat (hargs.array f hf hm hr).1

/-- An immutable pointer: as many bytes as `getFieldAllocSize` says are copied to a new block. -/
theorem initField_pointer (hA : ∀ t n, E.alloc.succeeds t n = true) (hm : f.isMutable = false)
    (hptr : f.type.isPointerTy = true)
    (hstruct : f.isStruct = true → (E.fieldSizeAt S blk f).toNat = E.layout.allocSize f.type)
    (hread : h₀.Readable (arg f).asPtr (E.fieldSizeAt S blk f).toNat) (Next : Prog Ptr) :
    ∃ h' blk', E.initField S f (.base h₀.next) (arg f) Next h = Next h' ∧
      E.Partway S h₀ arg (done ++ [f]) h' blk' := by
  obtain ⟨hf, -, -⟩ := wf.mem_of_split hs
  obtain ⟨t, ht⟩ := Ty.exists_pointee hptr
  set size := E.fieldSizeAt S blk f with hsize
  -- what the caller passed is still there
  obtain ⟨hread₁, hby₁⟩ := Heap.readable_extend hread hp.other
  set fresh := E.alloc.fresh h.calls size with hfresh
  obtain ⟨hread₂, hby₂⟩ := Heap.readable_push hread₁ fresh
  have hlen : fresh.cells.length = size.toNat := Allocator.length_fresh _ _ _
  have h0 : (0 : I64).toNat = 0 := rfl
  set arr := fresh.overwrite 0 (h.bytesAt (arg f).asPtr size.toNat) with harr
  have hl₂ := Heap.block?_push_of_some hp.block arr
  have hlt := Heap.lt_next hp.block
  have hw : (E.encode f.type (.ptr (.base h.next))).length = E.layout.storeSize f.type := by
    rw [ht]
    exact length_encode_loc E _ _ _ _
  have hcells : arr.cells = h₀.bytesAt (arg f).asPtr size.toNat := by
    rw [harr, Block.overwrite_all (by rw [Heap.length_bytesAt hread₁, hlen]), hby₁]
  refine ⟨(h.push arr).update h₀.next (E.put S blk f (E.encode f.type (.ptr (.base h.next)))), _,
    ?_, hp.put wf hs hw (Heap.block?_update_self hl₂ _) (fun x hx hxb => ?_) (fun hc _ => ?_)
      fun hgs _ => ⟨h.next, arr, ?_, hlt, ?_, ?_⟩⟩
  · unfold initField
    rw [hm, if_neg Bool.false_ne_true, if_pos hptr,
      bind_of_ok (getFieldAllocSize_slot wf hp.block hp.holds hf), bind_of_ok (malloc_ok (hA _ _)),
      insertNullCheck_loc, bind_of_ok (memcpy_ok hread₂ (Heap.block?_push_self h fresh)
        (by rw [h0, Nat.zero_add, hlen])), hby₂, h0, Heap.update_push_next]
    exact bind_of_ok (store_slot wf hl₂ hp.holds hf hw)
  · rw [Heap.block?_update_ne _ hxb, Heap.block?_push_of_lt hx]
  · rw [(wf.count_spec hf hc).1] at hptr
    cases hptr
  · rw [ptrAt, slot_put_self wf hp.holds hf hw, ht, decode_encode_loc]
    rfl
  · rw [Heap.block?_update_ne _ (Nat.ne_of_gt hlt), Heap.block?_push_self]
  · rw [hcells, hstruct hgs]

/-- The copy reads past the end of the argument. -/
theorem initField_pointer_fault (hA : ∀ t n, E.alloc.succeeds t n = true) (hm : f.isMutable = false)
    (hptr : f.type.isPointerTy = true) (hpast : ∀ d o, (arg f).asPtr = .loc d o → d < h₀.next)
    (hread : ¬ h₀.Readable (arg f).asPtr (E.fieldSizeAt S blk f).toNat) (Next : Prog Ptr) :
    E.initField S f (.base h₀.next) (arg f) Next h = .error .access := by
  obtain ⟨hf, -, -⟩ := wf.mem_of_split hs
  unfold Heap.Readable at hread
  rw [not_or, Option.not_isSome_iff_eq_none] at hread
  unfold initField
  rw [hm, if_neg Bool.false_ne_true, if_pos hptr,
    bind_of_ok (getFieldAllocSize_slot wf hp.block hp.holds hf), bind_of_ok (malloc_ok (hA _ _)),
    insertNullCheck_loc]
  refine bind_of_error (memcpy_fault (fun hz => hread.1 (by rw [hz]; rfl)) ?_)
  rw [← hread.2]
  cases hsrc : (arg f).asPtr with
  | null => rfl
  | wild raw => rfl
  | loc d o =>
    have hd := hpast d o hsrc
    have hlt := Heap.lt_next hp.block
    exact Heap.read_congr (by rw [Heap.block?_push_of_lt (by omega), hp.other d hd]) o _

end Constructor

section Loop

variable {S : Struct} {earlier : List Struct} {h₀ : Heap} {arg : Field → Val}

/-- An object was there before. -/
theorem Stored.lt_next (hst : E.Stored Ss h t p) {d : Nat} {o : I64} (hd : p = .loc d o) :
    d < h.next := by
  induction Ss with
  | nil => exact hst.elim
  | cons T earlier ih =>
    unfold Stored at hst
    split at hst
    · obtain ⟨b, blk, hb, hl, -⟩ := hst
      obtain ⟨rfl, -⟩ := Ptr.loc.inj (hd.symm.trans hb)
      exact Heap.lt_next hl
    · exact ih hst

/-- The arguments for the struct-typed fields among `fs` can be read as far as they are copied. -/
def ReadablePointees (E : Env) (h : Heap) (arg : Field → Val) (fs : List Field) : Prop :=
  ∀ f ∈ fs, f.isStruct = true → f.isMutable = false →
    h.Readable (arg f).asPtr (E.layout.allocSize f.type)

/-- The constructor's fields, one after the other. -/
theorem initFields_cases (wf : S.WellFormed) (hcf : S.CountsFirst)
    (hA : ∀ t n, E.alloc.succeeds t n = true)
    (hptr : ∀ f ∈ S.fields, f.isStruct = true → E.layout.allocSize f.type < 2 ^ 64)
    (hargs : E.ObjectArgs S earlier h₀ arg) :
    ∀ (rest done : List Field) (h : Heap) (blk : Block), S.fields = done ++ rest →
      E.Partway S h₀ arg done h blk →
      (E.ReadablePointees h₀ arg rest ∧ ∃ h' blk', E.initFields S (.base h₀.next) rest
          ((rest.filter (! ·.isMutable)).map arg) h = .ok (.base h₀.next, h') ∧
        E.Partway S h₀ arg S.fields h' blk') ∨
      (¬ E.ReadablePointees h₀ arg rest ∧ E.initFields S (.base h₀.next) rest
          ((rest.filter (! ·.isMutable)).map arg) h = .error .access) := by
  intro rest
  induction rest with
  | nil =>
    intro done h blk hs hp
    rw [List.append_nil] at hs
    exact Or.inl ⟨(fun _ hf => nomatch hf), h, blk, rfl, hs ▸ hp⟩
  | cons f rest ih =>
    intro done h blk hs hp
    obtain ⟨hf, -, -⟩ := wf.mem_of_split hs
    have hs' : S.fields = (done ++ [f]) ++ rest := by simp [hs]
    -- a field that goes through leaves the question to the others
    have hnext : ∀ {h₁ : Heap} {blk₁ : Block}, (f.isStruct = true → f.isMutable = false →
        h₀.Readable (arg f).asPtr (E.layout.allocSize f.type)) →
        E.Partway S h₀ arg (done ++ [f]) h₁ blk₁ →
        (E.ReadablePointees h₀ arg (f :: rest) ∧ ∃ h' blk', E.initFields S (.base h₀.next) rest
            ((rest.filter (! ·.isMutable)).map arg) h₁ = .ok (.base h₀.next, h') ∧
          E.Partway S h₀ arg S.fields h' blk') ∨
        (¬ E.ReadablePointees h₀ arg (f :: rest) ∧ E.initFields S (.base h₀.next) rest
            ((rest.filter (! ·.isMutable)).map arg) h₁ = .error .access) := by
      intro h₁ blk₁ hthis hp₁
      have hiff : E.ReadablePointees h₀ arg (f :: rest) ↔ E.ReadablePointees h₀ arg rest := by
        unfold ReadablePointees
        rw [List.forall_mem_cons]
        exact ⟨fun h => h.2, fun h => ⟨hthis, h⟩⟩
      rw [hiff]
      exact ih (done ++ [f]) h₁ blk₁ hs' hp₁
    rw [initFields_cons]
    cases hm : f.isMutable with
    | true =>
      obtain ⟨h₁, blk₁, hstep, hp₁⟩ := initField_mutable wf hp hs hm (.int 0)
        (E.initFields S (.base h₀.next) rest ((rest.filter (! ·.isMutable)).map arg))
      rw [if_pos rfl, hstep]
      exact hnext (fun _ hm' => by rw [hm] at hm'; cases hm') hp₁
    | false =>
      rw [if_neg Bool.false_ne_true]
      cases hr : f.isRepeated with
      | true =>
        obtain ⟨ht, -, hns, -⟩ := wf.array_spec hf hr
        have hno : ∀ {c : Prop}, f.isStruct = true → c := fun hgs => by rw [hns] at hgs; cases hgs
        obtain ⟨h₁, blk₁, hstep, hp₁⟩ := initField_pointer wf hp hs hA hm (by rw [ht]; rfl) hno
          (by rw [hp.sizeOf wf hs hcf hargs hr hm]; exact (hargs.array f hf hm hr).2)
          (E.initFields S (.base h₀.next) rest ((rest.filter (! ·.isMutable)).map arg))
        rw [hstep]
        exact hnext (fun hgs _ => hno hgs) hp₁
      | false =>
        cases hgs : f.isStruct with
        | false =>
          obtain ⟨v, hv⟩ := hargs.scalar f hf hm hr hgs
          obtain ⟨h₁, blk₁, hstep, hp₁⟩ := initField_number wf hp hs hm hr hgs hv
            (E.initFields S (.base h₀.next) rest ((rest.filter (! ·.isMutable)).map arg))
          rw [hstep]
          exact hnext (fun hgs' => by rw [hgs] at hgs'; cases hgs') hp₁
        | true =>
          obtain ⟨-, -, t, ht⟩ := struct_spec wf hf hgs
          have hsize : (E.fieldSizeAt S blk f).toNat = E.layout.allocSize f.type := by
            rw [fieldSizeAt, hr, if_neg Bool.false_ne_true, BitVec.toNat_ofNat]
            exact Nat.mod_eq_of_lt (hptr f hf hgs)
          have hisptr : f.type.isPointerTy = true := by rw [ht]; rfl
          by_cases hread : h₀.Readable (arg f).asPtr (E.layout.allocSize f.type)
          · obtain ⟨h₁, blk₁, hstep, hp₁⟩ := initField_pointer wf hp hs hA hm hisptr
              (fun _ => hsize) (by rwa [hsize])
              (E.initFields S (.base h₀.next) rest ((rest.filter (! ·.isMutable)).map arg))
            rw [hstep]
            exact hnext (fun _ _ => hread) hp₁
          · refine Or.inr ⟨fun hall => hread (hall f List.mem_cons_self hgs hm), ?_⟩
            exact initField_pointer_fault wf hp hs hA hm hisptr
              (fun d o hd => (hargs.struct f hf hm hgs).lt_next hd) (by rwa [hsize]) _

/-- `create_S` when no allocation fails. -/
theorem getConstructor_cases (wf : S.WellFormed) (hcf : S.CountsFirst)
    (hA : ∀ t n, E.alloc.succeeds t n = true)
    (hstruct : E.layout.structSize S.packed S.elements < 2 ^ 64)
    (hptr : ∀ f ∈ S.fields, f.isStruct = true → E.layout.allocSize f.type < 2 ^ 64)
    (hargs : E.ObjectArgs S earlier h arg) :
    (E.ReadablePointees h arg S.fields ∧ ∃ h' blk',
        E.getConstructor S ((S.fields.filter (! ·.isMutable)).map arg) h = .ok (.base h.next, h') ∧
        E.Partway S h arg S.fields h' blk') ∨
      (¬ E.ReadablePointees h arg S.fields ∧
        E.getConstructor S ((S.fields.filter (! ·.isMutable)).map arg) h = .error .access) := by
  rw [getConstructor_allocated _ (hA _ _)]
  refine initFields_cases wf hcf hA hptr hargs S.fields [] _ (E.newStruct S h) rfl ?_
  refine ⟨Heap.block?_push_self h _, ?_, (fun _ hc => nomatch hc), (fun _ hf => nomatch hf),
    fun x hx => Heap.block?_push_of_lt hx _⟩
  rw [Holds, Allocator.length_fresh, getStructAllocSize, BitVec.toNat_ofNat,
    Nat.mod_eq_of_lt hstruct]

end Loop

/-! ## The setter and the destructor -/

section Setter

variable {S : Struct} {b : Nat} {blk : Block} {f : Field} (wf : S.WellFormed)
include wf

/-- The setter of a struct-typed field stores a new block or NULL, and leaves all blocks but the
    struct as they are. -/
theorem setStruct_eq_ok (hcl : E.Closed) (hl : h.block? b = some blk) (hb : E.Holds S blk)
    (hf : f ∈ S.fields) (hs : f.isStruct = true) {ToInsert : Val} {n : I64} {ok : Bool}
    (hrun : E.getSetter S f (.base b) ToInsert n h = .ok (ok, h')) :
    ∃ q g, h.Extends g ∧ q.LeadsTo (h.next ≤ ·) g ∧
      h' = g.update b (E.put S blk f (E.encode f.type (.ptr q))) ∧
      (E.encode f.type (.ptr q)).length = E.layout.storeSize f.type ∧
      E.ptrAt S (E.put S blk f (E.encode f.type (.ptr q))) f = q := by
  obtain ⟨-, -, t, ht⟩ := struct_spec wf hf hs
  rw [getSetter, insertNullCheck_loc, if_pos hs] at hrun
  obtain ⟨buf, g₁, h1, hrun⟩ := bind_eq_ok hrun
  obtain ⟨q, g, h2, hrun⟩ := bind_eq_ok hrun
  have hframe := Heap.Extends.frame h
  obtain ⟨he₁, -⟩ := hcl.serialize _ _ hframe f.type _ h buf g₁ (Heap.Extends.refl h) h1
  obtain ⟨he, hq⟩ := hcl.deserialize _ _ hframe f.type _ g₁ q g he₁ h2
  have hw : (E.encode f.type (.ptr q)).length = E.layout.storeSize f.type := by
    rw [ht]
    rcases hq with rfl | ⟨d, o, rfl, -⟩
    · exact length_encode_null E _ _
    · exact length_encode_loc E _ _ _ _
  have hst : E.storeTy f.type (.ptr q) (E.structGEP S (.base b) f) g = _ :=
    store_slot wf (he.block?_some hl) hb hf hw
  rw [bind_of_ok hst] at hrun
  cases hrun
  refine ⟨q, g, he, hq, rfl, hw, ?_⟩
  rw [ptrAt, slot_put_self wf hb hf hw, ht]
  rcases hq with rfl | ⟨d, o, rfl, -⟩
  · rw [decode_encode_null]
    rfl
  · rw [decode_encode_loc]
    rfl

omit wf in
/-- On a struct that is gone the destructor faults or has nothing to do. -/
theorem destroyFields_dead (hl : h.block? b = none) {fs : List Field}
    (hrun : E.destroyFields S (.base b) fs h = .ok ((), h')) : h' = h := by
  induction fs with
  | nil =>
    cases hrun
    rfl
  | cons f fs ih =>
    unfold destroyFields destroyField at hrun
    split at hrun
    · obtain ⟨_, g, h1, -⟩ := bind_eq_ok hrun
      obtain ⟨v, g, h1, -⟩ := bind_eq_ok h1
      obtain ⟨cs, g, h1, -⟩ := bind_eq_ok h1
      obtain ⟨blk, hblk⟩ := live_of_load h1
      rw [hl] at hblk
      cases hblk
    · exact ih hrun

/-- The destructor frees no block but those its fields point at. -/
theorem destroyFields_keeps (hb : E.Holds S blk) {d : Nat} (fs : List Field)
    (hmem : ∀ g ∈ fs, g ∈ S.fields)
    (hptr : ∀ g ∈ fs, g.type.isPointerTy = true → ∀ o, E.ptrAt S blk g ≠ .loc d o)
    (hl : h.block? b = some blk) (hrun : E.destroyFields S (.base b) fs h = .ok ((), h')) :
    h'.block? d = h.block? d := by
  induction fs generalizing h with
  | nil =>
    cases hrun
    rfl
  | cons f fs ih =>
    have hmem' : ∀ g ∈ fs, g ∈ S.fields := fun g hg => hmem g (List.mem_cons_of_mem _ hg)
    have hptr' := fun g hg => hptr g (List.mem_cons_of_mem f hg)
    unfold destroyFields destroyField at hrun
    split at hrun
    · next hp =>
      obtain ⟨_, g, hfree, hrun⟩ := bind_eq_ok hrun
      rw [bind_of_ok (loadTy_slot wf hl hb (hmem f List.mem_cons_self))] at hfree
      have hne := hptr f List.mem_cons_self hp
      unfold ptrAt at hne
      cases hv : (E.decode f.type (E.slot S blk f)).asPtr with
      | null =>
        rw [hv] at hfree
        cases hfree
        exact ih hmem' hptr' hl hrun
      | wild raw =>
        rw [hv] at hfree
        cases hfree
      | loc e o =>
        rw [hv] at hfree hne
        have hed : d ≠ e := fun he => hne o (by rw [he])
        simp only [free] at hfree
        split at hfree
        · split at hfree
          · cases hfree
            rw [← Heap.block?_kill_ne h hed]
            by_cases heb : b = e
            · subst heb
              rw [destroyFields_dead (Heap.block?_kill_self h b) hrun]
            · exact ih hmem' hptr' ((Heap.block?_kill_ne h heb).trans hl) hrun
          · cases hfree
        · cases hfree
    · exact ih hmem' hptr' hl hrun

theorem getDestructor_keeps (hb : E.Holds S blk) {d : Nat} (hd : d ≠ b)
    (hptr : ∀ g ∈ S.fields, g.type.isPointerTy = true → ∀ o, E.ptrAt S blk g ≠ .loc d o)
    (hl : h.block? b = some blk) (hrun : E.getDestructor S (.base b) h = .ok ((), h')) :
    h'.block? d = h.block? d := by
  obtain ⟨_, g, hfields, hfree⟩ := bind_eq_ok hrun
  rw [← destroyFields_keeps wf hb S.fields (fun _ hg => hg) hptr hl hfields]
  simp only [free] at hfree
  split at hfree
  · rw [if_pos trivial] at hfree
    cases hfree
    exact Heap.block?_kill_ne g hd
  · cases hfree

end Setter

/-! ## Main result -/

end Env

/-- How structs get into struct-typed fields: passed to `create_S`, or to the setter of field `f`
    of struct `b`, twice, before the struct is destroyed. -/
inductive Placement where
  | create (arg : Field → Val)
  | set (f : Field) (b : Nat) (ToInsert ToInsert' : Ptr)

namespace Env

section Main

variable (E : Env) (S : Struct) (earlier : List Struct) (h : Heap)

/-- The arguments are objects of their types; the struct is there, and its pointers do not lead
    to blocks that are yet to be allocated. -/
def Admissible : Placement → Prop
  | .create arg => E.ObjectArgs S earlier h arg
  | .set f b _ _ => f ∈ S.fields ∧ f.isStruct = true ∧ f.isMutable = true ∧
      ∃ blk, h.block? b = some blk ∧ E.Holds S blk ∧
        ∀ g ∈ S.fields, ∀ d o, E.ptrAt S blk g = .loc d o → d < h.next

/-- Each field holds a deep copy of what it was given, and no block made for a copy outlives the
    struct. -/
def CopiesDeep : Placement → Prop
  | .create arg => ∃ b h' blk,
      E.getConstructor S ((S.fields.filter (! ·.isMutable)).map arg) h = .ok (.base b, h') ∧
      h'.block? b = some blk ∧ ∀ f ∈ S.fields, f.isStruct = true → f.isMutable = false →
        E.DeepCopy earlier f.type h (arg f).asPtr h' (E.ptrAt S blk f)
  | .set f b t t' => ∃ h₁ blk₁ h₂ blk₂ h₃,
      E.getSetter S f (.base b) (.ptr t) 0 h = .ok (true, h₁) ∧ h₁.block? b = some blk₁ ∧
      E.DeepCopy earlier f.type h t h₁ (E.ptrAt S blk₁ f) ∧
      E.getSetter S f (.base b) (.ptr t') 0 h₁ = .ok (true, h₂) ∧ h₂.block? b = some blk₂ ∧
      E.DeepCopy earlier f.type h₁ t' h₂ (E.ptrAt S blk₂ f) ∧
      E.getDestructor S (.base b) h₂ = .ok ((), h₃) ∧ ∀ d, h.next ≤ d → h₃.block? d = none

/-- Every struct passed to `create_S` is all in the bytes of a pointer. -/
def FitsPointer : Placement → Prop
  | .create arg => ∀ f ∈ S.fields, f.isStruct = true → f.isMutable = false →
      ∀ T ∈ earlier, pointeeName f.type = some T.name → ∀ blk,
        h.block? (arg f).asPtr.block = some blk → E.CoversStruct T blk (E.layout.allocSize f.type)
  | .set _ _ _ _ => False

variable {E S earlier h}

/-- The block of an object, and the struct it is an object of. -/
theorem Stored.object {t : Ty} {p : Ptr} (hst : E.Stored earlier h t p) :
    ∃ T ∈ earlier, pointeeName t = some T.name ∧ ∃ b blk, p = .base b ∧ h.block? b = some blk ∧
      blk.cells.length = E.layout.structSize T.packed T.elements := by
  induction earlier with
  | nil => exact hst.elim
  | cons T earlier ih =>
    unfold Stored at hst
    split at hst
    · next hname =>
      obtain ⟨b, blk, hp, hl, hsize, -⟩ := hst
      exact ⟨T, List.mem_cons_self, hname, b, blk, hp, hl, hsize⟩
    · obtain ⟨T', hT', hobject⟩ := ih hst
      exact ⟨T', List.mem_cons_of_mem T hT', hobject⟩

/-- As many bytes can be read from the start of a block as it has. -/
theorem readable_base_iff {b n : Nat} {blk : Block} (hl : h.block? b = some blk) (hn : 0 < n) :
    h.Readable (.base b) n ↔ n ≤ blk.cells.length := by
  constructor
  · intro hread
    obtain ⟨cs, hcs⟩ := Option.isSome_iff_exists.mp (hread.resolve_left (Nat.ne_of_gt hn))
    obtain ⟨b', o, blk', hp, hl', hle, -⟩ := Heap.read_eq_some hcs
    obtain ⟨rfl, rfl⟩ := Ptr.loc.inj hp
    obtain rfl := Option.some.inj (hl.symm.trans hl')
    exact Nat.le_trans (Nat.le_add_left n _) hle
  · intro hle
    exact Or.inr (by rw [Heap.read_loc hl ((Nat.zero_add n).symm ▸ hle)]; rfl)

theorem bytesAt_base {b n : Nat} {blk : Block} (hl : h.block? b = some blk)
    (hle : n ≤ blk.cells.length) : h.bytesAt (.base b) n = slice blk.cells 0 n := by
  rw [Heap.bytesAt, Heap.read_loc hl ((Nat.zero_add n).symm ▸ hle)]
  rfl

variable {arg : Field → Val} {f : Field}

/-- What the constructor leaves in an immutable struct-typed field. -/
theorem Partway.deepCopy_iff (hn : earlier.Pairwise fun S T => S.name ≠ T.name)
    (wfe : ∀ T ∈ earlier, T.WellFormed) {h' : Heap} {blk : Block}
    (hp : E.Partway S h arg S.fields h' blk) (hargs : E.ObjectArgs S earlier h arg)
    (hf : f ∈ S.fields) (hs : f.isStruct = true) (hm : f.isMutable = false)
    (hpos : 0 < E.layout.allocSize f.type)
    (hread : h.Readable (arg f).asPtr (E.layout.allocSize f.type)) :
    E.DeepCopy earlier f.type h (arg f).asPtr h' (E.ptrAt S blk f) ↔
      ∀ T ∈ earlier, pointeeName f.type = some T.name → ∀ tblk,
        h.block? (arg f).asPtr.block = some tblk →
        E.CoversStruct T tblk (E.layout.allocSize f.type) := by
  have hst := hargs.struct f hf hm hs
  obtain ⟨-, -, -, b, tblk, hb, hl, -⟩ := hst.object
  obtain ⟨d, arr, hptr, hlt, hd, hcells⟩ := hp.copy f hf hs hm
  rw [hb] at hread hcells hst ⊢
  have hfit := (readable_base_iff hl hpos).mp hread
  rw [bytesAt_base hl hfit] at hcells
  rw [hptr, Env.deepCopy_iff hn wfe hst hl hfit hp.other (Nat.le_of_lt hlt) hd hcells]
  constructor
  · intro hcover T hT hname tblk' hl'
    obtain rfl := Option.some.inj (hl.symm.trans hl')
    exact hcover T hT hname
  · intro hcover T hT hname
    exact hcover T hT hname tblk hl

/-- What is no longer than its type's pointers can be read that far. -/
theorem readable_of_fitsPointer (hargs : E.ObjectArgs S earlier h arg) (hf : f ∈ S.fields)
    (hs : f.isStruct = true) (hm : f.isMutable = false) (hpos : 0 < E.layout.allocSize f.type)
    (hfits : E.FitsPointer S earlier h (.create arg)) :
    h.Readable (arg f).asPtr (E.layout.allocSize f.type) := by
  obtain ⟨T, hT, hname, b, tblk, hb, hl, hsize⟩ := (hargs.struct f hf hm hs).object
  have hcover := hfits f hf hs hm T hT hname tblk (by rw [hb]; exact hl)
  rw [hb, readable_base_iff hl hpos, hsize]
  exact hcover.1

theorem copiesDeep_create_iff (wf : S.WellFormed) (hcf : S.CountsFirst)
    (hA : ∀ t n, E.alloc.succeeds t n = true)
    (hstruct : E.layout.structSize S.packed S.elements < 2 ^ 64)
    (hptr : ∀ f ∈ S.fields, f.isStruct = true → E.layout.allocSize f.type < 2 ^ 64)
    (hn : earlier.Pairwise fun S T => S.name ≠ T.name) (wfe : ∀ T ∈ earlier, T.WellFormed)
    (hargs : E.ObjectArgs S earlier h arg) :
    E.CopiesDeep S earlier h (.create arg) ↔ E.FitsPointer S earlier h (.create arg) := by
  have hpos : ∀ f ∈ S.fields, f.isStruct = true → 0 < E.layout.allocSize f.type := by
    intro f hf hs
    obtain ⟨-, -, t, ht⟩ := struct_spec wf hf hs
    have hle := E.layout.storeSize_le_allocSize f.type
    rw [ht, E.layout.storeSize_ptr] at hle
    rw [ht]
    exact Nat.lt_of_lt_of_le E.layout.pointerSize_pos hle
  constructor
  · rintro ⟨b, h', blk, hrun, hl, hcopy⟩
    rcases getConstructor_cases wf hcf hA hstruct hptr hargs with
      ⟨hread, h₁, blk₁, hok, hp⟩ | ⟨-, hfault⟩
    · obtain ⟨hb, rfl⟩ := Prod.mk.inj (Except.ok.inj (hok.symm.trans hrun))
      obtain ⟨rfl, -⟩ := Ptr.loc.inj hb
      obtain rfl := Option.some.inj (hp.block.symm.trans hl)
      intro f hf hs hm
      exact (hp.deepCopy_iff hn wfe hargs hf hs hm (hpos f hf hs) (hread f hf hs hm)).mp
        (hcopy f hf hs hm)
    · rw [hfault] at hrun
      cases hrun
  · intro hfits
    have hread : E.ReadablePointees h arg S.fields := fun f hf hs hm =>
      readable_of_fitsPointer hargs hf hs hm (hpos f hf hs) hfits
    rcases getConstructor_cases wf hcf hA hstruct hptr hargs with
      ⟨-, h₁, blk₁, hok, hp⟩ | ⟨hno, -⟩
    · refine ⟨h.next, h₁, blk₁, hok, hp.block, fun f hf hs hm => ?_⟩
      exact (hp.deepCopy_iff hn wfe hargs hf hs hm (hpos f hf hs) (hread f hf hs hm)).mpr
        (hfits f hf hs hm)
    · exact absurd hread hno

/-- The struct that the setter replaces stays allocated. -/
theorem not_copiesDeep_set (hcl : E.Closed) (wf : S.WellFormed) {f : Field} {b : Nat} {t t' : Ptr}
    (hadm : E.Admissible S earlier h (.set f b t t')) :
    ¬ E.CopiesDeep S earlier h (.set f b t t') := by
  rintro ⟨h₁, blk₁, h₂, blk₂, h₃, hset₁, hl₁, hcopy₁, hset₂, hl₂, -, hdestroy, hnone⟩
  obtain ⟨hf, hs, -, blk, hl, hb, hold⟩ := hadm
  obtain ⟨q₁, g₁, he₁, hq₁, rfl, hw₁, hp₁⟩ := setStruct_eq_ok wf hcl hl hb hf hs hset₁
  obtain rfl := Option.some.inj ((Heap.block?_update_self (he₁.block?_some hl) _).symm.trans hl₁)
  -- the first copy is a block `d` of its own
  obtain ⟨d, x, hqd, hd⟩ := hcopy₁.1.live
  rw [hp₁] at hqd
  subst hqd
  have hdn : h.next ≤ d := by
    rcases hq₁ with hnull | ⟨e, o, heq, hle, -⟩
    · cases hnull
    · obtain ⟨rfl, -⟩ := Ptr.loc.inj heq
      exact hle
  have hdb : d ≠ b := Nat.ne_of_gt (Nat.lt_of_lt_of_le (Heap.lt_next hl) hdn)
  obtain ⟨q₂, g₂, he₂, hq₂, rfl, hw₂, hp₂⟩ :=
    setStruct_eq_ok wf hcl hl₁ (holds_put hb) hf hs hset₂
  obtain rfl := Option.some.inj ((Heap.block?_update_self (he₂.block?_some hl₁) _).symm.trans hl₂)
  have hd₂ : (g₂.update b (E.put S (E.put S blk f (E.encode f.type (.ptr (.base d)))) f
      (E.encode f.type (.ptr q₂)))).block? d = some x :=
    (Heap.block?_update_ne g₂ hdb _).trans (he₂.block?_some hd)
  -- no field of the struct leads there any more
  have hkeep := getDestructor_keeps wf (holds_put (holds_put hb)) hdb (fun g hg _ o => ?_) hl₂
    hdestroy
  · rw [hnone d hdn, hd₂] at hkeep
    cases hkeep
  · by_cases hgf : g = f
    · subst hgf
      rw [hp₂]
      rintro rfl
      rcases hq₂ with hnull | ⟨e, o', heq, hle, -⟩
      · cases hnull
      · obtain ⟨rfl, -⟩ := Ptr.loc.inj heq
        exact absurd (Heap.lt_next hd) (Nat.not_lt.mpr hle)
    · intro hgd
      have hsame : E.ptrAt S blk g = .loc d o := by
        rw [← hgd]
        exact ((ptrAt_congr (slot_put_ne wf (holds_put hb) hf hg hgf hw₂)).trans
          (ptrAt_congr (slot_put_ne wf hb hf hg hgf hw₁))).symm
      exact absurd (hold g hg d o hsame) (Nat.not_lt.mpr hdn)

end Main

end Env

open Env

/-- What is placed in struct-typed fields is a deep copy there that does not outlive the struct
    exactly when it is placed by `create_S` and all of it is in the bytes of a pointer. -/
theorem copiesDeep_iff {A : Allocator} {DL : DataLayout} {later earlier : List Struct} {S : Struct}
    (wf : ∀ T ∈ later ++ S :: earlier, T.WellFormed) (hn : DistinctNames (later ++ S :: earlier))
    (hcf : S.CountsFirst) (hA : ∀ t n, A.succeeds t n = true)
    (hstruct : DL.structSize S.packed S.elements < 2 ^ 64)
    (hptr : ∀ f ∈ S.fields, f.isStruct = true → DL.allocSize f.type < 2 ^ 64) {h : Heap}
    {q : Placement}
    (hadm : ((ofModule A DL (later ++ S :: earlier)).link earlier).Admissible S earlier h q) :
    ((ofModule A DL (later ++ S :: earlier)).link earlier).CopiesDeep S earlier h q ↔
      ((ofModule A DL (later ++ S :: earlier)).link earlier).FitsPointer S earlier h q := by
  set E := ofModule A DL (later ++ S :: earlier) with hE
  have wfS : S.WellFormed := wf S (List.mem_append_right later List.mem_cons_self)
  have hpair : earlier.Pairwise fun S T => S.name ≠ T.name :=
    ((List.pairwise_append.mp (pairwise_name hn)).2.1).of_cons
  cases q with
  | create arg =>
    exact copiesDeep_create_iff wfS hcf hA hstruct hptr hpair
      (fun T hT => wf T (List.mem_append_right later (List.mem_cons_of_mem S hT))) hadm
  | set f b t t' =>
    exact ⟨fun hcopies => not_copiesDeep_set (closed_link E earlier) wfS hadm hcopies,
      fun hfits => hfits.elim⟩

/-- `struct a { int64 x }`, as large as a pointer. -/
def wordStruct : Struct where
  name := "a"
  packed := false
  type := some (.struct 0 "a")
  fields :=
    [{ id := 0, name := "x", type := .int 64, isMutable := false, isStruct := false
       isRepeated := false, isCount := false, countField := none, countsFor := none
       parentType := some (.struct 0 "a"), offset := 0 }]

theorem wordStruct_wellFormed : wordStruct.WellFormed where
  offset_eq := by decide
  ids_nodup := by decide
  parentType_eq := by decide
  isSome_type := rfl
  kind f hf := by
    obtain rfl := List.mem_singleton.mp hf
    exact .plain rfl rfl rfl (by decide : 0 < 64)

/-- An `a` in block 0. -/
def wordBlock : Block := ⟨encodeInt false 8 7, by decide⟩

def wordHeap : Heap where
  blocks := [some wordBlock]
  calls := 1

theorem stored_word :
    ((ofModule .calloc .default [outerStruct, wordStruct]).link [wordStruct]).Stored [wordStruct]
      wordHeap (.ptr (.struct 0 "a")) (.base 0) := by
  refine ⟨0, wordBlock, rfl, rfl, by decide, fun g hg hr => ?_, fun g hg hs => ?_⟩
  · obtain rfl := List.mem_singleton.mp hg
    cases hr
  · obtain rfl := List.mem_singleton.mp hg
    cases hs

/-- The arguments of `create_b`. -/
theorem objectArgs_outer {E : Env} {Ss : List Struct} {h : Heap} {p : Ptr}
    (hst : E.Stored Ss h (.ptr (.struct 0 "a")) p) :
    E.ObjectArgs outerStruct Ss h fun _ => .ptr p := by
  refine ⟨fun f hf _ _ hns => ?_, fun f hf _ hr => ?_, fun f hf _ _ => ?_⟩
  · obtain rfl := List.mem_singleton.mp hf
    cases hns
  · obtain rfl := List.mem_singleton.mp hf
    cases hr
  · obtain rfl := List.mem_singleton.mp hf
    exact hst

/-- A `b` made from it has a copy of its own. -/
theorem copiesDeep_word :
    ((ofModule .calloc .default ([] ++ outerStruct :: [wordStruct])).link [wordStruct]).CopiesDeep
      outerStruct [wordStruct] wordHeap (.create fun _ => .ptr (.base 0)) := by
  refine (copiesDeep_iff ?_ ?_ ?_ (fun _ _ => rfl) ?_ ?_ ?_).mpr ?_
  · exact List.forall_mem_cons.mpr
      ⟨outerStruct_wellFormed, List.forall_mem_singleton.mpr wordStruct_wellFormed⟩
  · unfold DistinctNames
    decide
  · intro f hf hr
    obtain rfl := List.mem_singleton.mp hf
    cases hr
  · decide
  · intro f hf _
    obtain rfl := List.mem_singleton.mp hf
    decide
  · exact objectArgs_outer stored_word
  · intro f hf _ _ T hT _ blk hl
    obtain rfl := List.mem_singleton.mp hf
    obtain rfl := List.mem_singleton.mp hT
    refine ⟨by decide, fun g hg => ?_⟩
    obtain rfl := List.mem_singleton.mp hg
    exact ⟨by decide, fun hptr => nomatch hptr⟩

/-- Of the one byte that is `nestedHeap`'s `a`, `create_b` copies eight. -/
theorem byte_struct_not_copied :
    (nestedEnv.link [innerStruct]).Admissible outerStruct [innerStruct] nestedHeap
      (.create fun _ => .ptr (.base 1)) ∧
    (nestedEnv.link [innerStruct]).getConstructor outerStruct [.ptr (.base 1)] nestedHeap =
      .error .access ∧
    ¬ (nestedEnv.link [innerStruct]).CopiesDeep outerStruct [innerStruct] nestedHeap
      (.create fun _ => .ptr (.base 1)) := by
  have hrun : (nestedEnv.link [innerStruct]).getConstructor outerStruct [.ptr (.base 1)]
      nestedHeap = .error .access := by rfl
  have hst : (nestedEnv.link [innerStruct]).Stored [innerStruct] nestedHeap (.ptr (.struct 0 "a"))
      (.base 1) := by
    refine ⟨1, _, rfl, rfl, by decide, fun g hg hr => ?_, fun g hg hs => ?_⟩
    · obtain rfl := List.mem_singleton.mp hg
      cases hr
    · obtain rfl := List.mem_singleton.mp hg
      cases hs
  refine ⟨objectArgs_outer hst, hrun, ?_⟩
  rintro ⟨b, h', blk, hok, -⟩
  exact nomatch hrun.symm.trans hok

end Tyr
