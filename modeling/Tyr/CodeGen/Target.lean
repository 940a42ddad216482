import Tyr.IR.Struct

/-
  Which data layout each stage of `tyrc` sees.

  `main` parses, links the runtime modules, runs `LLVMIRGenPass` and then the codegen pass.
  Parsing sorts the fields by the layout of the fresh module. Linking replaces that layout
  only if a runtime module has one (LLVM's linker: the source's layout is taken when the
  destination has the default one). `LLVMIRGenPass` turns `getTypeAllocSize` into constants
  under the layout it finds; `ObjectCodegenPass` and `LLVMCodegenPass` then install the
  target's layout, by which every GEP is lowered.

  So the constants fit only as far as the two layouts agree. `layouts_agree_iff` says for each
  schema when they do: arrays have one stride under both, and the target needs no more room for
  the fields in their sorted order, padding included. Where the types have one size under all
  layouts, and that a power of two, the order does not matter: the sum of the sizes is rounded
  once (`structSize_sorted`). All schemas fit exactly when every type takes one slot under both.
-/

namespace Tyr

/-! ## The stages of tyrc -/

/-- `rt::isFileEnabled` -/
def isFileEnabled (options : BitVec 32) : Bool := options &&& (1 <<< 0) == 1

/-- `rt::isB64Enabled` -/
def isB64Enabled (options : BitVec 32) : Bool := (options &&& (1 <<< 1)) >>> 1 == 1

/-- `Linker::linkInModule`, as far as the layout goes. `none` is a module without one. -/
def linkInModule (parent OM : Option DataLayout) : Option DataLayout := parent.or OM

/-- `linkRuntimeModules`; the arguments are the layouts of `tyr-rt-file.bc` and
    `tyr-rt-base64.bc`. -/
def linkRuntimeModules (file base64 parent : Option DataLayout) (options : BitVec 32) :
    Option DataLayout :=
  let OutsideModules :=
    (if isFileEnabled options then [file] else []) ++
    (if isB64Enabled options then [base64] else [])
  OutsideModules.foldl linkInModule parent

/-- `llvm::Module::getDataLayout` -/
def getDataLayout (parent : Option DataLayout) : DataLayout := parent.getD .default

/-- The layouts at `finalizeFields`, at `LLVMIRGenPass` and after the codegen pass's
    `setDataLayout`. -/
structure Stages where
  sorting : DataLayout
  sizing : DataLayout
  addressing : DataLayout

/-- One run of `main`. -/
def stages (file base64 : Option DataLayout) (options : BitVec 32) (target : DataLayout) :
    Stages where
  sorting := getDataLayout none
  sizing := getDataLayout (linkRuntimeModules file base64 none options)
  addressing := target

/-! ## Agreement -/

/-- The struct fits the block allocated for it, and array elements are where the constants
    say. -/
structure Stages.Fits (L : Stages) (S : Struct) : Prop where
  struct : L.addressing.structSize S.packed S.elements ≤ L.sizing.structSize S.packed S.elements
  array : ∀ f ∈ S.fields, ∀ t, f.isRepeated = true → f.type = .ptr t →
    L.sizing.allocSize t = L.addressing.allocSize t

/-- A type that takes one slot under both layouts. -/
def Stages.SameSlot (L : Stages) (t : Ty) : Prop :=
  L.addressing.allocSize t = L.sizing.allocSize t ∧
  L.addressing.getABITypeAlignment t ≤ L.sizing.getABITypeAlignment t

/-- A type of one alloc size, a power of two, under all layouts. -/
def Stages.SamePower (L : Stages) (t : Ty) : Prop :=
  (L.sorting.allocSize t).isPowerOfTwo ∧ L.sizing.allocSize t = L.sorting.allocSize t ∧
  L.addressing.allocSize t = L.sorting.allocSize t

/-- `t` is the type of a field of `S` or of an array's elements. -/
def Struct.Uses (S : Struct) (t : Ty) : Prop :=
  ∃ f ∈ S.fields, f.type = t ∨ f.isRepeated = true ∧ f.type = .ptr t

/-- `t` is the type of an array's elements. -/
def Struct.HasElement (S : Struct) (t : Ty) : Prop :=
  ∃ f ∈ S.fields, f.isRepeated = true ∧ f.type = .ptr t

section Finalized

variable {DL : DataLayout} {S : Struct} {std : StdSort DL} {type t : Ty}

/-- Parent and position apart, the fields are what they were. -/
theorem exists_finalizeFields {P : Field → Prop}
    (hP : ∀ (f : Field) T i, P { f with parentType := T, offset := i } ↔ P f) :
    (∃ f ∈ (S.finalizeFields std type).fields, P f) ↔ ∃ f ∈ S.fields, P f := by
  constructor
  · rintro ⟨f, hf, h⟩
    obtain ⟨g, hg, i, rfl, -⟩ := Struct.mem_finalizeFields.mp hf
    exact ⟨g, hg, (hP g _ i).mp h⟩
  · rintro ⟨f, hf, h⟩
    obtain ⟨i, hi⟩ := Struct.exists_mem_finalizeFields std type hf
    exact ⟨_, hi, (hP f _ i).mpr h⟩

theorem uses_finalizeFields : (S.finalizeFields std type).Uses t ↔ S.Uses t :=
  exists_finalizeFields fun _ _ _ => Iff.rfl

theorem hasElement_finalizeFields :
    (S.finalizeFields std type).HasElement t ↔ S.HasElement t :=
  exists_finalizeFields fun _ _ _ => Iff.rfl

end Finalized

theorem Stages.fits_iff {L : Stages} {S : Struct} : L.Fits S ↔
    (∀ t, S.HasElement t → L.addressing.allocSize t = L.sizing.allocSize t) ∧
    L.addressing.structSize S.packed S.elements ≤ L.sizing.structSize S.packed S.elements := by
  constructor
  · intro h
    refine ⟨fun t ht => ?_, h.struct⟩
    obtain ⟨f, hf, hr, hft⟩ := ht
    exact (h.array f hf t hr hft).symm
  · rintro ⟨hstride, hsize⟩
    exact ⟨hsize, fun f hf t hr ht => (hstride t ⟨f, hf, hr, ht⟩).symm⟩

/-! ## The room that the fields need -/

namespace DataLayout

variable (DL : DataLayout)

/-- The alloc sizes, without padding. -/
def totalSize (elements : List Ty) : Nat := (elements.map DL.allocSize).sum

/-- The bytes of a struct that belong to no element. -/
def padding (packed : Bool) (elements : List Ty) : Nat := Tyr.padding (DL.members packed elements)

/-- The alignment of a struct type: the largest among its elements. -/
def structAlign (packed : Bool) (elements : List Ty) : Nat :=
  maxAlign (DL.members packed elements)

variable {elements elements' : List Ty}

theorem sum_members (packed : Bool) (elements : List Ty) :
    ((DL.members packed elements).map Prod.fst).sum = DL.totalSize elements := by
  rw [members, List.map_map]
  rfl

theorem structSize_eq (packed : Bool) (elements : List Ty) :
    DL.structSize packed elements = DL.totalSize elements + DL.padding packed elements := by
  rw [structSize, recordSize_eq (DL.members_align_pos packed elements), sum_members, padding]

theorem totalSize_perm (h : elements.Perm elements') :
    DL.totalSize elements = DL.totalSize elements' :=
  (h.map _).sum_nat

theorem structAlign_perm (packed : Bool) (h : elements.Perm elements') :
    DL.structAlign packed elements = DL.structAlign packed elements' :=
  maxAlign_perm (h.map _)

/-- Sizes that are powers of two, in nondecreasing order, leave no padding but one rounding. -/
theorem structSize_sorted (packed : Bool)
    (hpow : ∀ t ∈ elements, (DL.allocSize t).isPowerOfTwo)
    (hsorted : elements.Pairwise fun t t' => DL.allocSize t ≤ DL.allocSize t') :
    DL.structSize packed elements =
      alignTo (DL.totalSize elements) (DL.structAlign packed elements) := by
  have hself : ∀ t : Ty, (if packed then 1 else DL.getABITypeAlignment t) ∣ DL.allocSize t := by
    intro t
    cases packed
    · exact dvd_alignTo _ _
    · exact Nat.one_dvd _
  have hdvd : ∀ m ∈ DL.members packed elements, m.2 ∣ m.1 := by
    intro m hm
    obtain ⟨t, -, rfl⟩ := List.mem_map.mp hm
    exact hself t
  have hpair : (DL.members packed elements).Pairwise fun m m' => m.2 ∣ m'.1 := by
    refine List.pairwise_map.mpr (hsorted.imp_of_mem fun {t t'} ht ht' hle => ?_)
    exact Nat.dvd_trans (hself t) (dvd_of_isPowerOfTwo (hpow t ht) (hpow t' ht') hle)
  rw [structSize, recordSize_of_dvd (DL.members_align_pow2 packed elements) hdvd hpair,
    sum_members, structAlign]

end DataLayout

section Room

variable {L : Stages} {T : Struct} (std : StdSort L.sorting) (type : Ty)

theorem elements_perm : (T.finalizeFields std type).elements.Perm T.elements := by
  unfold Struct.elements
  rw [Struct.map_finalizeFields std type (·.type) fun _ _ _ => rfl]
  exact (std.perm T.fields).map _

theorem elements_sorted : (T.finalizeFields std type).elements.Pairwise
    fun t t' => L.sorting.allocSize t ≤ L.sorting.allocSize t' := by
  unfold Struct.elements
  rw [Struct.map_finalizeFields std type (·.type) fun _ _ _ => rfl]
  exact List.pairwise_map.mpr (std.sorted T.fields)

/-- Sizes that have grown are paid for by padding that has shrunk. -/
theorem Stages.fits_iff_padding : L.Fits (T.finalizeFields std type) ↔
    (∀ t, T.HasElement t → L.addressing.allocSize t = L.sizing.allocSize t) ∧
    L.addressing.totalSize T.elements +
        L.addressing.padding T.packed (T.finalizeFields std type).elements ≤
      L.sizing.totalSize T.elements +
        L.sizing.padding T.packed (T.finalizeFields std type).elements := by
  rw [Stages.fits_iff, DataLayout.structSize_eq, DataLayout.structSize_eq,
    DataLayout.totalSize_perm _ (elements_perm std type),
    DataLayout.totalSize_perm _ (elements_perm std type)]
  exact and_congr_left' (forall_congr' fun t => imp_congr_left hasElement_finalizeFields)

/-- Without sizes that differ, it is a matter of the two alignments. -/
theorem Stages.fits_iff_dvd (h : ∀ t, T.Uses t → L.SamePower t) :
    L.Fits (T.finalizeFields std type) ↔ L.addressing.structAlign T.packed T.elements ∣
      alignTo (L.sizing.totalSize T.elements) (L.sizing.structAlign T.packed T.elements) := by
  set S := T.finalizeFields std type with hS
  have huse : ∀ t ∈ S.elements, L.SamePower t := by
    intro t ht
    obtain ⟨f, hf, rfl⟩ := List.mem_map.mp ((elements_perm std type).mem_iff.mp ht)
    exact h f.type ⟨f, hf, .inl rfl⟩
  have hsize : ∀ DL : DataLayout,
      (∀ t, L.SamePower t → DL.allocSize t = L.sorting.allocSize t) →
      DL.structSize S.packed S.elements =
        alignTo (DL.totalSize T.elements) (DL.structAlign T.packed T.elements) := by
    intro DL hDL
    rw [DL.structSize_sorted S.packed, DL.totalSize_perm (elements_perm std type),
      DL.structAlign_perm _ (elements_perm std type)]
    · rfl
    · intro t ht
      rw [hDL t (huse t ht)]
      exact (huse t ht).1
    · refine (elements_sorted std type).imp_of_mem fun {t t'} ht ht' hle => ?_
      rwa [hDL t (huse t ht), hDL t' (huse t' ht')]
  have htotal : L.addressing.totalSize T.elements = L.sizing.totalSize T.elements := by
    refine congrArg List.sum (List.map_congr_left fun t ht => ?_)
    have hp := huse t ((elements_perm std type).mem_iff.mpr ht)
    rw [hp.2.1, hp.2.2]
  rw [Stages.fits_iff, hsize _ fun t ht => ht.2.2, hsize _ fun t ht => ht.2.1, htotal,
    alignTo_le_alignTo_iff]
  · refine and_iff_right fun t ht => ?_
    obtain ⟨f, hf, hft⟩ := hasElement_finalizeFields.mp ht
    have hp := h t ⟨f, hf, .inr hft⟩
    rw [hp.2.1, hp.2.2]
  · exact maxAlign_pow2 (L.sizing.members_align_pow2 _ _)
  · exact maxAlign_pow2 (L.addressing.members_align_pow2 _ _)

end Room

section Sufficient

variable {L : Stages} {S : Struct}

/-- Alloc sizes and alignments that do not grow give a struct that does not grow. -/
theorem DataLayout.structSize_mono (DL DL' : DataLayout) (packed : Bool) {elements : List Ty}
    (h : ∀ t ∈ elements, DL.allocSize t ≤ DL'.allocSize t ∧
      DL.getABITypeAlignment t ≤ DL'.getABITypeAlignment t) :
    DL.structSize packed elements ≤ DL'.structSize packed elements := by
  apply recordSize_mono (DL.members_align_pow2 packed elements)
    (DL'.members_align_pow2 packed elements)
  unfold DataLayout.members
  rw [List.forall₂_map_left_iff, List.forall₂_map_right_iff, List.forall₂_same]
  intro t ht
  obtain ⟨hs, ha⟩ := h t ht
  cases packed
  · exact ⟨hs, ha⟩
  · exact ⟨hs, Nat.le_refl 1⟩

/-- A schema whose types all take one slot fits. -/
theorem Stages.fits_of_sameSlot (h : ∀ t, S.Uses t → L.SameSlot t) : L.Fits S where
  struct := by
    apply DataLayout.structSize_mono
    intro t ht
    obtain ⟨f, hf, rfl⟩ := List.mem_map.mp ht
    obtain ⟨hs, ha⟩ := h f.type ⟨f, hf, .inl rfl⟩
    exact ⟨Nat.le_of_eq hs, ha⟩
  array f hf t hr ht := (h t ⟨f, hf, .inr ⟨hr, ht⟩⟩).1.symm

end Sufficient

/-! ## Schemas that tell two layouts apart -/

/-- An array of `t`. -/
def arrayOf (t : Ty) : Struct := (Struct.new "s").addRepeatedField "x" (.ptr t) false

/-- A byte, then a `t`. -/
def byteThen (t : Ty) : Struct :=
  ((Struct.new "s").addField "x" (.int 8) false).addField "y" t false

section Necessary

variable {L : Stages} {t : Ty}

theorem built_arrayOf (ht : t.IsElement) : (arrayOf t).Built :=
  (Struct.Built.new "s").addRepeatedField "x" ht false

theorem built_byteThen (ht : t.IsElement) : (byteThen t).Built :=
  have h8 : (Ty.int 8).IsElement := (by decide : 0 < 8)
  ((Struct.Built.new "s").addField "x" h8 false).addField "y" ht false

theorem allocSize_i8 (DL : DataLayout) : DL.allocSize (.int 8) = 1 := by
  have h8 : DL.getABITypeAlignment (.int 8) = 1 := DL.i8_align
  rw [DataLayout.allocSize, h8, alignTo_one]
  simp [DataLayout.storeSize, DataLayout.getTypeSizeInBits]

theorem elements_finalizeFields_stable (DL : DataLayout) {T : Struct} (type : Ty)
    (h : T.fields.Pairwise fun a b => getFieldSize DL a ≤ getFieldSize DL b) :
    (T.finalizeFields (.stable DL) type).elements = T.elements := by
  rw [Struct.finalizeFields_stable type h]
  apply List.ext_getElem
  · simp [Struct.elements]
  · intro i h1 h2
    simp [Struct.elements]

/-- The byte stays in front of the `t`. -/
theorem elements_byteThen {DL : DataLayout} (ht : t.IsElement) (type : Ty) :
    ((byteThen t).finalizeFields (.stable DL) type).elements = [.int 8, t] := by
  apply elements_finalizeFields_stable DL
  have hle := DL.allocSize_element_pos ht
  rw [Nat.lt_iff_add_one_le, ← allocSize_i8 DL] at hle
  simpa [byteThen, Struct.addField, Struct.new, getFieldSize] using hle

/-- After the byte the `t` goes to its alignment, and the struct ends with it. -/
theorem structSize_byteThen (DL : DataLayout) (t : Ty) :
    DL.structSize false [.int 8, t] = DL.getABITypeAlignment t + DL.allocSize t := by
  have hpos := DL.getABITypeAlignment_pos t
  have h1 : alignTo 1 (DL.getABITypeAlignment t) = DL.getABITypeAlignment t :=
    Nat.le_antisymm (alignTo_le hpos (Nat.dvd_refl _) hpos)
      (Nat.le_of_dvd (Nat.lt_of_lt_of_le Nat.one_pos (le_alignTo 1 hpos)) (dvd_alignTo 1 _))
  have hd : DL.getABITypeAlignment t ∣ DL.getABITypeAlignment t + DL.allocSize t :=
    Nat.dvd_add (Nat.dvd_refl _) (dvd_alignTo _ _)
  have h8 : DL.getABITypeAlignment (.int 8) = 1 := DL.i8_align
  have hmax : maxAlign (DL.members false [.int 8, t]) = DL.getABITypeAlignment t := by
    simp only [DataLayout.members, List.map_cons, List.map_nil, maxAlign, List.foldr_cons,
      List.foldr_nil, h8, Bool.false_eq_true, if_false]
    omega
  have hend : endOffset (DL.members false [.int 8, t]) 0 =
      DL.getABITypeAlignment t + DL.allocSize t := by
    simp only [DataLayout.members, List.map_cons, List.map_nil, endOffset, h8, allocSize_i8,
      alignTo_one, Bool.false_eq_true, if_false, Nat.zero_add, h1]
  rw [DataLayout.structSize, recordSize, hmax, hend, alignTo_of_dvd hpos hd]

/-- Layouts under which every schema fits give every element type one slot. -/
theorem Stages.sameSlot_of_fits (ht : t.IsElement)
    (h : ∀ T : Struct, T.Built → ∀ (std : StdSort L.sorting) (type : Ty),
      L.Fits (T.finalizeFields std type)) : L.SameSlot t := by
  have hsize : L.sizing.allocSize t = L.addressing.allocSize t := by
    -- the array's stride
    obtain ⟨i, hi⟩ := Struct.exists_mem_finalizeFields (S := arrayOf t)
      (StdSort.stable L.sorting) .float (List.mem_cons_of_mem _ List.mem_cons_self)
    exact (h _ (built_arrayOf ht) (.stable _) .float).array _ hi t rfl rfl
  have hstruct := (h _ (built_byteThen ht) (.stable _) .float).struct
  rw [elements_byteThen ht] at hstruct
  have hpacked : ((byteThen t).finalizeFields (.stable L.sorting) .float).packed = false := rfl
  rw [hpacked, structSize_byteThen, structSize_byteThen] at hstruct
  exact ⟨hsize.symm, by omega⟩

end Necessary

/-- Layouts that give every element type one slot give every type of a schema one. -/
theorem Stages.sameSlot_of_uses {L : Stages} {T : Struct} {t : Ty} (hT : T.Built)
    (h : ∀ t : Ty, t.IsElement → L.SameSlot t) (ht : T.Uses t) : L.SameSlot t := by
  have hscalar : ∀ {t : Ty}, t.IsScalar → t.IsElement := by
    intro t ht
    cases t <;> first | exact ht | exact ht.elim
  have hptr : ∀ t : Ty, L.SameSlot (.ptr t) := by
    intro t
    exact h (.ptr (.struct 0 "")) trivial
  obtain ⟨f, hf, rfl | ⟨hr, hft⟩⟩ := ht
  · cases hT.kind f hf with
    | plain hs hr hc he => exact h f.type he
    | count r hs hr hc he => exact he ▸ h (.int 64) (hscalar (by decide))
    | array t c hs hr hc he => exact he ▸ hptr t
  · cases hT.kind f hf with
    | plain hs hr' => rw [hr] at hr'; cases hr'
    | count r hs hr' => rw [hr] at hr'; cases hr'
    | array e c hs hr' hc he hel =>
      obtain rfl : e = t := Ty.ptr.inj (he.symm.trans hft)
      exact h e hel

/-! ## Main results -/

/-- The layout of x86-64 Linux: `i64` is aligned to 8. -/
def DataLayout.x86_64 : DataLayout where
  bigEndian := false
  pointerSize := 8
  pointerAlign := 8
  intAligns := [(1, 1), (8, 1), (16, 2), (32, 4), (64, 8)]
  floatAlign := 4
  doubleAlign := 8
  pointerSize_pos := eight_pos
  pointerAlign_pow2 := isPowerOfTwo_eight
  intAligns_pow2 := by
    intro e he
    simp only [List.mem_cons, List.not_mem_nil, or_false] at he
    rcases he with rfl | rfl | rfl | rfl | rfl
    exacts [⟨0, rfl⟩, ⟨0, rfl⟩, ⟨1, rfl⟩, ⟨2, rfl⟩, ⟨3, rfl⟩]
  floatAlign_pow2 := isPowerOfTwo_four
  doubleAlign_pow2 := isPowerOfTwo_eight
  i8_align := rfl
  i64_align := by decide

/-- `struct path { mutable repeated float x, mutable repeated float y, int32 idx }` -/
def floatPath (isPacked : Bool) : Struct :=
  ((((Struct.new "path").addRepeatedField "x" (.ptr .float) true).addRepeatedField "y"
    (.ptr .float) true).addField "idx" (.int 32) false).setIsPacked isPacked

/-- The counts are aligned to 4 under one layout and to 8 under the other, but the pointers of
    the arrays are aligned to 8 under both. -/
example (isPacked : Bool) (std : StdSort .default) (type : Ty) :
    (stages none none 0 .x86_64).Fits ((floatPath isPacked).finalizeFields std type) := by
  have hsame : ∀ t ∈ [Ty.int 64, .ptr .float, .int 32, .float],
      (stages none none 0 .x86_64).SamePower t := by
    unfold Stages.SamePower
    decide
  refine (Stages.fits_iff_dvd (L := stages none none 0 .x86_64) std type ?_).mpr
    (by cases isPacked <;> decide)
  rintro t ⟨f, hf, h⟩
  apply hsame
  simp only [floatPath, Struct.addRepeatedField, Struct.addField, Struct.new,
    Struct.setIsPacked, List.nil_append, List.cons_append, List.mem_cons, List.not_mem_nil,
    or_false] at hf
  rcases hf with rfl | rfl | rfl | rfl | rfl <;> rcases h with rfl | ⟨-, ht⟩ <;> simp_all

def intThenLong : Struct :=
  ((Struct.new "s").addField "a" (.int 32) false).addField "b" (.int 64) false

/-- An array of `int65` has stride 12 in the constants and 16 in the target's GEPs. -/
example : DataLayout.default.allocSize (.int 65) = 12 ∧
    DataLayout.x86_64.allocSize (.int 65) = 16 := by decide

end Tyr
