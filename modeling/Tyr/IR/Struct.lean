import Tyr.IR.Types

/-
  `tyr::ir::Field` and `tyr::ir::Struct`.

  Fields are heap objects that point at each other (`countField`, `countsFor`); a pointer
  is modelled by the object's number `id`, which sorting leaves alone. `std::sort` is not
  stable and ties all fields of one size, so `finalizeFields` takes the sort as a parameter
  (`StdSort`): any permutation nondecreasing in size.

  `WellFormed` is the invariant the generators rely on: offsets are positions, ids are
  distinct, counts and arrays point at each other. `finalizeFields_wellFormed`: a struct
  built by `addField` and `addRepeatedField` and then finalized has it, whatever the sort.
  `Linked` is the part that holds before that too and `IsComplete` the part that needs it.
-/

namespace Tyr

/-! ## Fields and structs -/

structure Field where
  id : Nat
  name : String
  type : Ty
  isMutable : Bool
  isStruct : Bool
  isRepeated : Bool
  isCount : Bool
  countField : Option Nat
  countsFor : Option Nat
  parentType : Option Ty
  offset : Nat
  deriving DecidableEq, Inhabited

structure Struct where
  name : String
  packed : Bool
  type : Option Ty
  fields : List Field
  deriving DecidableEq

/-- `explicit Struct(llvm::StringRef name)` -/
def Struct.new (name : String) : Struct where
  name := name
  packed := false
  type := none
  fields := []

namespace Struct

def setIsPacked (S : Struct) (isPacked : Bool) : Struct := { S with packed := isPacked }

def addField (S : Struct) (name : String) (type : Ty) (isMutable : Bool) : Struct :=
  { S with
    fields := S.fields ++
      [{ id := S.fields.length
         name := name
         type := type
         isMutable := isMutable
         isStruct := type.getPointerElementType.any Ty.isStructTy
         isRepeated := false
         isCount := false
         countField := none
         countsFor := none
         parentType := none
         offset := 0 }] }

/-- The count field goes in first, the array right after it. -/
def addRepeatedField (S : Struct) (name : String) (type : Ty) (isMutable : Bool) : Struct :=
  { S with
    fields := S.fields ++
      [{ id := S.fields.length
         name := name ++ "_count"
         type := .int 64
         isMutable := isMutable
         isStruct := false
         isRepeated := false
         isCount := true
         countField := none
         countsFor := some (S.fields.length + 1)
         parentType := none
         offset := 0 },
       { id := S.fields.length + 1
         name := name
         type := type
         isMutable := isMutable
         isStruct := false
         isRepeated := true
         isCount := false
         countField := some S.fields.length
         countsFor := none
         parentType := none
         offset := 0 }] }

end Struct

def getFieldSize (DL : DataLayout) (f : Field) : Nat := DL.allocSize f.type

/-- An implementation of `std::sort` with the comparator of `finalizeFields`. -/
structure StdSort (DL : DataLayout) where
  sort : List Field → List Field
  perm : ∀ fs, (sort fs).Perm fs
  sorted : ∀ fs, (sort fs).Pairwise fun a b => getFieldSize DL a ≤ getFieldSize DL b

/-- The stable one (which libstdc++ is up to 16 elements). -/
def StdSort.stable (DL : DataLayout) : StdSort DL where
  sort fs := fs.mergeSort fun a b => getFieldSize DL a ≤ getFieldSize DL b
  perm fs := List.mergeSort_perm fs _
  sorted fs := by
    have h := @List.pairwise_mergeSort _
      (fun a b => decide (getFieldSize DL a ≤ getFieldSize DL b))
      (fun a b c hab hbc => by simp only [decide_eq_true_eq] at *; omega)
      (fun a b => by simp only [Bool.or_eq_true, decide_eq_true_eq]; omega) fs
    exact h.imp (fun h => of_decide_eq_true h)

/-- One that turns ties around. -/
def StdSort.reversed (DL : DataLayout) : StdSort DL where
  sort fs := (StdSort.stable DL).sort fs.reverse
  perm fs := ((StdSort.stable DL).perm _).trans (List.reverse_perm fs)
  sorted _ := (StdSort.stable DL).sorted _

/-- Fields already in order stay where they are. -/
theorem StdSort.stable_of_pairwise {DL : DataLayout} {fs : List Field}
    (h : fs.Pairwise fun a b => getFieldSize DL a ≤ getFieldSize DL b) :
    (StdSort.stable DL).sort fs = fs :=
  List.mergeSort_of_pairwise (h.imp fun hab => decide_eq_true hab)

namespace Struct

/-- `finalizeFields`: sort, then number the fields and give them the struct type created
    from them. `type` is that type (the context chooses it). -/
def finalizeFields {DL : DataLayout} (S : Struct) (std : StdSort DL) (type : Ty) : Struct :=
  { S with
    type := some type
    fields := (std.sort S.fields).mapIdx fun i f =>
      { f with parentType := some type, offset := i } }

/-- Fields already in order keep it. -/
theorem finalizeFields_stable {DL : DataLayout} {S : Struct} (type : Ty)
    (h : S.fields.Pairwise fun a b => getFieldSize DL a ≤ getFieldSize DL b) :
    S.finalizeFields (.stable DL) type =
      { S with
        type := some type
        fields := S.fields.mapIdx fun i f => { f with parentType := some type, offset := i } } := by
  unfold finalizeFields
  rw [StdSort.stable_of_pairwise h]

/-- The elements of the struct type. -/
def elements (S : Struct) : List Ty := S.fields.map (·.type)

/-- Follow a `Field *`. -/
def deref (S : Struct) (p : Option Nat) : Option Field :=
  p.bind fun i => S.fields.find? fun f => f.id == i

end Struct

/-! ## The invariant of a finalized struct -/

/-- A scalar type or a pointer to a struct: what `parseType` returns for a field that is
    not repeated. -/
def Ty.IsElement : Ty → Prop
  | .ptr (.struct _ _) => True
  | t => t.IsScalar

theorem DataLayout.allocSize_element_pos (DL : DataLayout) {t : Ty} (ht : t.IsElement) :
    0 < DL.allocSize t := by
  apply Nat.lt_of_lt_of_le _ (DL.storeSize_le_allocSize t)
  cases t with
  | ptr t =>
    rw [DL.storeSize_ptr]
    exact DL.pointerSize_pos
  | int n => exact DL.storeSize_pos ht
  | float => exact DL.storeSize_pos ht
  | double => exact DL.storeSize_pos ht
  | struct i n => exact DL.storeSize_pos ht

/-- The kinds of field of a struct. -/
inductive Struct.Kind (S : Struct) (f : Field) : Prop where
  | plain (hs : f.isStruct = f.type.isPointerTy) (hr : f.isRepeated = false)
      (hc : f.isCount = false) (ht : f.type.IsElement)
  | count (r : Field) (hs : f.isStruct = false) (hr : f.isRepeated = false)
      (hc : f.isCount = true) (ht : f.type = .int 64) (hm : r ∈ S.fields)
      (hrr : r.isRepeated = true) (hto : f.countsFor = some r.id)
      (hfrom : r.countField = some f.id)
  | array (t : Ty) (c : Field) (hs : f.isStruct = false) (hr : f.isRepeated = true)
      (hc : f.isCount = false) (ht : f.type = .ptr t) (he : t.IsElement) (hm : c ∈ S.fields)
      (hcc : c.isCount = true) (hto : f.countField = some c.id)
      (hfrom : c.countsFor = some f.id) (hmut : c.isMutable = f.isMutable)

structure Struct.WellFormed (S : Struct) : Prop where
  offset_eq : ∀ (i : Nat) (hi : i < S.fields.length), S.fields[i].offset = i
  ids_nodup : (S.fields.map (·.id)).Nodup
  parentType_eq : ∀ f ∈ S.fields, f.parentType = S.type
  isSome_type : S.type.isSome
  kind : ∀ f ∈ S.fields, S.Kind f

/-- Only scalars and arrays of scalars. -/
structure Struct.IsFlat (S : Struct) : Prop extends S.WellFormed where
  scalar : ∀ f ∈ S.fields, f.isRepeated = false → f.type.IsScalar
  element : ∀ f ∈ S.fields, ∀ t, f.isRepeated = true → f.type = .ptr t → t.IsScalar

/-- An id stands for one field. -/
theorem Struct.deref_of_nodup {S : Struct} {f : Field} (hnd : (S.fields.map (·.id)).Nodup)
    (hf : f ∈ S.fields) : S.deref (some f.id) = some f := by
  have key : ∀ fs : List Field, (fs.map (·.id)).Nodup → f ∈ fs →
      fs.find? (fun g => g.id == f.id) = some f := by
    intro fs hnd hm
    induction fs with
    | nil => cases hm
    | cons g gs ih =>
      simp only [List.map_cons, List.nodup_cons] at hnd
      rcases List.mem_cons.mp hm with rfl | hm
      · simp
      · have hne : g.id ≠ f.id := fun he => hnd.1 (he ▸ List.mem_map_of_mem hm)
        rw [List.find?_cons_of_neg (by simpa using hne)]
        exact ih hnd.2 hm
  exact key S.fields hnd hf

namespace Struct.WellFormed

variable {S : Struct} {f g : Field}

theorem fields_nodup (w : S.WellFormed) : S.fields.Nodup := List.Nodup.of_map _ w.ids_nodup

theorem deref_id (w : S.WellFormed) (hf : f ∈ S.fields) : S.deref (some f.id) = some f :=
  Struct.deref_of_nodup w.ids_nodup hf

theorem eq_of_id (w : S.WellFormed) (hf : f ∈ S.fields) (hg : g ∈ S.fields)
    (h : f.id = g.id) : f = g := by
  have h1 := w.deref_id hf
  rw [h, w.deref_id hg] at h1
  exact (Option.some.inj h1).symm

theorem getElem_offset (w : S.WellFormed) (hf : f ∈ S.fields) :
    ∃ h : f.offset < S.fields.length, S.fields[f.offset] = f := by
  obtain ⟨i, hi, rfl⟩ := List.getElem_of_mem hf
  have ho := w.offset_eq i hi
  exact ⟨by omega, by simp only [ho]⟩

theorem getElem_elements (w : S.WellFormed) (hf : f ∈ S.fields) :
    ∃ h : f.offset < S.elements.length, S.elements[f.offset] = f.type := by
  obtain ⟨h, he⟩ := w.getElem_offset hf
  exact ⟨by simpa [Struct.elements] using h, by simp only [Struct.elements, List.getElem_map, he]⟩

theorem eq_of_offset (w : S.WellFormed) (hf : f ∈ S.fields) (hg : g ∈ S.fields)
    (h : f.offset = g.offset) : f = g := by
  obtain ⟨h1, e1⟩ := w.getElem_offset hf
  obtain ⟨h2, e2⟩ := w.getElem_offset hg
  rw [← e1, ← e2]
  simp only [h]

end Struct.WellFormed

/-! ## Building a struct -/

namespace Struct

/-- The structs that `addField` and `addRepeatedField` build, called as the parser calls
    them. -/
inductive Built : Struct → Prop where
  | new (name : String) : Built (Struct.new name)
  | setIsPacked {S : Struct} (hS : Built S) (isPacked : Bool) : Built (S.setIsPacked isPacked)
  | addField {S : Struct} (hS : Built S) (name : String) {type : Ty} (ht : type.IsElement)
      (isMutable : Bool) : Built (S.addField name type isMutable)
  | addRepeatedField {S : Struct} (hS : Built S) (name : String) {t : Ty} (ht : t.IsElement)
      (isMutable : Bool) : Built (S.addRepeatedField name (.ptr t) isMutable)

variable {S : Struct} {f : Field}

/-- A field keeps its kind when others are added. -/
theorem Kind.mono {S' : Struct} (h : ∀ g ∈ S.fields, g ∈ S'.fields) (hk : S.Kind f) :
    S'.Kind f := by
  cases hk with
  | plain hs hr hc ht => exact .plain hs hr hc ht
  | count r hs hr hc ht hm hrr hto hfrom => exact .count r hs hr hc ht (h r hm) hrr hto hfrom
  | array t c hs hr hc ht he hm hcc hto hfrom hmut =>
    exact .array t c hs hr hc ht he (h c hm) hcc hto hfrom hmut

theorem isStruct_of_isElement {t : Ty} (ht : t.IsElement) :
    t.getPointerElementType.any Ty.isStructTy = t.isPointerTy := by
  cases t with
  | ptr t =>
    cases t with
    | struct i n => rfl
    | int n => exact ht.elim
    | float => exact ht.elim
    | double => exact ht.elim
    | ptr t => exact ht.elim
  | int n => rfl
  | float => rfl
  | double => rfl
  | struct i n => rfl

theorem ids_addField (hids : (S.fields.map (·.id)).Perm (List.range S.fields.length))
    (name : String) (type : Ty) (isMutable : Bool) :
    ((S.addField name type isMutable).fields.map (·.id)).Perm
      (List.range (S.addField name type isMutable).fields.length) := by
  unfold Struct.addField
  simp only [List.map_append, List.length_append, List.map_cons, List.map_nil,
    List.length_singleton, List.range_succ]
  exact hids.append_right _

theorem ids_addRepeatedField (hids : (S.fields.map (·.id)).Perm (List.range S.fields.length))
    (name : String) (type : Ty) (isMutable : Bool) :
    ((S.addRepeatedField name type isMutable).fields.map (·.id)).Perm
      (List.range (S.addRepeatedField name type isMutable).fields.length) := by
  have hrange : List.range (S.fields.length + 2) =
      List.range S.fields.length ++ [S.fields.length, S.fields.length + 1] := by
    rw [List.range_succ, List.range_succ, List.append_assoc, List.singleton_append]
  unfold Struct.addRepeatedField
  simp only [List.map_append, List.length_append, List.map_cons, List.map_nil,
    List.length_cons, List.length_nil]
  rw [hrange]
  exact hids.append_right _

/-- The ids number the fields, and every field is of a kind. A struct has this at all times,
    finalized or not. -/
structure Linked (S : Struct) : Prop where
  ids : (S.fields.map (·.id)).Perm (List.range S.fields.length)
  kind : ∀ f ∈ S.fields, S.Kind f

theorem Linked.new (name : String) : (Struct.new name).Linked where
  ids := List.Perm.refl _
  kind _ hf := nomatch hf

theorem Linked.setIsPacked (hS : S.Linked) (isPacked : Bool) : (S.setIsPacked isPacked).Linked where
  ids := hS.ids
  kind f hf := by
    refine (hS.kind f hf).mono ?_
    intro g hg
    exact hg

theorem Linked.addField (hS : S.Linked) (name : String) {type : Ty} (ht : type.IsElement)
    (isMutable : Bool) : (S.addField name type isMutable).Linked where
  ids := ids_addField hS.ids name type isMutable
  kind f hf := by
    rcases List.mem_append.mp hf with hf | hf
    · exact (hS.kind f hf).mono fun _ hg => List.mem_append_left _ hg
    · obtain rfl := List.mem_singleton.mp hf
      exact .plain (isStruct_of_isElement ht) rfl rfl ht

theorem Linked.addRepeatedField (hS : S.Linked) (name : String) {t : Ty} (ht : t.IsElement)
    (isMutable : Bool) : (S.addRepeatedField name (.ptr t) isMutable).Linked where
  ids := ids_addRepeatedField hS.ids name (.ptr t) isMutable
  kind f hf := by
    rcases List.mem_append.mp hf with hf | hf
    · exact (hS.kind f hf).mono fun _ hg => List.mem_append_left _ hg
    · -- the two new fields point at each other
      have hmem : ∀ g ∈ (S.addRepeatedField name (.ptr t) isMutable).fields.drop S.fields.length,
          g ∈ (S.addRepeatedField name (.ptr t) isMutable).fields := fun g hg =>
        List.mem_of_mem_drop hg
      rw [Struct.addRepeatedField, List.drop_left] at hmem
      rcases List.mem_pair.mp hf with rfl | rfl
      · exact .count _ rfl rfl rfl rfl (hmem _ (List.mem_cons_of_mem _ List.mem_cons_self))
          rfl rfl rfl
      · exact .array t _ rfl rfl rfl rfl ht (hmem _ List.mem_cons_self) rfl rfl rfl rfl

theorem Built.linked (hS : Built S) : S.Linked := by
  induction hS with
  | new name => exact .new name
  | setIsPacked _ isPacked ih => exact ih.setIsPacked isPacked
  | addField _ name ht m ih => exact ih.addField name ht m
  | addRepeatedField _ name ht m ih => exact ih.addRepeatedField name ht m

theorem Built.kind (hS : Built S) : ∀ f ∈ S.fields, S.Kind f := hS.linked.kind

theorem mem_finalizeFields {DL : DataLayout} {std : StdSort DL} {type : Ty} :
    f ∈ (S.finalizeFields std type).fields ↔
      ∃ g ∈ S.fields, ∃ i, f = { g with parentType := some type, offset := i } ∧
        (std.sort S.fields)[i]? = some g := by
  simp only [finalizeFields, List.mem_mapIdx]
  constructor
  · rintro ⟨i, hi, rfl⟩
    exact ⟨_, (std.perm _).mem_iff.mp (List.getElem_mem hi), i, rfl, List.getElem?_eq_getElem hi⟩
  · rintro ⟨g, hg, i, rfl, hi⟩
    obtain ⟨hlt, rfl⟩ := List.getElem?_eq_some_iff.mp hi
    exact ⟨i, hlt, rfl⟩

/-- Every field is still there, with its parent and its position. -/
theorem exists_mem_finalizeFields {DL : DataLayout} (std : StdSort DL) (type : Ty)
    (hf : f ∈ S.fields) :
    ∃ i, { f with parentType := some type, offset := i } ∈ (S.finalizeFields std type).fields := by
  obtain ⟨i, hi, he⟩ := List.getElem_of_mem ((std.perm S.fields).mem_iff.mpr hf)
  exact ⟨i, mem_finalizeFields.mpr ⟨f, hf, i, rfl, by rw [List.getElem?_eq_getElem hi, he]⟩⟩

theorem map_finalizeFields {α : Type} {DL : DataLayout} (std : StdSort DL) (type : Ty)
    (g : Field → α) (hg : ∀ (f : Field) T i, g { f with parentType := T, offset := i } = g f) :
    (S.finalizeFields std type).fields.map g = (std.sort S.fields).map g := by
  apply List.ext_getElem
  · simp [finalizeFields]
  · intro i h1 h2
    simp [finalizeFields, hg]

theorem ids_finalizeFields {DL : DataLayout} (std : StdSort DL) (type : Ty)
    (hids : (S.fields.map (·.id)).Perm (List.range S.fields.length)) :
    ((S.finalizeFields std type).fields.map (·.id)).Perm
      (List.range (S.finalizeFields std type).fields.length) := by
  rw [map_finalizeFields std type (·.id) fun _ _ _ => rfl]
  refine ((std.perm S.fields).map _).trans ?_
  have hlen : (S.finalizeFields std type).fields.length = S.fields.length := by
    simp [Struct.finalizeFields, (std.perm S.fields).length_eq]
  rw [hlen]
  exact hids

theorem Linked.finalizeFields {DL : DataLayout} (hS : S.Linked) (std : StdSort DL) (type : Ty) :
    (S.finalizeFields std type).Linked where
  ids := ids_finalizeFields std type hS.ids
  kind f hf := by
    obtain ⟨g, hg, i, rfl, -⟩ := mem_finalizeFields.mp hf
    cases hS.kind g hg with
    | plain hs hr hc ht => exact .plain hs hr hc ht
    | count r hs hr hc ht hm hrr hto hfrom =>
      obtain ⟨j, hj⟩ := exists_mem_finalizeFields std type hm
      exact .count _ hs hr hc ht hj hrr hto hfrom
    | array t c hs hr hc ht he hm hcc hto hfrom hmut =>
      obtain ⟨j, hj⟩ := exists_mem_finalizeFields std type hm
      exact .array t _ hs hr hc ht he hj hcc hto hfrom hmut

/-- The fields know the struct's type and their positions in it. -/
structure IsComplete (S : Struct) : Prop where
  isSome_type : S.type.isSome
  offset_eq : ∀ (i : Nat) (hi : i < S.fields.length), S.fields[i].offset = i
  parentType_eq : ∀ f ∈ S.fields, f.parentType = S.type

theorem isComplete_finalizeFields {DL : DataLayout} (std : StdSort DL) (type : Ty) :
    (S.finalizeFields std type).IsComplete where
  isSome_type := rfl
  offset_eq i hi := by simp only [finalizeFields, List.getElem_mapIdx]
  parentType_eq f hf := by
    obtain ⟨g, -, i, rfl, -⟩ := mem_finalizeFields.mp hf
    rfl

theorem Linked.ids_nodup (hS : S.Linked) : (S.fields.map (·.id)).Nodup :=
  hS.ids.nodup_iff.mpr List.nodup_range

theorem Linked.wellFormed (hS : S.Linked) (hc : S.IsComplete) : S.WellFormed where
  offset_eq := hc.offset_eq
  ids_nodup := hS.ids_nodup
  parentType_eq := hc.parentType_eq
  isSome_type := hc.isSome_type
  kind := hS.kind

/-- Sorting and numbering the fields gives a well-formed struct, whatever the sort does with
    ties. -/
theorem finalizeFields_wellFormed {DL : DataLayout} (std : StdSort DL) (type : Ty)
    (hS : Built S) : (S.finalizeFields std type).WellFormed :=
  (hS.linked.finalizeFields std type).wellFormed (isComplete_finalizeFields std type)

/-- So does one of scalars and arrays of scalars. -/
theorem finalizeFields_isFlat {DL : DataLayout} (std : StdSort DL) (type : Ty) (hS : Built S)
    (hscalar : ∀ f ∈ S.fields, f.isRepeated = false → f.type.IsScalar)
    (helement : ∀ f ∈ S.fields, ∀ t, f.isRepeated = true → f.type = .ptr t → t.IsScalar) :
    (S.finalizeFields std type).IsFlat where
  toWellFormed := finalizeFields_wellFormed std type hS
  scalar f hf hr := by
    obtain ⟨g, hg, i, rfl, -⟩ := mem_finalizeFields.mp hf
    exact hscalar g hg hr
  element f hf t hr ht := by
    obtain ⟨g, hg, i, rfl, -⟩ := mem_finalizeFields.mp hf
    exact helement g hg t hr ht

end Struct

/-! ## An example -/

/-- The fields of `path` in `test/path.tyr`, as a packed struct, finalized. -/
def pathStruct : Struct where
  name := "path"
  packed := true
  type := some (.struct 0 "path")
  fields :=
    [{ id := 4, name := "idx", type := .int 32, isMutable := false, isStruct := false
       isRepeated := false, isCount := false, countField := none, countsFor := none
       parentType := some (.struct 0 "path"), offset := 0 },
     { id := 0, name := "x_count", type := .int 64, isMutable := true, isStruct := false
       isRepeated := false, isCount := true, countField := none, countsFor := some 1
       parentType := some (.struct 0 "path"), offset := 1 },
     { id := 1, name := "x", type := .ptr .float, isMutable := true, isStruct := false
       isRepeated := true, isCount := false, countField := some 0, countsFor := none
       parentType := some (.struct 0 "path"), offset := 2 },
     { id := 2, name := "y_count", type := .int 64, isMutable := true, isStruct := false
       isRepeated := false, isCount := true, countField := none, countsFor := some 3
       parentType := some (.struct 0 "path"), offset := 3 },
     { id := 3, name := "y", type := .ptr .float, isMutable := true, isStruct := false
       isRepeated := true, isCount := false, countField := some 2, countsFor := none
       parentType := some (.struct 0 "path"), offset := 4 }]

/-- Its arrays. -/
def pathX : Field := pathStruct.fields.getD 2 default

def pathY : Field := pathStruct.fields.getD 4 default

theorem pathStruct_isFlat : pathStruct.IsFlat where
  offset_eq := by decide
  ids_nodup := by decide
  parentType_eq := by decide
  isSome_type := rfl
  kind f hf := by
    simp only [pathStruct, List.mem_cons, List.not_mem_nil, or_false] at hf
    rcases hf with rfl | rfl | rfl | rfl | rfl
    · exact .plain rfl rfl rfl (by decide : (0 : Nat) < 32)
    · exact .count (pathStruct.fields.getD 2 default) rfl rfl rfl rfl (by decide) rfl rfl rfl
    · exact .array .float (pathStruct.fields.getD 1 default) rfl rfl rfl rfl trivial (by decide)
        rfl rfl rfl rfl
    · exact .count (pathStruct.fields.getD 4 default) rfl rfl rfl rfl (by decide) rfl rfl rfl
    · exact .array .float (pathStruct.fields.getD 3 default) rfl rfl rfl rfl trivial (by decide)
        rfl rfl rfl rfl
  scalar := by decide
  element f hf t hr ht := by
    simp only [pathStruct, List.mem_cons, List.not_mem_nil, or_false] at hf
    rcases hf with rfl | rfl | rfl | rfl | rfl
    case inr.inr.inl | inr.inr.inr.inr =>
      obtain rfl : Ty.float = t := Ty.ptr.inj ht
      trivial
    all_goals cases hr

end Tyr
