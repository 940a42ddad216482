import Tyr.IR.Struct

/-
  The layout of a struct after any calls of `addField` and `addRepeatedField`.

  `Struct.Paired`: an array and its count point at each other, and no other field points
  anywhere. Each call keeps this (`Paired.run`), since the fields behind the pointers do not move,
  and so does the sort of `finalizeFields`, which permutes the owners of the fields only.
  `layout_invariant` says what the accessors index the struct by: for every list of calls, data
  layout and result of a sort by size, the entries are the added fields, numbered in the order of
  the elements of the struct type, and both pointers lead to the right element.
-/

namespace Tyr

/-! ## Calls -/

/-- What a field is added with. -/
structure Added where
  name : String
  type : Ty
  isMutable : Bool
  isStruct : Bool
  isRepeated : Bool
  isCount : Bool

def Field.added (f : Field) : Added :=
  ⟨f.name, f.type, f.isMutable, f.isStruct, f.isRepeated, f.isCount⟩

namespace Struct

/-- The calls between the constructor and `finalizeFields`. -/
inductive Call where
  | setIsPacked (isPacked : Bool)
  | addField (name : String) (type : Ty) (isMutable : Bool)
  | addRepeatedField (name : String) (type : Ty) (isMutable : Bool)

def Call.run (S : Struct) : Call → Struct
  | .setIsPacked isPacked => S.setIsPacked isPacked
  | .addField name type isMutable => S.addField name type isMutable
  | .addRepeatedField name type isMutable => S.addRepeatedField name type isMutable

/-- The calls, on a fresh struct. -/
def build (name : String) (calls : List Call) : Struct := calls.foldl Call.run (Struct.new name)

/-- The fields that a call adds: an array comes with its count. -/
def Call.adds : Call → List Added
  | .setIsPacked _ => []
  | .addField name type isMutable =>
    [⟨name, type, isMutable, type.getPointerElementType.any Ty.isStructTy, false, false⟩]
  | .addRepeatedField name type isMutable =>
    [⟨name ++ "_count", .int 64, isMutable, false, false, true⟩,
      ⟨name, type, isMutable, false, true, false⟩]

theorem added_run (S : Struct) (call : Call) :
    (call.run S).fields.map Field.added = S.fields.map Field.added ++ call.adds := by
  cases call with
  | setIsPacked isPacked => exact (List.append_nil _).symm
  | addField name type isMutable => exact List.map_append
  | addRepeatedField name type isMutable => exact List.map_append

theorem added_foldl (calls : List Call) : ∀ S : Struct,
    (calls.foldl Call.run S).fields.map Field.added =
      S.fields.map Field.added ++ calls.flatMap Call.adds := by
  induction calls with
  | nil =>
    intro S
    exact (List.append_nil _).symm
  | cons call calls ih =>
    intro S
    rw [List.foldl_cons, ih, added_run, List.flatMap_cons, List.append_assoc]

/-- A repeated field is one that `addRepeatedField` was called for, with its type. -/
theorem exists_addRepeatedField {calls : List Call} {f : Field}
    (hf : f.added ∈ calls.flatMap Call.adds) (hr : f.isRepeated = true) :
    Call.addRepeatedField f.name f.type f.isMutable ∈ calls := by
  obtain ⟨call, hcall, hadded⟩ := List.mem_flatMap.mp hf
  cases call with
  | setIsPacked isPacked => cases hadded
  | addField name type isMutable =>
    have heq := congrArg Added.isRepeated (List.mem_singleton.mp hadded)
    rw [Field.added, hr] at heq
    cases heq
  | addRepeatedField name type isMutable =>
    rcases List.mem_pair.mp hadded with heq | heq
    · have hrepeated := congrArg Added.isRepeated heq
      rw [Field.added, hr] at hrepeated
      cases hrepeated
    · obtain ⟨rfl, rfl, rfl, -⟩ := Added.mk.inj heq
      exact hcall

/-! ## Pointers between fields -/

/-- `c` is the count of `r`, and each points at the other. -/
structure Counts (c r : Field) : Prop where
  type : c.type = .int 64
  isCount : c.isCount = true
  isRepeated : r.isRepeated = true
  countField : r.countField = some c.id
  countsFor : c.countsFor = some r.id

/-- The fields of `S` that `f` points at. -/
inductive Tie (S : Struct) (f : Field) : Prop where
  | plain (hr : f.isRepeated = false) (hc : f.isCount = false) (hto : f.countField = none)
      (hfor : f.countsFor = none)
  | count (r : Field) (hm : r ∈ S.fields) (h : Counts f r) (hr : f.isRepeated = false)
      (hto : f.countField = none)
  | array (c : Field) (hm : c ∈ S.fields) (h : Counts c f) (hc : f.isCount = false)
      (hfor : f.countsFor = none)

/-- The invariant of a struct under construction. -/
structure Paired (S : Struct) : Prop where
  ids : (S.fields.map (·.id)).Perm (List.range S.fields.length)
  tie : ∀ f ∈ S.fields, S.Tie f

variable {S S' : Struct} {f c r : Field}

theorem Tie.mono (h : ∀ g ∈ S.fields, g ∈ S'.fields) (ht : S.Tie f) : S'.Tie f := by
  cases ht with
  | plain hr hc hto hfor => exact .plain hr hc hto hfor
  | count r hm hcounts hr hto => exact .count r (h r hm) hcounts hr hto
  | array c hm hcounts hc hfor => exact .array c (h c hm) hcounts hc hfor

theorem Paired.new (name : String) : (Struct.new name).Paired where
  ids := List.Perm.refl _
  tie _ hf := nomatch hf

theorem Paired.addField (hS : S.Paired) (name : String) (type : Ty) (isMutable : Bool) :
    (S.addField name type isMutable).Paired where
  ids := ids_addField hS.ids name type isMutable
  tie f hf := by
    rcases List.mem_append.mp hf with hf | hf
    · exact (hS.tie f hf).mono fun _ hg => List.mem_append_left _ hg
    · obtain rfl := List.mem_singleton.mp hf
      exact .plain rfl rfl rfl rfl

theorem Paired.addRepeatedField (hS : S.Paired) (name : String) (type : Ty) (isMutable : Bool) :
    (S.addRepeatedField name type isMutable).Paired where
  ids := ids_addRepeatedField hS.ids name type isMutable
  tie f hf := by
    rcases List.mem_append.mp hf with hf | hf
    · exact (hS.tie f hf).mono fun _ hg => List.mem_append_left _ hg
    · rcases List.mem_pair.mp hf with rfl | rfl
      · refine .count _ (List.mem_append_right _ (List.mem_cons_of_mem _ List.mem_cons_self)) ?_
          rfl rfl
        exact ⟨rfl, rfl, rfl, rfl, rfl⟩
      · refine .array _ (List.mem_append_right _ List.mem_cons_self) ?_ rfl rfl
        exact ⟨rfl, rfl, rfl, rfl, rfl⟩

theorem Paired.run (hS : S.Paired) (call : Call) : (call.run S).Paired := by
  cases call with
  | setIsPacked isPacked =>
    refine ⟨hS.ids, fun f hf => (hS.tie f hf).mono ?_⟩
    intro g hg
    exact hg
  | addField name type isMutable => exact hS.addField name type isMutable
  | addRepeatedField name type isMutable => exact hS.addRepeatedField name type isMutable

/-- By induction on the calls, for any struct they start from. -/
theorem Paired.foldl (calls : List Call) : ∀ {S : Struct}, S.Paired →
    (calls.foldl Call.run S).Paired := by
  induction calls with
  | nil =>
    intro S hS
    exact hS
  | cons call calls ih =>
    intro S hS
    exact ih (hS.run call)

theorem paired_build (name : String) (calls : List Call) : (build name calls).Paired :=
  Paired.foldl calls (.new name)

/-! ## Sorting -/

variable {DL : DataLayout}

/-- The pointers are to fields, wherever the sort has put them. -/
theorem Paired.finalizeFields (hS : S.Paired) (std : StdSort DL) (type : Ty) :
    (S.finalizeFields std type).Paired where
  ids := ids_finalizeFields std type hS.ids
  tie f hf := by
    obtain ⟨g, hg, i, rfl, -⟩ := mem_finalizeFields.mp hf
    cases hS.tie g hg with
    | plain hr hc hto hfor => exact .plain hr hc hto hfor
    | count r hm h hr hto =>
      obtain ⟨j, hj⟩ := exists_mem_finalizeFields std type hm
      exact .count _ hj ⟨h.type, h.isCount, h.isRepeated, h.countField, h.countsFor⟩ hr hto
    | array c hm h hc hfor =>
      obtain ⟨j, hj⟩ := exists_mem_finalizeFields std type hm
      exact .array _ hj ⟨h.type, h.isCount, h.isRepeated, h.countField, h.countsFor⟩ hc hfor

/-- `element_types`: what `finalizeFields` creates the struct type from. -/
def elementTypes (S : Struct) (std : StdSort DL) : List Ty := (std.sort S.fields).map (·.type)

theorem elementTypes_eq (S : Struct) (std : StdSort DL) (type : Ty) :
    S.elementTypes std = (S.finalizeFields std type).elements :=
  (map_finalizeFields std type (·.type) fun _ _ _ => rfl).symm

theorem sorted_finalizeFields (S : Struct) (std : StdSort DL) (type : Ty) :
    (S.finalizeFields std type).fields.Pairwise
      fun f g => getFieldSize DL f ≤ getFieldSize DL g := by
  have hsizes := map_finalizeFields (S := S) std type (getFieldSize DL) fun _ _ _ => rfl
  have hsorted := List.pairwise_map.mpr (std.sorted S.fields)
  rw [← hsizes] at hsorted
  exact List.pairwise_map.mp hsorted

/-! ## Main result -/

/-- A finalized struct, by what it was built from and the elements of its type. -/
structure LaidOut (DL : DataLayout) (calls : List Call) (type : Ty) (elementTypes : List Ty)
    (S : Struct) : Prop where
  added : (S.fields.map Field.added).Perm (calls.flatMap Call.adds)
  sorted : S.fields.Pairwise fun f g => getFieldSize DL f ≤ getFieldSize DL g
  type_eq : S.type = some type
  entry : ∀ (i : Nat) (hi : i < S.fields.length), S.fields[i].offset = i ∧
    S.fields[i].parentType = some type ∧ elementTypes[i]? = some S.fields[i].type
  countField : ∀ r ∈ S.fields, r.isRepeated = true → ∃ c ∈ S.fields, c.isCount = true ∧
    S.deref r.countField = some c ∧ S.deref c.countsFor = some r ∧
    elementTypes[c.offset]? = some (.int 64)
  countsFor : ∀ c ∈ S.fields, c.isCount = true → ∃ r ∈ S.fields, r.isRepeated = true ∧
    S.deref c.countsFor = some r ∧ S.deref r.countField = some c ∧
    elementTypes[r.offset]? = some r.type ∧
    Call.addRepeatedField r.name r.type r.isMutable ∈ calls
  unlinked : ∀ f ∈ S.fields, (f.isRepeated = false → f.countField = none) ∧
    (f.isCount = false → f.countsFor = none)
  pointers : (∀ name t isMutable, Call.addRepeatedField name t isMutable ∈ calls →
      t.isPointerTy = true) →
    ∀ r ∈ S.fields, r.isRepeated = true → ∃ t, elementTypes[r.offset]? = some (.ptr t)

section Finalized

variable (hS : S.Paired)
include hS

theorem Paired.deref_id (hf : f ∈ S.fields) : S.deref (some f.id) = some f :=
  deref_of_nodup (hS.ids.nodup_iff.mpr List.nodup_range) hf

theorem Paired.count_of_array (hr : r ∈ S.fields) (hrep : r.isRepeated = true) :
    ∃ c ∈ S.fields, Counts c r := by
  cases hS.tie r hr with
  | plain hr' => exact absurd hrep (by rw [hr']; decide)
  | count r' hm h hr' => exact absurd hrep (by rw [hr']; decide)
  | array c hm h => exact ⟨c, hm, h⟩

theorem Paired.array_of_count (hc : c ∈ S.fields) (hcount : c.isCount = true) :
    ∃ r ∈ S.fields, Counts c r := by
  cases hS.tie c hc with
  | plain hr' hc' => exact absurd hcount (by rw [hc']; decide)
  | count r hm h => exact ⟨r, hm, h⟩
  | array c' hm h hc' => exact absurd hcount (by rw [hc']; decide)

/-- Both ways, and back. -/
theorem Paired.deref_counts (h : Counts c r) (hc : c ∈ S.fields) (hr : r ∈ S.fields) :
    S.deref r.countField = some c ∧ S.deref c.countsFor = some r := by
  rw [h.countField, h.countsFor]
  exact ⟨hS.deref_id hc, hS.deref_id hr⟩

theorem Paired.unlinked (hf : f ∈ S.fields) :
    (f.isRepeated = false → f.countField = none) ∧ (f.isCount = false → f.countsFor = none) := by
  cases hS.tie f hf with
  | plain hr hc hto hfor => exact ⟨fun _ => hto, fun _ => hfor⟩
  | count r hm h hr hto => exact ⟨fun _ => hto, fun hc => absurd h.isCount (by rw [hc]; decide)⟩
  | array c hm h hc hfor =>
    exact ⟨fun hr => absurd h.isRepeated (by rw [hr]; decide), fun _ => hfor⟩

end Finalized

/-- An entry's offset is its place among the elements. -/
theorem IsComplete.getElem?_elements (hS : S.IsComplete) (hf : f ∈ S.fields) :
    S.elements[f.offset]? = some f.type := by
  obtain ⟨i, hi, rfl⟩ := List.getElem_of_mem hf
  rw [hS.offset_eq i hi, elements, List.getElem?_map, List.getElem?_eq_getElem hi]
  rfl

theorem layout_invariant (name : String) (calls : List Call) (DL : DataLayout) (std : StdSort DL)
    (type : Ty) :
    LaidOut DL calls type ((build name calls).elementTypes std)
      ((build name calls).finalizeFields std type) := by
  have hpaired := (paired_build name calls).finalizeFields std type
  have hcomplete := isComplete_finalizeFields (S := build name calls) std type
  have hadded : (((build name calls).finalizeFields std type).fields.map Field.added).Perm
      (calls.flatMap Call.adds) := by
    rw [map_finalizeFields std type Field.added fun _ _ _ => rfl]
    refine ((std.perm _).map _).trans ?_
    exact List.Perm.of_eq (added_foldl calls (Struct.new name))
  have hcall : ∀ r ∈ ((build name calls).finalizeFields std type).fields, r.isRepeated = true →
      Call.addRepeatedField r.name r.type r.isMutable ∈ calls := fun r hr hrep =>
    exists_addRepeatedField (hadded.mem_iff.mp (List.mem_map_of_mem hr)) hrep
  rw [elementTypes_eq (build name calls) std type]
  refine ⟨hadded, sorted_finalizeFields _ std type, rfl, ?_, ?_, ?_, ?_, ?_⟩
  · intro i hi
    have hentry := hcomplete.getElem?_elements (List.getElem_mem hi)
    rw [hcomplete.offset_eq i hi] at hentry
    exact ⟨hcomplete.offset_eq i hi, hcomplete.parentType_eq _ (List.getElem_mem hi), hentry⟩
  · intro r hr hrep
    obtain ⟨c, hc, h⟩ := hpaired.count_of_array hr hrep
    obtain ⟨hto, hfrom⟩ := hpaired.deref_counts h hc hr
    refine ⟨c, hc, h.isCount, hto, hfrom, ?_⟩
    rw [hcomplete.getElem?_elements hc, h.type]
  · intro c hc hcount
    obtain ⟨r, hr, h⟩ := hpaired.array_of_count hc hcount
    obtain ⟨hto, hfrom⟩ := hpaired.deref_counts h hc hr
    exact ⟨r, hr, h.isRepeated, hfrom, hto, hcomplete.getElem?_elements hr, hcall r hr h.isRepeated⟩
  · intro f hf
    exact hpaired.unlinked hf
  · intro hpointers r hr hrep
    obtain ⟨t, ht⟩ := Ty.exists_pointee (hpointers _ _ _ (hcall r hr hrep))
    rw [hcomplete.getElem?_elements hr, ht]
    exact ⟨t, rfl⟩

end Struct

end Tyr
