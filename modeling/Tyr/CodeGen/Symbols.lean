import Tyr.CodeGen.Functions
import Tyr.Lib.Text
import Tyr.Parser.Complete

/-
  When the symbols of a module are unambiguous.

  A symbol is an operation followed by what it is about: a struct, a field as
  `<struct>_<field>`, or the items of a field as `<struct>_<field>_item`. The operations are
  told apart (`Func.name_eq_iff`); two fields are not when one name can be read as both
  (`Overlap`). `symbols_unambiguous_iff`: an accepted module's symbols are pairwise distinct,
  in every order of its structs, exactly when no two of its fields clash.
-/

namespace Tyr

/-! ## The parts of a symbol -/

namespace Func

/-- How the symbols of an operation begin. -/
def operation : Func → String
  | getter _ => "get_"
  | itemGetter _ => "get_"
  | setter _ => "set_"
  | itemSetter _ => "set_"
  | fieldSerializer _ => "__serialize_"
  | fieldDeserializer _ => "__deserialize_"
  | constructor _ => "create_"
  | serializer _ => "serialize_"
  | deserializer _ => "deserialize_"
  | destructor _ => "destroy_"

def operations : List String :=
  ["get_", "set_", "__serialize_", "__deserialize_", "create_", "serialize_", "deserialize_",
    "destroy_"]

end Func

/-- `<struct>_<field>` -/
def Field.subject (f : Field) : String := f.parentName ++ "_" ++ f.name

def Field.itemSubject (f : Field) : String := f.parentName ++ "_" ++ (f.name ++ "_item")

namespace Func

/-- What the operation is on. -/
def subject : Func → String
  | getter f => f.subject
  | itemGetter f => f.itemSubject
  | setter f => f.subject
  | itemSetter f => f.itemSubject
  | fieldSerializer f => f.subject
  | fieldDeserializer f => f.subject
  | constructor S => S.name
  | serializer S => S.name
  | deserializer S => S.name
  | destructor S => S.name

theorem getSerializerName_eq (f : Field) :
    getSerializerName f = "__serialize_" ++ (f.parentName ++ "_" ++ f.name) := by
  delta getSerializerName
  rw [String.append_assoc, String.append_assoc, String.append_assoc]

theorem getDeserializerName_eq (f : Field) :
    getDeserializerName f = "__deserialize_" ++ (f.parentName ++ "_" ++ f.name) := by
  delta getDeserializerName
  rw [String.append_assoc, String.append_assoc, String.append_assoc]

theorem name_eq (g : Func) : g.name = g.operation ++ g.subject := by
  cases g <;>
    simp only [name, operation, subject, Field.subject, Field.itemSubject, getSerializerName_eq,
      getDeserializerName_eq, String.append_assoc]

theorem operation_mem (g : Func) : g.operation ∈ operations := by
  cases g <;> simp [operation, operations]

/-- No operation is the beginning of another one. -/
theorem operations_prefix_free :
    ∀ a ∈ operations, ∀ b ∈ operations, a.toList <+: b.toList → a = b := by decide

theorem name_eq_iff {g h : Func} :
    g.name = h.name ↔ g.operation = h.operation ∧ g.subject = h.subject := by
  rw [name_eq, name_eq]
  constructor
  · intro heq
    have htext : g.operation.toList ++ g.subject.toList =
        h.operation.toList ++ h.subject.toList := by
      rw [← String.toList_append, ← String.toList_append, heq]
    have hop : g.operation = h.operation := by
      have hg : g.operation.toList <+: h.operation.toList ++ h.subject.toList :=
        htext ▸ List.prefix_append _ _
      have hh : h.operation.toList <+: h.operation.toList ++ h.subject.toList :=
        List.prefix_append _ _
      rcases List.prefix_or_prefix_of_prefix hg hh with hp | hp
      · exact operations_prefix_free _ g.operation_mem _ h.operation_mem hp
      · exact (operations_prefix_free _ h.operation_mem _ g.operation_mem hp).symm
    rw [hop] at htext
    exact ⟨hop, String.toList_inj.mp (List.append_cancel_left htext)⟩
  · rintro ⟨hop, hsubject⟩
    rw [hop, hsubject]

end Func

/-! ## Names that read as both -/

/-- `P_x` and `Q_y` are one text: the same parts, or one splits inside a part of the other. -/
def Overlap (P x Q y : String) : Prop :=
  P = Q ∧ x = y ∨ (∃ m, Q = P ++ "_" ++ m ∧ x = m ++ "_" ++ y) ∨
    ∃ m, P = Q ++ "_" ++ m ∧ y = m ++ "_" ++ x

theorem overlap_iff {P x Q y : String} : P ++ "_" ++ x = Q ++ "_" ++ y ↔ Overlap P x Q y := by
  have hsep : ∀ a b : String, (a ++ "_" ++ b).toList = a.toList ++ '_' :: b.toList := by
    intro a b
    rw [String.toList_append, String.toList_append, List.append_assoc]
    rfl
  have hparts : ∀ (a b : String) (l : List Char), a.toList = b.toList ++ '_' :: l ↔
      a = b ++ "_" ++ String.ofList l := by
    intro a b l
    rw [← String.toList_inj, hsep, String.toList_ofList]
  rw [← String.toList_inj, hsep, hsep, append_sep_eq_iff, String.toList_inj, String.toList_inj]
  unfold Overlap
  refine or_congr Iff.rfl (or_congr ?_ ?_)
  · constructor
    · rintro ⟨m, hm, hx⟩
      refine ⟨String.ofList m, (hparts Q P m).mp hm, ?_⟩
      rw [← String.toList_inj, hsep, String.toList_ofList, hx]
    · rintro ⟨m, rfl, rfl⟩
      exact ⟨m.toList, hsep P m, hsep m y⟩
  · constructor
    · rintro ⟨m, hm, hy⟩
      refine ⟨String.ofList m, (hparts P Q m).mp hm, ?_⟩
      rw [← String.toList_inj, hsep, String.toList_ofList, hy]
    · rintro ⟨m, rfl, rfl⟩
      exact ⟨m.toList, hsep Q m, hsep m x⟩

/-- Some function of `f` and some function of `g` get one symbol. -/
def Field.Clashes (f g : Field) : Prop :=
  Overlap f.parentName f.name g.parentName g.name ∨
  f.isRepeated = true ∧ Overlap f.parentName (f.name ++ "_item") g.parentName g.name ∨
  g.isRepeated = true ∧ Overlap g.parentName (g.name ++ "_item") f.parentName f.name

/-! ## The symbols of a module -/

/-- What the pass creates for a struct. Where there is no type there are no names. -/
def createdFunctions (S : Struct) : List Func :=
  (S.fields.filter (·.parentType.isSome)).flatMap fieldFunctions ++
    if S.type.isSome then structFunctions S else []

/-- The functions of a module whose structs are visited in this order. -/
def created (order : List Struct) : List Func := order.flatMap createdFunctions

/-- No function has the symbol of an earlier one: `getOrInsertFunction` always inserts. -/
def AlwaysInserts (fs : List Func) : Prop :=
  ∀ pre g rest, fs = pre ++ g :: rest → lookupFunction pre g.name = none

def createdFields (M : Module) : List Field :=
  M.structs.flatMap fun S => S.fields.filter (·.parentType.isSome)

/-- No two fields clash. -/
def Unambiguous (M : Module) : Prop :=
  (createdFields M).Pairwise fun f g => ¬ f.Clashes g

theorem alwaysInserts_iff {fs : List Func} : AlwaysInserts fs ↔ (fs.map Func.name).Nodup := by
  have hnone : ∀ (pre : List Func) (g : Func),
      lookupFunction pre g.name = none ↔ g.name ∉ pre.map Func.name := by
    intro pre g
    unfold lookupFunction
    rw [List.find?_eq_none, List.mem_map, not_exists]
    simp
  constructor
  · intro h
    induction fs using List.reverseRecOn with
    | nil => exact List.nodup_nil
    | append_singleton fs g ih =>
      have hlast := (hnone fs g).mp (h fs g [] rfl)
      have hfs : AlwaysInserts fs := by
        rintro pre k rest rfl
        exact h pre k (rest ++ [g]) (by simp)
      rw [List.map_append, List.map_singleton, List.nodup_append]
      refine ⟨ih hfs, List.nodup_singleton _, ?_⟩
      intro a ha b hb hab
      rw [List.mem_singleton.mp hb] at hab
      exact hlast (hab ▸ ha)
  · rintro h pre g rest rfl
    rw [hnone]
    rw [List.map_append, List.map_cons] at h
    intro hg
    exact (List.nodup_append.mp h).2.2 _ hg _ List.mem_cons_self rfl

section Fields

variable {f g : Field} {k : Func}

theorem mem_fieldFunctions : k ∈ fieldFunctions f ↔ k = .getter f ∨
    f.isRepeated = true ∧ k = .itemGetter f ∨ f.isMutable = true ∧ k = .setter f ∨
    f.isRepeated = true ∧ k = .itemSetter f ∨ f.isCount = false ∧ k = .fieldSerializer f ∨
    f.isCount = false ∧ k = .fieldDeserializer f := by
  unfold fieldFunctions
  cases f.isRepeated <;> cases f.isMutable <;> cases f.isCount <;> simp

theorem subject_of_mem (hk : k ∈ fieldFunctions f) :
    k.subject = f.subject ∨ f.isRepeated = true ∧ k.subject = f.itemSubject := by
  rcases mem_fieldFunctions.mp hk with rfl | ⟨hr, rfl⟩ | ⟨-, rfl⟩ | ⟨hr, rfl⟩ | ⟨-, rfl⟩ | ⟨-, rfl⟩
  · exact Or.inl rfl
  · exact Or.inr ⟨hr, rfl⟩
  · exact Or.inl rfl
  · exact Or.inr ⟨hr, rfl⟩
  · exact Or.inl rfl
  · exact Or.inl rfl

theorem getter_mem (f : Field) : .getter f ∈ fieldFunctions f :=
  mem_fieldFunctions.mpr (Or.inl rfl)

theorem itemGetter_mem (hf : f.isRepeated = true) : .itemGetter f ∈ fieldFunctions f :=
  mem_fieldFunctions.mpr (Or.inr (Or.inl ⟨hf, rfl⟩))

theorem itemSubject_eq (f : Field) : f.itemSubject = f.subject ++ "_item" := by
  unfold Field.itemSubject Field.subject
  rw [String.append_assoc, String.append_assoc, String.append_assoc]

theorem subject_ne_itemSubject (f : Field) : f.subject ≠ f.itemSubject := by
  intro h
  have hlength := congrArg String.length h
  rw [itemSubject_eq, String.length_append] at hlength
  have hitem : "_item".length = 5 := rfl
  omega

/-- The functions of one field are told apart. -/
theorem fieldFunctions_nodup (f : Field) : ((fieldFunctions f).map Func.name).Nodup := by
  have hne := subject_ne_itemSubject f
  unfold fieldFunctions
  cases f.isRepeated <;> cases f.isMutable <;> cases f.isCount <;>
    simp [Func.name_eq_iff, Func.operation, Func.subject, hne]

/-- Fields share a symbol exactly when they clash. -/
theorem disjoint_iff :
    ((fieldFunctions f).map Func.name).Disjoint ((fieldFunctions g).map Func.name) ↔
      ¬ f.Clashes g := by
  have hshare : ∀ {k k' : Func}, k ∈ fieldFunctions f → k' ∈ fieldFunctions g →
      k.name = k'.name →
      ¬ ((fieldFunctions f).map Func.name).Disjoint ((fieldFunctions g).map Func.name) := by
    intro k k' hk hk' he hdisjoint
    exact hdisjoint (List.mem_map_of_mem hk) (he ▸ List.mem_map_of_mem hk')
  constructor
  · rintro hdisjoint (h | ⟨hr, h⟩ | ⟨hr, h⟩)
    · exact hshare (getter_mem f) (getter_mem g)
        (Func.name_eq_iff.mpr ⟨rfl, overlap_iff.mpr h⟩) hdisjoint
    · exact hshare (itemGetter_mem hr) (getter_mem g)
        (Func.name_eq_iff.mpr ⟨rfl, overlap_iff.mpr h⟩) hdisjoint
    · exact hshare (getter_mem f) (itemGetter_mem hr)
        (Func.name_eq_iff.mpr ⟨rfl, (overlap_iff.mpr h).symm⟩) hdisjoint
  · intro hclash n hf hg
    obtain ⟨k, hk, rfl⟩ := List.mem_map.mp hf
    obtain ⟨k', hk', he⟩ := List.mem_map.mp hg
    have hsubject := (Func.name_eq_iff.mp he).2
    apply hclash
    rcases subject_of_mem hk with h1 | ⟨hr, h1⟩
    · rcases subject_of_mem hk' with h2 | ⟨hr', h2⟩
      · rw [h1, h2] at hsubject
        exact Or.inl (overlap_iff.mp hsubject.symm)
      · rw [h1, h2] at hsubject
        exact Or.inr (Or.inr ⟨hr', overlap_iff.mp hsubject⟩)
    · rcases subject_of_mem hk' with h2 | ⟨hr', h2⟩
      · rw [h1, h2] at hsubject
        exact Or.inr (Or.inl ⟨hr, overlap_iff.mp hsubject.symm⟩)
      · rw [h1, h2, itemSubject_eq, itemSubject_eq, String.append_left_inj] at hsubject
        exact Or.inl (overlap_iff.mp hsubject.symm)

end Fields

section Module

variable {M : Module} {order : List Struct}

theorem operation_of_mem_field {f : Field} {k : Func} (hk : k ∈ fieldFunctions f) :
    k.operation ∈ ["get_", "set_", "__serialize_", "__deserialize_"] := by
  rcases mem_fieldFunctions.mp hk with
    rfl | ⟨-, rfl⟩ | ⟨-, rfl⟩ | ⟨-, rfl⟩ | ⟨-, rfl⟩ | ⟨-, rfl⟩ <;>
  simp [Func.operation]

theorem structFunction_of_mem {S : Struct} {k : Func} (hk : k ∈ structFunctions S) :
    k.operation ∈ ["create_", "serialize_", "deserialize_", "destroy_"] ∧ k.subject = S.name := by
  unfold structFunctions at hk
  simp only [List.mem_cons, List.not_mem_nil, or_false] at hk
  rcases hk with rfl | rfl | rfl | rfl <;> simp [Func.operation, Func.subject]

theorem operations_disjoint : ∀ a ∈ ["get_", "set_", "__serialize_", "__deserialize_"],
    ∀ b ∈ ["create_", "serialize_", "deserialize_", "destroy_"], a ≠ b := by decide

theorem mem_of_mem_if {S : Struct} {k : Func}
    (hk : k ∈ if S.type.isSome then structFunctions S else []) : k ∈ structFunctions S := by
  split at hk
  · exact hk
  · cases hk

theorem structFunctions_nodup (S : Struct) :
    ((if S.type.isSome then structFunctions S else []).map Func.name).Nodup := by
  unfold structFunctions
  split
  · simp [Func.name_eq_iff, Func.operation]
  · exact List.nodup_nil

/-- Fields first: the order of the structs does not matter. -/
theorem created_perm (horder : order.Perm M.structs) :
    (created order).Perm ((createdFields M).flatMap fieldFunctions ++
      M.structs.flatMap fun S => if S.type.isSome then structFunctions S else []) := by
  have hfields : (createdFields M).flatMap fieldFunctions =
      M.structs.flatMap fun S => (S.fields.filter (·.parentType.isSome)).flatMap fieldFunctions :=
    List.flatMap_assoc
  rw [hfields]
  exact (horder.flatMap_right createdFunctions).trans (List.flatMap_append_perm _ _ _).symm

theorem created_nodup_iff (hnames : M.names.Nodup) (horder : order.Perm M.structs) :
    ((created order).map Func.name).Nodup ↔ Unambiguous M := by
  rw [((created_perm horder).map Func.name).nodup_iff, List.map_append, List.nodup_append']
  have hfields : (((createdFields M).flatMap fieldFunctions).map Func.name).Nodup ↔
      Unambiguous M := by
    rw [List.map_flatMap, List.nodup_flatMap]
    constructor
    · rintro ⟨-, h⟩
      exact h.imp fun hd => disjoint_iff.mp hd
    · intro h
      exact ⟨fun f _ => fieldFunctions_nodup f, List.Pairwise.imp (fun hc => disjoint_iff.mpr hc) h⟩
  have hstructs : ((M.structs.flatMap fun S =>
      if S.type.isSome then structFunctions S else []).map Func.name).Nodup := by
    rw [List.map_flatMap, List.nodup_flatMap]
    refine ⟨fun S _ => structFunctions_nodup S, ?_⟩
    have hpairs : M.structs.Pairwise fun S T => S.name ≠ T.name := List.pairwise_map.mp hnames
    refine hpairs.imp fun {S T} hne n hS hT => ?_
    obtain ⟨k, hk, rfl⟩ := List.mem_map.mp hS
    obtain ⟨k', hk', he⟩ := List.mem_map.mp hT
    have hsubject := (Func.name_eq_iff.mp he).2
    rw [(structFunction_of_mem (mem_of_mem_if hk)).2,
      (structFunction_of_mem (mem_of_mem_if hk')).2] at hsubject
    exact hne hsubject.symm
  have hdisjoint : (((createdFields M).flatMap fieldFunctions).map Func.name).Disjoint
      ((M.structs.flatMap fun S =>
        if S.type.isSome then structFunctions S else []).map Func.name) := by
    intro n hf hs
    obtain ⟨k, hk, rfl⟩ := List.mem_map.mp hf
    obtain ⟨k', hk', he⟩ := List.mem_map.mp hs
    obtain ⟨f, -, hk⟩ := List.mem_flatMap.mp hk
    obtain ⟨S, -, hk'⟩ := List.mem_flatMap.mp hk'
    exact operations_disjoint _ (operation_of_mem_field hk) _
      (structFunction_of_mem (mem_of_mem_if hk')).1 (Func.name_eq_iff.mp he).1.symm
  constructor
  · rintro ⟨h, -, -⟩
    exact hfields.mp h
  · intro h
    exact ⟨hfields.mpr h, hstructs, hdisjoint⟩

end Module

/-! ## Main results -/

/-- The symbols of an accepted module are distinct, and each is new when its function is
    created, exactly when no two fields clash. -/
theorem symbols_unambiguous_iff {std : StdSort .default} {input : List Char} {M : Module}
    (h : Parser.parseFile std input = .ok (true, M)) :
    (∀ order, order.Perm M.structs →
      ((created order).map Func.name).Nodup ∧ AlwaysInserts (created order)) ↔ Unambiguous M := by
  obtain ⟨P, hrun, rfl⟩ := Parser.run_of_parseFile h
  have hnames := (Parser.consistent_of_run hrun).names_nodup
  constructor
  · intro hall
    exact (created_nodup_iff hnames (.refl _)).mp (hall _ (.refl _)).1
  · intro hM order horder
    have hnd := (created_nodup_iff hnames horder).mpr hM
    exact ⟨hnd, alwaysInserts_iff.mpr hnd⟩

theorem symbols_unambiguous_iff_small :
    (∀ order, order.Perm [Parser.smallStruct.finalizeFields (.stable .default) (.struct 0 "a")] →
      ((created order).map Func.name).Nodup ∧ AlwaysInserts (created order)) ↔
    Unambiguous ⟨[Parser.smallStruct.finalizeFields (.stable .default) (.struct 0 "a")],
      ⟨["a"], 0, 1⟩⟩ := symbols_unambiguous_iff Parser.parseFile_smallFile

/-- `struct a { int8 b_item; repeated int8 b }` -/
def itemStruct : Struct :=
  ((Struct.new "a").addField "b_item" (.int 8) false).addRepeatedField "b" (.ptr (.int 8)) false

/-- The items of `b` and the field `b_item`. -/
theorem getter_symbol_twice :
    ∃ M, Parser.parseFile (.stable .default)
        "struct a \x7b\n  int8 b_item\n  repeated int8 b\n\x7d\n".toList = .ok (true, M) ∧
      ¬ ((created M.structs).map Func.name).Nodup ∧ ¬ AlwaysInserts (created M.structs) := by
  refine ⟨⟨[itemStruct.finalizeFields (.stable .default) (.struct 0 "a")], ⟨["a"], 0, 1⟩⟩,
    by rfl, ?_⟩
  rw [alwaysInserts_iff, and_self, Struct.finalizeFields_stable _ (by decide)]
  decide

end Tyr
