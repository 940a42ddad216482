import Tyr.IR.Struct

/-
  The functions `LLVMIRGenPass` creates: what each is generated from, its symbol and its
  LLVM function type. `generatedFunctions S` lists them for one struct in the order
  `Module::visit` creates them.
-/

namespace Tyr

/-- A function of the module, by the generator call that emits its body. -/
inductive Func where
  | getter (f : Field)
  | itemGetter (f : Field)
  | setter (f : Field)
  | itemSetter (f : Field)
  | fieldSerializer (f : Field)
  | fieldDeserializer (f : Field)
  | constructor (S : Struct)
  | serializer (S : Struct)
  | deserializer (S : Struct)
  | destructor (S : Struct)
  deriving DecidableEq

/-- `f->parentType->getName()` -/
def Field.parentName (f : Field) : String := (f.parentType.bind Ty.getStructName).getD ""

def getSerializerName (f : Field) : String := "__serialize_" ++ f.parentName ++ "_" ++ f.name

def getDeserializerName (f : Field) : String := "__deserialize_" ++ f.parentName ++ "_" ++ f.name

def Func.name : Func → String
  | getter f => "get_" ++ f.parentName ++ "_" ++ f.name
  | itemGetter f => "get_" ++ f.parentName ++ "_" ++ f.name ++ "_item"
  | setter f => "set_" ++ f.parentName ++ "_" ++ f.name
  | itemSetter f => "set_" ++ f.parentName ++ "_" ++ f.name ++ "_item"
  | fieldSerializer f => getSerializerName f
  | fieldDeserializer f => getDeserializerName f
  | constructor S => "create_" ++ S.name
  | serializer S => "serialize_" ++ S.name
  | deserializer S => "deserialize_" ++ S.name
  | destructor S => "destroy_" ++ S.name

/-- What `runOnField` creates. -/
def fieldFunctions (f : Field) : List Func :=
  [.getter f] ++
  (if f.isRepeated then [.itemGetter f] else []) ++
  (if f.isMutable then [.setter f] else []) ++
  (if f.isRepeated then [.itemSetter f] else []) ++
  (if f.isCount then [] else [.fieldSerializer f, .fieldDeserializer f])

/-- What `runOnStruct` creates. -/
def structFunctions (S : Struct) : List Func :=
  [.constructor S, .serializer S, .deserializer S, .destructor S]

def generatedFunctions (S : Struct) : List Func :=
  S.fields.flatMap fieldFunctions ++ structFunctions S

/-- The names of the functions generated for `S` are pairwise distinct. -/
def Struct.DistinctNames (S : Struct) : Prop := ((generatedFunctions S).map Func.name).Nodup

/-- `llvm::Module::getFunction`: a name that was used twice means the first function. -/
def lookupFunction (fs : List Func) (name : String) : Option Func :=
  fs.find? fun g => g.name == name

theorem lookupFunction_of_nodup {fs : List Func} (hnd : (fs.map Func.name).Nodup) {g : Func}
    (hg : g ∈ fs) : lookupFunction fs g.name = some g := by
  induction fs with
  | nil => cases hg
  | cons x xs ih =>
    simp only [List.map_cons, List.nodup_cons] at hnd
    rcases List.mem_cons.mp hg with rfl | hg
    · simp [lookupFunction]
    · have hne : x.name ≠ g.name := fun he => hnd.1 (he ▸ List.mem_map_of_mem hg)
      rw [lookupFunction, List.find?_cons_of_neg (by simpa using hne)]
      exact ih hnd.2 hg

theorem mem_generatedFunctions {S : Struct} {f : Field} {g : Func} (hf : f ∈ S.fields)
    (hg : g ∈ fieldFunctions f) : g ∈ generatedFunctions S :=
  List.mem_append_left _ (List.mem_flatMap.mpr ⟨f, hf, hg⟩)

theorem pathStruct_distinctNames : pathStruct.DistinctNames := by
  unfold Struct.DistinctNames
  decide

end Tyr
