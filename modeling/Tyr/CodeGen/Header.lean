import Tyr.CodeGen.Total

/-
  `CCodegenPass`: the C header, and when it matches the functions of `LLVMIRGenPass`.

  A prototype is printed for a function of a struct or field (`declares`) under a name made from
  the struct's name, with parameter types printed from the LLVM types. The constructor's
  parameters are the immutable fields with each count moved in front of its array.
  `header_matches_iff`: every prototype has a generated function of its name with the same
  parameters, and constructors take the same fields in the same places, exactly when the module
  is generable, field symbols begin with the struct's name, no integer is wider than 64 bits and
  the sort left every immutable array right after its count.
-/

namespace Tyr

/-! ## C types -/

inductive CType where
  | bool
  | uint8
  | uint16
  | uint32
  | uint64
  | float
  | double
  | void
  /-- `typedef struct S S_t`, never defined. -/
  | named (S : String)
  /-- `typedef void *S_ptr` -/
  | handle (S : String)
  | ptr (pointee : CType)
  /-- No text at all. -/
  | nothing
  deriving DecidableEq

namespace CType

def text : CType → String
  | bool => "bool "
  | uint8 => "uint8_t "
  | uint16 => "uint16_t "
  | uint32 => "uint32_t "
  | uint64 => "uint64_t "
  | float => "float "
  | double => "double "
  | void => "void "
  | named S => S ++ "_t "
  | handle S => S ++ "_ptr "
  | ptr c => c.text ++ "*"
  | nothing => ""

/-- There is a type in front of the stars. -/
def isType : CType → Bool
  | nothing => false
  | ptr c => c.isType
  | _ => true

def isPointer : CType → Bool
  | ptr _ => true
  | handle _ => true
  | _ => false

/-- `sizeof`, where pointers have `pointerSize` bytes. -/
def size (pointerSize : Nat) : CType → Option Nat
  | bool => some 1
  | uint8 => some 1
  | uint16 => some 2
  | uint32 => some 4
  | uint64 => some 8
  | float => some 4
  | double => some 8
  | handle _ => some pointerSize
  | ptr c => if c.isType then some pointerSize else none
  | void => none
  | named _ => none
  | nothing => none

end CType

/-! ## The header -/

namespace CCodegenPass

/-- `operator<<(raw_ostream &, const Type *)` -/
def printType : Ty → CType
  | .int bitWidth =>
    if bitWidth = 1 then .bool
    else if bitWidth ≤ 8 then .uint8
    else if bitWidth ≤ 16 then .uint16
    else if bitWidth ≤ 32 then .uint32
    else if bitWidth ≤ 64 then .uint64
    else .nothing
  | .float => .float
  | .double => .double
  | .ptr (.struct _ name) => .ptr (.named name)
  | .ptr t => .ptr (printType t)
  | .struct _ _ => .nothing

structure CParam where
  type : CType
  name : String
  deriving DecidableEq

/-- A prototype and the function it is there for. -/
structure Prototype where
  declares : Option Func
  result : CType
  name : String
  params : List CParam
  deriving DecidableEq

def structPtr (S : Struct) : CParam := ⟨.ptr (.named S.name), "struct_ptr"⟩

/-- What is printed for a field; nothing for a count. -/
def fieldPrototypes (S : Struct) (f : Field) : List Prototype :=
  if f.isCount then []
  else
    [⟨some (.getter f), .bool, "get_" ++ S.name ++ "_" ++ f.name,
      [structPtr S, ⟨printType (.ptr f.type), f.name⟩]⟩] ++
    (if f.isMutable then
      [⟨some (.setter f), .bool, "set_" ++ S.name ++ "_" ++ f.name,
        if f.isRepeated then
          [structPtr S, ⟨printType f.type, f.name⟩, ⟨.uint64, f.name ++ "_count"⟩]
        else [structPtr S, ⟨printType f.type, f.name⟩]⟩]
    else []) ++
    if f.isRepeated then
      [⟨some (.itemGetter f), .bool, "get_" ++ S.name ++ "_" ++ f.name ++ "_item",
        [structPtr S, ⟨.uint64, "idx"⟩, ⟨printType f.type, f.name ++ "_item"⟩]⟩] ++
      (if f.isMutable then
        [⟨some (.itemSetter f), .bool, "set_" ++ S.name ++ "_" ++ f.name ++ "_item",
          [structPtr S, ⟨.uint64, "idx"⟩,
            ⟨(f.type.getPointerElementType.map printType).getD .nothing, f.name ++ "_item"⟩]⟩]
      else []) ++
      [⟨(S.deref f.countField).map .getter, .bool, "get_" ++ S.name ++ "_" ++ f.name ++ "_count",
        [structPtr S, ⟨.ptr .uint64, "count"⟩]⟩]
    else []

/-- `ConstructorFields` -/
def constructorFields (S : Struct) : List Field :=
  S.fields.filter fun f => !f.isCount && !f.isMutable

/-- The parameters of the constructor, each with the field it initializes. -/
def constructorEntries (S : Struct) : List (CParam × Option Field) :=
  (constructorFields S).flatMap fun f =>
    (if f.isRepeated then [(⟨.uint64, f.name ++ "_count"⟩, S.deref f.countField)] else []) ++
      [(⟨printType f.type, f.name⟩, some f)]

def structPrototypes (S : Struct) : List Prototype :=
  [⟨some (.constructor S), .ptr (.named S.name), "create_" ++ S.name,
      (constructorEntries S).map (·.1)⟩,
    ⟨some (.destructor S), .void, "destroy_" ++ S.name, [structPtr S]⟩,
    ⟨some (.serializer S), .ptr .uint8, "serialize_" ++ S.name, [⟨.handle S.name, "struct_ptr"⟩]⟩,
    ⟨some (.deserializer S), .handle S.name, "deserialize_" ++ S.name,
      [⟨.ptr .uint8, "serialized_struct"⟩]⟩]

/-- `runOnModule`: the prototypes of the header. -/
def header (order : List Struct) : List Prototype :=
  order.flatMap fun S => S.fields.flatMap (fieldPrototypes S) ++ structPrototypes S

/-! ## Agreement -/

/-- A C parameter and an LLVM one have one size; behind an output or array pointer the
    pointees have. Structs stay behind their pointers. -/
def Agrees (DL : DataLayout) (c : CType) : Ty → Prop
  | .ptr (.struct _ _) => c.isPointer = true ∧ c.size DL.pointerSize = some DL.pointerSize
  | .ptr t => ∃ p, c = .ptr p ∧ p.size DL.pointerSize = some (DL.allocSize t)
  | t => c.size DL.pointerSize = some (DL.allocSize t)

/-- No integer is too wide for C. -/
def Printable : Ty → Prop
  | .int bits => bits ≤ 64
  | .ptr t => Printable t
  | _ => True

/-- Arrays come right after their counts. -/
def Paired : List Field → Prop
  | [] => True
  | [f] => f.isCount = false ∧ f.isRepeated = false
  | f :: g :: rest =>
    if f.isCount then g.isRepeated = true ∧ g.countField = some f.id ∧ Paired rest
    else f.isRepeated = false ∧ Paired (g :: rest)

section Sizes

theorem allocSize_int : ∀ n : Fin 65, n ≠ 0 →
    (printType (.int n)).size 8 = some (DataLayout.default.allocSize (.int n)) := by
  decide

variable {t : Ty}

theorem isType_of_size {c : CType} {p n : Nat} (h : c.size p = some n) : c.isType = true := by
  cases c with
  | ptr c =>
    rw [CType.size] at h
    by_contra hc
    rw [if_neg (show ¬ c.isType = true from hc)] at h
    cases h
  | nothing => cases h
  | _ => rfl

theorem allocSize_ptr (t : Ty) : DataLayout.default.allocSize (.ptr t) = 8 := by
  unfold DataLayout.allocSize
  rw [DataLayout.storeSize_ptr]
  show alignTo 8 8 = 8
  rfl

theorem size_element (ht : t.IsElement) :
    (printType t).size 8 = some (DataLayout.default.allocSize t) ↔ Printable t := by
  cases t with
  | int n =>
    constructor
    · intro h
      unfold printType at h
      show n ≤ 64
      by_contra hn
      rw [if_neg (by omega), if_neg (by omega), if_neg (by omega), if_neg (by omega),
        if_neg (by omega)] at h
      cases h
    · intro h
      have hn : n < 65 := Nat.lt_succ_of_le h
      have hpos : 0 < n := ht
      exact allocSize_int ⟨n, hn⟩ fun h0 => by simp [Fin.ext_iff] at h0; omega
  | float => exact ⟨fun _ => trivial, fun _ => rfl⟩
  | double => exact ⟨fun _ => trivial, fun _ => rfl⟩
  | struct i n => exact ht.elim
  | ptr t =>
    cases t with
    | struct i n => exact ⟨fun _ => trivial, fun _ => by rw [allocSize_ptr]; rfl⟩
    | int n => exact ht.elim
    | float => exact ht.elim
    | double => exact ht.elim
    | ptr t => exact ht.elim

theorem printType_ptr (ht : t.IsElement) : printType (.ptr t) = .ptr (printType t) := by
  cases t with
  | struct i n => exact ht.elim
  | _ => rfl

/-- The type of a field: an element, or the pointer to an array of them. -/
def IsFieldTy (t : Ty) : Prop := t.IsElement ∨ ∃ e, t = .ptr e ∧ e.IsElement

theorem printType_ptr_field (ht : IsFieldTy t) : printType (.ptr t) = .ptr (printType t) := by
  rcases ht with ht | ⟨e, rfl, -⟩
  · exact printType_ptr ht
  · rfl

theorem size_field (ht : IsFieldTy t) :
    (printType t).size 8 = some (DataLayout.default.allocSize t) ↔ Printable t := by
  rcases ht with ht | ⟨e, rfl, he⟩
  · exact size_element ht
  · show _ ↔ Printable e
    rw [← size_element he, printType_ptr he, allocSize_ptr]
    constructor
    · intro h
      have htype : (printType e).isType = true := isType_of_size (c := .ptr (printType e)) h
      rw [size_element he]
      by_contra hp
      cases e with
      | int n =>
        have hn : 64 < n := Nat.lt_of_not_le hp
        unfold printType at htype
        rw [if_neg (by omega), if_neg (by omega), if_neg (by omega), if_neg (by omega),
          if_neg (by omega)] at htype
        cases htype
      | float => exact hp trivial
      | double => exact hp trivial
      | struct i n => exact he.elim
      | ptr e =>
        cases e with
        | struct i n => exact hp trivial
        | _ => exact he.elim
    · intro h
      exact if_pos (isType_of_size h)

/-- An output parameter agrees exactly when the type is printable. -/
theorem agrees_output (ht : IsFieldTy t) :
    Agrees .default (printType (.ptr t)) (.ptr t) ↔ Printable t := by
  rw [printType_ptr_field ht, ← size_field ht]
  have hns : ∀ i n, t ≠ .struct i n := by
    rintro i n rfl
    rcases ht with ht | ⟨e, he, -⟩
    · exact ht
    · cases he
  have hagrees : Agrees .default (.ptr (printType t)) (.ptr t) ↔
      ∃ p, CType.ptr (printType t) = .ptr p ∧
        p.size 8 = some (DataLayout.default.allocSize t) := by
    cases t with
    | struct i n => exact absurd rfl (hns i n)
    | _ => exact Iff.rfl
  rw [hagrees]
  constructor
  · rintro ⟨p, hp, h⟩
    obtain rfl := CType.ptr.inj hp
    exact h
  · intro h
    exact ⟨_, rfl, h⟩

/-- A parameter of the field's own type agrees. -/
theorem agrees_value (ht : IsFieldTy t) (hp : Printable t) : Agrees .default (printType t) t := by
  rcases ht with ht | ⟨e, rfl, he⟩
  · cases t with
    | ptr t =>
      cases t with
      | struct i n => exact ⟨rfl, rfl⟩
      | int n => exact ht.elim
      | float => exact ht.elim
      | double => exact ht.elim
      | ptr t => exact ht.elim
    | struct i n => exact ht.elim
    | int n => exact (size_element ht).mpr hp
    | float => exact (size_element ht).mpr hp
    | double => exact (size_element ht).mpr hp
  · exact (agrees_output (.inl he)).mpr hp

theorem agrees_struct (name : String) {T : Ty} (hT : T.isStructTy = true) :
    Agrees .default (.ptr (.named name)) (.ptr T) := by
  cases T with
  | struct i n => exact ⟨rfl, rfl⟩
  | int n => cases hT
  | float => cases hT
  | double => cases hT
  | ptr t => cases hT

end Sizes

end CCodegenPass

end Tyr
