import Tyr.IR.Struct

/-
  `tyr::Module` as the parser uses it: the map of structs, the type names, and the part of
  the `LLVMContext` that names struct types.

  The map is a list in order of creation; its iteration order (that of the hashes) is a
  parameter of whoever iterates. The module is a fresh one with its builtins finalized, so
  fields are sorted by the default layout. A source byte is a character below 256.

  A computation ends with a value or with the `Misuse` it runs into: a call on a null
  pointer, an index past the end, or a call outside the contract of an LLVM function.
-/

namespace Tyr

/-! ## Struct types of the context -/

/-- The context's struct types: the names in use, the counter for renamed types, the number
    of types created. -/
structure Context where
  names : List String
  uniqueID : Nat
  created : Nat

namespace Context

def renamed (name : String) (i : Nat) : String := name ++ "." ++ Nat.repr i

/-- The first suffix from the counter on that makes the name a new one. -/
def nextID (C : Context) (name : String) : Nat :=
  ((List.range' C.uniqueID (C.names.length + 1)).find? fun i =>
    !C.names.contains (renamed name i)).getD C.uniqueID

/-- `StructType::create`. A name in use gets a suffix; the empty name is no name. -/
def create (C : Context) (name : String) : Ty × Context :=
  if name = "" then (.struct C.created "", { C with created := C.created + 1 })
  else if C.names.contains name then
    let i := C.nextID name
    (.struct C.created (renamed name i),
      { names := renamed name i :: C.names, uniqueID := i + 1, created := C.created + 1 })
  else (.struct C.created name, { C with names := name :: C.names, created := C.created + 1 })

end Context

/-! ## The module -/

/-- What a call of the parser must not do. -/
inductive Misuse where
  /-- `tokens[i]` of a shorter line. -/
  | token
  /-- A member call on a null `m_current_struct_`. -/
  | nullStruct
  /-- `getPointerTo` on a null type. -/
  | nullType
  /-- `StructType::create` of no elements. -/
  | noElements
  /-- `getIntNTy` of a width that is not between 1 and `2 ^ 24 - 1`. -/
  | bitWidth
  deriving DecidableEq

structure Module where
  structs : List Struct
  context : Context

/-- `Module::Module` -/
def Module.new : Module where
  structs := []
  context := ⟨[], 0, 0⟩

namespace Module

variable (M : Module)

def find (name : String) : Option Struct := M.structs.find? fun S => S.name = name

/-- Apply `g` to the struct of this name. -/
def modify (name : String) (g : Struct → Struct) : Module :=
  { M with structs := M.structs.map fun S => if S.name = name then g S else S }

/-- The module after `getOrCreateStruct`; the struct is then the one of this name. -/
def getOrCreateStruct (name : String) : Module :=
  match M.find name with
  | some _ => M
  | none => { M with structs := M.structs ++ [Struct.new name] }

/-- `finalizeFields` of the struct of this name. -/
def finalizeFields (std : StdSort .default) (name : String) : Except Misuse Module :=
  match M.find name with
  | none => .error .nullStruct
  | some S =>
    if S.fields = [] then .error .noElements
    else
      let (type, context) := M.context.create S.name
      .ok { M.modify name (·.finalizeFields std type) with context := context }

end Module

/-! ## Type names -/

/-- `StringRef::startswith_lower` -/
def startswithLower (s w : List Char) : Bool := w.isPrefixOf (s.map Char.toLower)

/-- What follows the last `t` or `T`. -/
def afterLastT (s : List Char) : List Char :=
  (s.reverse.takeWhile fun c => c.toLower != 't').reverse

/-- The digits of `consumeUnsignedInteger`: the value and what is left, nothing when the
    64-bit value overflows. -/
def consumeDigits : List Char → Nat → Option (Nat × List Char)
  | [], Result => some (Result, [])
  | c :: cs, Result =>
    if c.isDigit then
      let Next := (Result * 10 + (c.toNat - '0'.toNat)) % 2 ^ 64
      if Next / 10 < Result then none else consumeDigits cs Next
    else some (Result, c :: cs)

/-- `llvm::getAsUnsignedInteger` with radix 10. -/
def getAsUnsignedInteger (s : List Char) : Option Nat :=
  if s = [] then none
  else match consumeDigits s 0 with
    | some (n, []) => some n
    | _ => none

/-- `getIntNTy((uint32_t)intBits)` -/
def getIntNTy (intBits : Nat) : Except Misuse Ty :=
  let width := intBits % 2 ^ 32
  if 1 ≤ width ∧ width < 2 ^ 24 then .ok (.int width) else .error .bitWidth

/-- Is the name read as an integer type? -/
def isIntegerName (FieldType : String) : Bool :=
  startswithLower FieldType.toList ['i', 'n', 't'] ||
    startswithLower FieldType.toList ['u', 'i', 'n', 't']

/-- `Module::parseType` up to the pointer that `IsRepeated` adds. -/
def Module.parseElementType (M : Module) (FieldType : String) : Except Misuse (Option Ty) :=
  if FieldType = "bool" then .ok (some (.int 1))
  else if isIntegerName FieldType then
    match getAsUnsignedInteger (afterLastT FieldType.toList) with
    | none => .ok none
    | some intBits => (getIntNTy intBits).map some
  else if FieldType = "float" then .ok (some .float)
  else if FieldType = "double" then .ok (some .double)
  else match M.find FieldType with
    | none => .ok none
    | some S =>
      match S.type with
      | none => .error .nullType
      | some type => .ok (some (.ptr type))

/-- `Module::parseType` -/
def Module.parseType (M : Module) (FieldType : String) (IsRepeated : Bool) :
    Except Misuse (Option Ty) := do
  let OutTy ← M.parseElementType FieldType
  pure (OutTy.map fun t => if IsRepeated then .ptr t else t)

/-- The part of a type name that `parseType` looks at: the bit width of an integer type, the
    type of a struct. -/
def Module.Usable (M : Module) (FieldType : String) : Prop :=
  FieldType = "bool" ∨
  if isIntegerName FieldType then
    ∀ w, getAsUnsignedInteger (afterLastT FieldType.toList) = some w →
      1 ≤ w % 2 ^ 32 ∧ w % 2 ^ 32 < 2 ^ 24
  else FieldType = "float" ∨ FieldType = "double" ∨
    ∀ S, M.find FieldType = some S → S.type.isSome

theorem getIntNTy_eq_ok {w : Nat} (h : 1 ≤ w % 2 ^ 32 ∧ w % 2 ^ 32 < 2 ^ 24) :
    getIntNTy w = .ok (.int (w % 2 ^ 32)) := by
  unfold getIntNTy
  exact if_pos h

theorem getIntNTy_eq_error {w : Nat} (h : ¬ (1 ≤ w % 2 ^ 32 ∧ w % 2 ^ 32 < 2 ^ 24)) :
    getIntNTy w = .error .bitWidth := by
  unfold getIntNTy
  exact if_neg h

/-- `parseType` returns on the usable type names. -/
theorem Module.parseElementType_returns_iff {M : Module} {FieldType : String} :
    (∃ t, M.parseElementType FieldType = .ok t) ↔ M.Usable FieldType := by
  unfold parseElementType Usable
  by_cases hb : FieldType = "bool"
  · simp [hb]
  rw [if_neg hb]
  by_cases hi : isIntegerName FieldType = true
  · simp only [hb, hi, if_true, false_or]
    cases hw : getAsUnsignedInteger (afterLastT FieldType.toList) with
    | none => simp
    | some w =>
      by_cases hr : 1 ≤ w % 2 ^ 32 ∧ w % 2 ^ 32 < 2 ^ 24
      · refine ⟨fun _ v hv => Option.some.inj hv ▸ hr, fun _ => ⟨some (.int (w % 2 ^ 32)), ?_⟩⟩
        simp only [getIntNTy_eq_ok hr, Except.map]
      · simp only [getIntNTy_eq_error hr, Except.map, reduceCtorEq, exists_false, false_iff]
        intro h
        exact hr (h w rfl)
  · simp only [hb, hi, if_false, false_or, Bool.false_eq_true]
    by_cases hf : FieldType = "float"
    · simp [hf]
    by_cases hd : FieldType = "double"
    · simp [hd]
    simp only [hf, hd, if_false, false_or]
    cases hS : M.find FieldType with
    | none => simp
    | some S => cases hT : S.type <;> simp [hT]

theorem Module.parseType_returns_iff {M : Module} {FieldType : String} {IsRepeated : Bool} :
    (∃ t, M.parseType FieldType IsRepeated = .ok t) ↔ M.Usable FieldType := by
  rw [← parseElementType_returns_iff]
  unfold parseType
  cases M.parseElementType FieldType with
  | error e => simp [bind, Except.bind]
  | ok t => simp [bind, Except.bind, pure, Except.pure]

/-- What `parseType` returns without the repetition is the type of a field. -/
theorem Module.parseElementType_isElement {M : Module} {FieldType : String} {t : Ty}
    (hM : ∀ S ∈ M.structs, ∀ T, S.type = some T → T.isStructTy = true)
    (h : M.parseElementType FieldType = .ok (some t)) : t.IsElement := by
  unfold parseElementType at h
  split at h
  · obtain rfl := Option.some.inj (Except.ok.inj h)
    exact Nat.one_pos
  split at h
  · split at h
    · cases h
    · next w hw =>
      by_cases hr : 1 ≤ w % 2 ^ 32 ∧ w % 2 ^ 32 < 2 ^ 24
      · rw [getIntNTy_eq_ok hr] at h
        obtain rfl := Option.some.inj (Except.ok.inj h)
        exact hr.1
      · rw [getIntNTy_eq_error hr] at h
        cases h
  split at h
  · obtain rfl := Option.some.inj (Except.ok.inj h)
    trivial
  split at h
  · obtain rfl := Option.some.inj (Except.ok.inj h)
    trivial
  split at h
  · cases h
  · next S hS =>
    split at h
    · cases h
    · next T hT =>
      obtain rfl := Option.some.inj (Except.ok.inj h)
      have hst := hM S (List.mem_of_find?_eq_some hS) T hT
      cases T <;> trivial

example : (Module.new.parseType "uInt16" true).toOption = some (some (.ptr (.int 16))) := by
  decide

end Tyr
