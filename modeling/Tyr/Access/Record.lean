import Mathlib.Logic.Function.Basic

/-
  A store of records.

  What the accessors of a struct are for, said without memory: a record has a number in each
  scalar field and a list in each repeated one, and a store holds the records that exist.
  `Step` is one operation with its result. It leaves two things open: which identity a new
  record gets, and what the elements are that growing a list adds.
-/

namespace Tyr

universe u

/-- A record with fields named by `κ`. -/
structure Record (κ : Type u) where
  scalar : κ → Nat
  items : κ → List Nat

namespace Record

variable {κ : Type u}

/-- The records that exist. -/
abbrev Store (κ : Type u) : Type u := Nat → Option (Record κ)

inductive Op (κ : Type u) where
  | create (args : Record κ)
  | get (b : Nat) (f : κ)
  | getItems (b : Nat) (f : κ)
  | getCount (b : Nat) (f : κ)
  | getItem (b : Nat) (f : κ) (idx : Nat)
  | set (b : Nat) (f : κ) (v : Nat)
  | setItems (b : Nat) (f : κ) (l : List Nat)
  | setCount (b : Nat) (f : κ) (n : Nat)
  | setItem (b : Nat) (f : κ) (idx v : Nat)
  | destroy (b : Nat)

/-- The identity of a new record, or whether an operation succeeded and what it has read. -/
inductive Result where
  | created (b : Nat)
  | done (ok : Bool) (out : List Nat)

/-- A new record: immutable fields are the arguments, mutable ones zero or empty. -/
def initial (isMutable : κ → Bool) (args : Record κ) : Record κ where
  scalar f := if isMutable f then 0 else args.scalar f
  items f := if isMutable f then [] else args.items f

variable [DecidableEq κ]

def setScalar (r : Record κ) (f : κ) (v : Nat) : Record κ :=
  { r with scalar := Function.update r.scalar f v }

def setItems (r : Record κ) (f : κ) (l : List Nat) : Record κ :=
  { r with items := Function.update r.items f l }

section Update

variable (r : Record κ) {f g : κ} (hne : g ≠ f)

@[simp] theorem scalar_setScalar (f : κ) (v : Nat) : (r.setScalar f v).scalar f = v := by
  simp [setScalar]

@[simp] theorem items_setItems (f : κ) (l : List Nat) : (r.setItems f l).items f = l := by
  simp [setItems]

include hne

theorem scalar_setScalar_ne (v : Nat) : (r.setScalar f v).scalar g = r.scalar g := by
  simp [setScalar, hne]

theorem items_setItems_ne (l : List Nat) : (r.setItems f l).items g = r.items g := by
  simp [setItems, hne]

end Update

inductive Step (isMutable : κ → Bool) : Store κ → Op κ × Result → Store κ → Prop where
  | create {st : Store κ} {b : Nat} {args : Record κ} (hb : st b = none) :
      Step isMutable st (.create args, .created b)
        (Function.update st b (some (args.initial isMutable)))
  | get {st : Store κ} {b : Nat} {r : Record κ} {f : κ} (hb : st b = some r) :
      Step isMutable st (.get b f, .done true [r.scalar f]) st
  | getItems {st : Store κ} {b : Nat} {r : Record κ} {f : κ} (hb : st b = some r) :
      Step isMutable st (.getItems b f, .done true (r.items f)) st
  | getCount {st : Store κ} {b : Nat} {r : Record κ} {f : κ} (hb : st b = some r) :
      Step isMutable st (.getCount b f, .done true [(r.items f).length]) st
  | getItem {st : Store κ} {b : Nat} {r : Record κ} {f : κ} {idx : Nat} (hb : st b = some r)
      (hi : idx < (r.items f).length) :
      Step isMutable st (.getItem b f idx, .done true [(r.items f)[idx]]) st
  | getItem_out {st : Store κ} {b : Nat} {r : Record κ} {f : κ} {idx : Nat} (hb : st b = some r)
      (hi : (r.items f).length ≤ idx) :
      Step isMutable st (.getItem b f idx, .done false []) st
  | set {st : Store κ} {b : Nat} {r : Record κ} {f : κ} {v : Nat} (hb : st b = some r) :
      Step isMutable st (.set b f v, .done true [])
        (Function.update st b (some (r.setScalar f v)))
  | setItems {st : Store κ} {b : Nat} {r : Record κ} {f : κ} {l : List Nat} (hb : st b = some r) :
      Step isMutable st (.setItems b f l, .done true [])
        (Function.update st b (some (r.setItems f l)))
  | setCount {st : Store κ} {b : Nat} {r : Record κ} {f : κ} {l : List Nat} (hb : st b = some r)
      (hkeep : ∀ i < l.length, i < (r.items f).length → l[i]? = (r.items f)[i]?) :
      Step isMutable st (.setCount b f l.length, .done true [])
        (Function.update st b (some (r.setItems f l)))
  | setItem {st : Store κ} {b : Nat} {r : Record κ} {f : κ} {idx v : Nat} (hb : st b = some r)
      (hi : idx < (r.items f).length) :
      Step isMutable st (.setItem b f idx v, .done true [])
        (Function.update st b (some (r.setItems f ((r.items f).set idx v))))
  | setItem_out {st : Store κ} {b : Nat} {r : Record κ} {f : κ} {idx v : Nat}
      (hb : st b = some r) (hi : (r.items f).length ≤ idx) :
      Step isMutable st (.setItem b f idx v, .done false []) st
  | destroy {st : Store κ} {b : Nat} {r : Record κ} (hb : st b = some r) :
      Step isMutable st (.destroy b, .done true []) (Function.update st b none)

end Record

end Tyr
