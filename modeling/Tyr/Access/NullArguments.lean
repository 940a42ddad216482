import Tyr.Wire.Deserialize

/-
  NULL arguments.

  All six kinds of function share `insertNullCheck`, which goes on when one of its pointers is
  not NULL. With one pointer that is a check; the getters pass it two, and `deserialize_S`
  loads the header before it checks. `Caught` lists what is left: both pointers NULL, or a
  getter that gives up before it writes its result. `rejectsNull_iff` says that these are all.
  Nothing is assumed of the pointers that are not NULL, nor of the heap.
-/

namespace Tyr

open Prog

/-- A call that takes a pointer to a struct, to a result or to a buffer. -/
inductive Request where
  | get (f : Field) (Self OutVal : Ptr)
  | getItem (f : Field) (Self : Ptr) (IDX : I64) (OutVal : Ptr)
  | set (f : Field) (Self : Ptr) (ToInsert : Val) (NumElts : I64)
  | setItem (f : Field) (Self : Ptr) (IDX : I64) (ValToSet : Val)
  | serialize (Self : Ptr)
  | deserialize (SerializedSelf : Ptr)

namespace Request

/-- The pointers to the struct, to the result and to the buffer. -/
def pointers : Request → List Ptr
  | get _ Self OutVal => [Self, OutVal]
  | getItem _ Self _ OutVal => [Self, OutVal]
  | set _ Self _ _ => [Self]
  | setItem _ Self _ _ => [Self]
  | serialize Self => [Self]
  | deserialize SerializedSelf => [SerializedSelf]

/-- The function called is one that is generated for `S`. -/
def Generated (S : Struct) : Request → Prop
  | get f _ _ => f ∈ S.fields
  | getItem f _ _ _ => f ∈ S.fields ∧ f.isRepeated = true
  | set f _ _ _ => f ∈ S.fields ∧ f.isMutable = true
  | setItem f _ _ _ => f ∈ S.fields ∧ f.isRepeated = true
  | serialize _ => True
  | deserialize _ => True

end Request

namespace Env

variable (E : Env) (S : Struct)

/-- The call ends without a fault, a null access among them, and returns false or NULL. -/
def RejectsNull (h : Heap) : Request → Prop
  | .get f Self OutVal => ∃ h', E.getGetter S f Self OutVal h = .ok (false, h')
  | .getItem f Self IDX OutVal => ∃ h', E.getItemGetter S f Self IDX OutVal h = .ok (false, h')
  | .set f Self ToInsert NumElts => ∃ h', E.getSetter S f Self ToInsert NumElts h = .ok (false, h')
  | .setItem f Self IDX ValToSet => ∃ h', E.getItemSetter S f Self IDX ValToSet h = .ok (false, h')
  | .serialize Self => ∃ h', E.getSerializer S Self h = .ok (.null, h')
  | .deserialize SerializedSelf => ∃ h', E.getDeserializer S SerializedSelf h = .ok (.null, h')

/-- The count of array `f` as the getters read it: the array's pointer is loaded first. -/
def countIn (h : Heap) (Self : Ptr) (f : Field) : Option I64 :=
  (h.read (E.structGEP S Self f) (E.layout.storeSize f.type)).bind fun _ =>
    (h.read (E.structGEP S Self (S.countOf f)) 8).map E.decodeI64

/-- The calls with a NULL argument that do no harm. -/
def Caught (h : Heap) : Request → Prop
  | .get f Self OutVal => Self = .null ∧ OutVal = .null ∨
      Self ≠ .null ∧ f.isRepeated = true ∧ f.isMutable = false ∧
        ∃ n, E.countIn S h Self f = some n ∧
          E.alloc.succeeds h.calls (E.sizeFor f n).toNat = false
  | .getItem f Self IDX OutVal => Self = .null ∧ OutVal = .null ∨
      Self ≠ .null ∧ ∃ n, E.countIn S h Self f = some n ∧ ¬ IDX < n
  | .set _ _ _ _ => True
  | .setItem _ _ _ _ => True
  | .serialize _ => True
  | .deserialize _ => False

variable {E S} {h h' : Heap} {f : Field} {p Self OutVal : Ptr} {t : Ty} {IDX : I64}

/-! ## Accesses through NULL -/

/-- Nothing is at an offset from NULL. -/
theorem read_add_null (h : Heap) (k : I64) (n : Nat) : h.read (Ptr.null.add k) n = none := by
  unfold Ptr.add
  split
  · split
    · rfl
    · rfl
  · next heq => cases heq
  · next heq => cases heq

theorem loadTy_none (hr : h.read p (E.layout.storeSize t) = none) :
    E.loadTy t p h = .error .access :=
  bind_of_error (by simp only [load, hr])

theorem loadTy_some {cs : List Cell} (hr : h.read p (E.layout.storeSize t) = some cs) :
    E.loadTy t p h = .ok (E.decode t cs, h) := by
  rw [loadTy, bind_of_ok (load_of_read hr), pure_apply]

theorem loadI64_none (hr : h.read p 8 = none) : E.loadI64 p h = .error .access :=
  bind_of_error (by simp only [load, hr])

theorem loadI64_some {cs : List Cell} (hr : h.read p 8 = some cs) :
    E.loadI64 p h = .ok (E.decodeI64 cs, h) := by
  rw [loadI64, bind_of_ok (load_of_read hr), pure_apply]

/-- A program that ends with a store through NULL never ends normally. -/
theorem stores_null {α : Type} {x : Prog α} {v : α → Val} {b : Bool} :
    ¬ ∃ h', (do
      let a ← x
      E.storeTy t (v a) .null
      pure true : Prog Bool) h = .ok (b, h') := by
  intro ⟨h', hrun⟩
  obtain ⟨a, h₁, -, hrun⟩ := bind_eq_ok hrun
  obtain ⟨_, h₂, hstore, -⟩ := bind_eq_ok hrun
  cases hstore

/-! ## The two checks of a getter -/

theorem insertNullCheck_null_null {α : Type} (r : α) (k : Prog α) :
    insertNullCheck [.null, .null] r k = pure r := by
  simp [insertNullCheck]

theorem insertNullCheck_of_right {α : Type} (r : α) (k : Prog α) (hp : p ≠ .null) :
    insertNullCheck [.null, p] r k = k := by
  cases p with
  | null => exact absurd rfl hp
  | loc b o => simp [insertNullCheck, Ptr.isNotNull]
  | wild raw => simp [insertNullCheck, Ptr.isNotNull]

theorem insertNullCheck_of_left {α : Type} (r : α) (k : Prog α) (hp : p ≠ .null) (q : Ptr) :
    insertNullCheck [p, q] r k = k := by
  cases p with
  | null => exact absurd rfl hp
  | loc b o => simp [insertNullCheck, Ptr.isNotNull]
  | wild raw => simp [insertNullCheck, Ptr.isNotNull]

/-- Loading a field of NULL. -/
theorem loadField_null (t : Ty) : E.loadTy t (E.structGEP S .null f) h = .error .access :=
  loadTy_none (read_add_null h _ _)

section Getters

variable (wf : S.WellFormed) (hf : f ∈ S.fields)
include wf hf

/-- The size of an array, read from whatever `Self` points at. -/
theorem getFieldAllocSize_read (hr : f.isRepeated = true) {cs : List Cell}
    (hcs : h.read (E.structGEP S Self (S.countOf f)) 8 = some cs) :
    E.getFieldAllocSize S f Self h = .ok (E.sizeFor f (E.decodeI64 cs), h) := by
  obtain ⟨ht, -, -, -, hd, -⟩ := wf.array_spec hf hr
  have hpt := wf.pointee hf hr
  unfold getFieldAllocSize
  simp only [hr, if_true, hpt, hd]
  rw [bind_of_ok (loadI64_some hcs), pure_apply, sizeFor]

theorem getFieldAllocSize_unread (hr : f.isRepeated = true)
    (hcs : h.read (E.structGEP S Self (S.countOf f)) 8 = none) :
    E.getFieldAllocSize S f Self h = .error .access := by
  obtain ⟨ht, -, -, -, hd, -⟩ := wf.array_spec hf hr
  have hpt := wf.pointee hf hr
  unfold getFieldAllocSize
  simp only [hr, if_true, hpt, hd]
  exact bind_of_error (loadI64_none hcs)

/-- The copy a getter makes of an immutable array, when it is to be stored through NULL. -/
theorem copyArray_null_iff (hr : f.isRepeated = true) (src : Ptr) :
    (∃ h', (do
      let FieldAllocSize ← E.getFieldAllocSize S f Self
      let AllocdMem ← malloc E.alloc FieldAllocSize
      insertNullCheck [AllocdMem] false do
        memcpy AllocdMem src FieldAllocSize
        E.storeTy f.type (.ptr AllocdMem) .null
        pure true : Prog Bool) h = .ok (false, h')) ↔
      ∃ cs, h.read (E.structGEP S Self (S.countOf f)) 8 = some cs ∧
        E.alloc.succeeds h.calls (E.sizeFor f (E.decodeI64 cs)).toNat = false := by
  cases hcs : h.read (E.structGEP S Self (S.countOf f)) 8 with
  | none =>
    rw [bind_of_error (getFieldAllocSize_unread wf hf hr hcs)]
    constructor
    · intro ⟨h', hrun⟩
      cases hrun
    · intro ⟨cs, hcs', _⟩
      cases hcs'
  | some cs =>
    rw [bind_of_ok (getFieldAllocSize_read wf hf hr hcs)]
    cases hA : E.alloc.succeeds h.calls (E.sizeFor f (E.decodeI64 cs)).toNat with
    | false =>
      rw [bind_of_ok (malloc_null hA), insertNullCheck_null]
      exact ⟨fun _ => ⟨cs, rfl, hA⟩, fun _ => ⟨_, rfl⟩⟩
    | true =>
      rw [bind_of_ok (malloc_ok hA), insertNullCheck_loc]
      constructor
      · intro hrun
        exact absurd hrun (stores_null (v := fun _ => .ptr (.base h.next)))
      · intro ⟨cs', hcs', hno⟩
        obtain rfl := Option.some.inj hcs'
        rw [hA] at hno
        cases hno

/-- `get_S_f` with no place for the result. -/
theorem getGetter_null_iff (hself : Self ≠ .null) :
    (∃ h', E.getGetter S f Self .null h = .ok (false, h')) ↔
      f.isRepeated = true ∧ f.isMutable = false ∧ ∃ n, E.countIn S h Self f = some n ∧
        E.alloc.succeeds h.calls (E.sizeFor f n).toNat = false := by
  unfold getGetter countIn
  rw [insertNullCheck_of_left _ _ hself]
  cases hcs : h.read (E.structGEP S Self f) (E.layout.storeSize f.type) with
  | none =>
    rw [bind_of_error (loadTy_none hcs)]
    constructor
    · intro ⟨h', hrun⟩
      cases hrun
    · intro ⟨_, _, n, hn, _⟩
      cases hn
  | some cs =>
    rw [bind_of_ok (loadTy_some hcs)]
    split
    · next hs =>
      -- whatever the nested functions do, the copy is stored through NULL
      obtain ⟨hs, -⟩ := Bool.and_eq_true_iff.mp hs
      constructor
      · intro ⟨h', hrun⟩
        obtain ⟨q, h₁, -, hrun⟩ := bind_eq_ok hrun
        exact absurd ⟨h', hrun⟩ (stores_null (v := Val.ptr))
      · intro ⟨hr, _⟩
        rw [(wf.array_spec hf hr).2.2.1] at hs
        cases hs
    · split
      · next hr =>
        obtain ⟨hr, hm⟩ := Bool.and_eq_true_iff.mp hr
        rw [copyArray_null_iff wf hf hr]
        constructor
        · intro ⟨cs', hcs', hA⟩
          exact ⟨hr, by simpa using hm, _, by rw [hcs']; rfl, hA⟩
        · intro ⟨_, _, n, hn, hA⟩
          obtain ⟨cs', hcs', rfl⟩ := Option.map_eq_some_iff.mp hn
          exact ⟨cs', hcs', hA⟩
      · next hr =>
        constructor
        · intro ⟨h', hrun⟩
          cases hrun
        · intro ⟨hrep, hm, _⟩
          exact absurd (by simp [hrep, hm]) hr

/-- `get_S_f_item` with no place for the result. -/
theorem getItemGetter_null_iff (hr : f.isRepeated = true) (hself : Self ≠ .null) :
    (∃ h', E.getItemGetter S f Self IDX .null h = .ok (false, h')) ↔
      ∃ n, E.countIn S h Self f = some n ∧ ¬ IDX < n := by
  obtain ⟨ht, -, -, -, hd, -⟩ := wf.array_spec hf hr
  have hpt := wf.pointee hf hr
  unfold getItemGetter countIn
  simp only [hpt, hd]
  rw [insertNullCheck_of_left _ _ hself]
  cases hcs : h.read (E.structGEP S Self f) (E.layout.storeSize f.type) with
  | none =>
    rw [bind_of_error (loadTy_none hcs)]
    constructor
    · intro ⟨h', hrun⟩
      cases hrun
    · intro ⟨n, hn, _⟩
      cases hn
  | some cs =>
    rw [bind_of_ok (loadTy_some hcs)]
    cases hn : h.read (E.structGEP S Self (S.countOf f)) 8 with
    | none =>
      rw [bind_of_error (loadI64_none hn)]
      constructor
      · intro ⟨h', hrun⟩
        cases hrun
      · intro ⟨n, hn, _⟩
        cases hn
    | some cn =>
      rw [bind_of_ok (loadI64_some hn)]
      split
      · next hlt =>
        constructor
        · intro hrun
          exact absurd hrun (stores_null (v := fun v => v))
        · intro ⟨n, hn', hge⟩
          obtain rfl := Option.some.inj hn'
          exact absurd hlt hge
      · next hge => exact ⟨fun _ => ⟨_, rfl, hge⟩, fun _ => ⟨_, rfl⟩⟩

omit wf hf in
/-- The getters read the struct before they find out that it is not there. -/
theorem getGetter_of_null (hout : OutVal ≠ .null) :
    E.getGetter S f .null OutVal h = .error .access := by
  unfold getGetter
  rw [insertNullCheck_of_right _ _ hout, bind_of_error (loadField_null _)]

theorem getItemGetter_of_null (hr : f.isRepeated = true) (hout : OutVal ≠ .null) :
    E.getItemGetter S f .null IDX OutVal h = .error .access := by
  obtain ⟨ht, -, -, -, hd, -⟩ := wf.array_spec hf hr
  have hpt := wf.pointee hf hr
  unfold getItemGetter
  simp only [hpt, hd]
  rw [insertNullCheck_of_right _ _ hout, bind_of_error (loadField_null _)]

end Getters

/-! ## Functions with one pointer -/

theorem getSetter_of_null (ToInsert : Val) (n : I64) :
    E.getSetter S f .null ToInsert n h = .ok (false, h) := by
  rw [getSetter, insertNullCheck_null, pure_apply]

theorem getItemSetter_of_null (wf : S.WellFormed) (hf : f ∈ S.fields) (hr : f.isRepeated = true)
    (v : Val) : E.getItemSetter S f .null IDX v h = .ok (false, h) := by
  obtain ⟨ht, -, -, -, hd, -⟩ := wf.array_spec hf hr
  have hpt := wf.pointee hf hr
  unfold getItemSetter
  simp only [hpt, hd]
  rw [insertNullCheck_null, pure_apply]

theorem getSerializer_of_null : E.getSerializer S .null h = .ok (.null, h) := by
  have hrun : E.serializeWithIDX S .null h = .ok ((.null, 0), h) := by
    rw [serializeWithIDX, insertNullCheck_null, pure_apply]
  rw [getSerializer, bind_of_ok hrun]
  rfl

end Env

/-! ## Main result -/

open Env

/-- A call with a NULL argument is rejected without an access through it exactly when both
    pointers of a getter are NULL, the function has one pointer and checks it before it loads
    anything, or a getter gives up before it writes the result. -/
theorem rejectsNull_iff {E : Env} {S : Struct} (wf : S.WellFormed) (h : Heap) (q : Request)
    (hq : q.Generated S) (hnull : .null ∈ q.pointers) : E.RejectsNull S h q ↔ E.Caught S h q := by
  cases q with
  | get f Self OutVal =>
    by_cases hself : Self = .null
    · subst hself
      by_cases hout : OutVal = .null
      · subst hout
        refine ⟨fun _ => Or.inl ⟨rfl, rfl⟩, fun _ => ⟨h, ?_⟩⟩
        rw [getGetter, insertNullCheck_null_null, pure_apply]
      · refine ⟨fun ⟨h', hrun⟩ => ?_, fun hc => ?_⟩
        · rw [getGetter_of_null hout] at hrun
          cases hrun
        · exact absurd rfl (hc.resolve_left fun hb => hout hb.2).1
    · obtain rfl : OutVal = .null := by
        rcases List.mem_pair.mp hnull with he | he
        · exact absurd he.symm hself
        · exact he.symm
      refine (getGetter_null_iff wf hq hself).trans ⟨fun hc => Or.inr ⟨hself, hc⟩, fun hc => ?_⟩
      exact (hc.resolve_left fun hb => hself hb.1).2
  | getItem f Self IDX OutVal =>
    obtain ⟨hf, hr⟩ := hq
    by_cases hself : Self = .null
    · subst hself
      by_cases hout : OutVal = .null
      · subst hout
        obtain ⟨ht, -, -, -, hd, -⟩ := wf.array_spec hf hr
        have hpt := wf.pointee hf hr
        refine ⟨fun _ => Or.inl ⟨rfl, rfl⟩, fun _ => ⟨h, ?_⟩⟩
        unfold getItemGetter
        simp only [hpt, hd]
        rw [insertNullCheck_null_null, pure_apply]
      · refine ⟨fun ⟨h', hrun⟩ => ?_, fun hc => ?_⟩
        · rw [getItemGetter_of_null wf hf hr hout] at hrun
          cases hrun
        · exact absurd rfl (hc.resolve_left fun hb => hout hb.2).1
    · obtain rfl : OutVal = .null := by
        rcases List.mem_pair.mp hnull with he | he
        · exact absurd he.symm hself
        · exact he.symm
      refine (getItemGetter_null_iff wf hf hr hself).trans
        ⟨fun hc => Or.inr ⟨hself, hc⟩, fun hc => ?_⟩
      exact (hc.resolve_left fun hb => hself hb.1).2
  | set f Self ToInsert NumElts =>
    obtain rfl := List.mem_singleton.mp hnull
    exact ⟨fun _ => trivial, fun _ => ⟨h, getSetter_of_null ToInsert NumElts⟩⟩
  | setItem f Self IDX ValToSet =>
    obtain rfl := List.mem_singleton.mp hnull
    exact ⟨fun _ => trivial, fun _ => ⟨h, getItemSetter_of_null wf hq.1 hq.2 ValToSet⟩⟩
  | serialize Self =>
    obtain rfl := List.mem_singleton.mp hnull
    exact ⟨fun _ => trivial, fun _ => ⟨h, getSerializer_of_null⟩⟩
  | deserialize SerializedSelf =>
    obtain rfl := List.mem_singleton.mp hnull
    refine ⟨fun ⟨h', hrun⟩ => ?_, fun hc => hc.elim⟩
    rw [getDeserializer_of_null] at hrun
    cases hrun

/-- The `idx` of a `path`. -/
def pathIdx : Field := pathStruct.fields.getD 0 default

theorem rejectsNull_iff_path :
    ((Env.ofStruct .calloc .default pathStruct).RejectsNull pathStruct ⟨[], 0⟩
        (.get pathIdx .null .null) ↔
      (Env.ofStruct .calloc .default pathStruct).Caught pathStruct ⟨[], 0⟩
        (.get pathIdx .null .null)) ∧
    ((Env.ofStruct .calloc .default pathStruct).RejectsNull pathStruct ⟨[], 0⟩
        (.deserialize .null) ↔
      (Env.ofStruct .calloc .default pathStruct).Caught pathStruct ⟨[], 0⟩
        (.deserialize .null)) := by
  have wf := pathStruct_isFlat.toWellFormed
  have hidx : pathIdx ∈ pathStruct.fields := by decide
  exact ⟨rejectsNull_iff wf ⟨[], 0⟩ (.get pathIdx .null .null) hidx List.mem_cons_self,
    rejectsNull_iff wf ⟨[], 0⟩ (.deserialize .null) trivial List.mem_cons_self⟩

/-- Room for an `int32`. -/
def outBlock : Block := ⟨encodeInt false 4 0, by decide⟩

/-- `get_path_idx(NULL, out)` reads from NULL, and so does `deserialize_path(NULL)`. -/
theorem null_dereferenced :
    ¬ (Env.ofStruct .calloc .default pathStruct).RejectsNull pathStruct ⟨[some outBlock], 0⟩
      (.get pathIdx .null (.base 0)) ∧
    ¬ (Env.ofStruct .calloc .default pathStruct).RejectsNull pathStruct ⟨[], 0⟩
      (.deserialize .null) := by
  constructor
  · intro ⟨h', hrun⟩
    rw [getGetter_of_null (by decide)] at hrun
    cases hrun
  · intro ⟨h', hrun⟩
    rw [getDeserializer_of_null] at hrun
    cases hrun

end Tyr
