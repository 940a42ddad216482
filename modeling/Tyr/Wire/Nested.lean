import Tyr.Wire.RoundTrip

/-
  `serialize_S` on structs with struct-typed fields.

  A struct-typed field is copied out of the buffer its own struct's serializer returns,
  header included, and the struct is sized by the pointer it holds. `Env.link` is a module
  of several structs (a field's struct is declared earlier; the serializer is looked up
  under that struct's name). On a populated struct, whatever its depth,
  `serializeWithIDX_eq_ok`: a run that ends normally has written `totalWritten` bytes to a
  block of `exactSize` bytes whose header says `exactSize`. `serializeWithIDX_fits`: it
  ends normally when the first is not more than the second.

  The two agree exactly when every struct a field points at is 8 bytes on the wire, which is
  a header alone: `sizes_agree_iff`.
-/

namespace Tyr

open Prog

/-! ## Modules of several structs -/

/-- The name of the struct that `t` points at. -/
def pointeeName (t : Ty) : Option String := t.getPointerElementType.bind Ty.getStructName

namespace Env

/-- `serialize_<name>` and `deserialize_<name>` by the type of the field that calls them.
    The structs are listed latest first; one calls the functions of earlier ones only. -/
def linked (E : Env) : List Struct → (Ty → Ptr → Prog Ptr) × (Ty → Ptr → Prog Ptr)
  | [] => (fun _ _ => fault .invalid, fun _ _ => fault .invalid)
  | S :: earlier =>
    let calls := linked E earlier
    let E' : Env := { E with serializeStruct := calls.1, deserializeStruct := calls.2 }
    (fun t p => if pointeeName t = some S.name then E'.getSerializer S p else calls.1 t p,
     fun t p => if pointeeName t = some S.name then E'.getDeserializer S p else calls.2 t p)

/-- What the code of a struct declared after `Ss` calls. -/
def link (E : Env) (Ss : List Struct) : Env :=
  { E with serializeStruct := (E.linked Ss).1, deserializeStruct := (E.linked Ss).2 }

/-- The functions of all structs, in one module. -/
def ofModule (A : Allocator) (DL : DataLayout) (Ss : List Struct) : Env where
  alloc := A
  layout := DL
  getFunction := lookupFunction (Ss.flatMap generatedFunctions)
  serializeStruct := fun _ _ => fault .invalid
  deserializeStruct := fun _ _ => fault .invalid

/-! ## Sizes -/

variable (E : Env) (S : Struct)

/-- What the serializer of `f` returns, when `size` gives the size of the struct a pointer
    points at. -/
def written (size : Ty → Ptr → Nat) (blk : Block) (f : Field) : Nat :=
  if f.isStruct then size f.type (E.ptrAt S blk f) else f.onWire (E.exactFieldSize S blk f)

/-- What `serialize_S` writes, header included. -/
def totalWritten (size : Ty → Ptr → Nat) (blk : Block) : Nat :=
  8 + (S.fields.map (E.written S size blk)).sum

/-- Exact size of the serialized form of the struct at `p`. -/
def nestedSize : List Struct → Heap → Ty → Ptr → Nat
  | [], _, _, _ => 0
  | S :: earlier, h, t, p =>
    if pointeeName t = some S.name then
      match p with
      | .loc b _ => ((h.block? b).map (E.exactSize S)).getD 0
      | _ => 0
    else nestedSize earlier h t p

/-- A struct object with nothing missing: its arrays can be read, its struct-typed fields
    point at `populated` objects, and what it writes is below `2 ^ 64` bytes. -/
structure Object (h : Heap) (blk : Block) (size : Ty → Ptr → Nat)
    (populated : Ty → Ptr → Prop) : Prop where
  valid : E.Valid S h blk
  fits : E.totalWritten S size blk < 2 ^ 64
  nested : ∀ f ∈ S.fields, f.isStruct = true → populated f.type (E.ptrAt S blk f)

/-- `p` points at a fully populated object of the struct `t` points at. -/
def Populated : List Struct → Heap → Ty → Ptr → Prop
  | [], _, _, _ => False
  | S :: earlier, h, t, p =>
    if pointeeName t = some S.name then
      ∃ b blk, p = .base b ∧ h.block? b = some blk ∧
        E.Object S h blk (E.nestedSize earlier h) (Populated earlier h)
    else Populated earlier h t p

variable {E S} {size : Ty → Ptr → Nat} {blk : Block} {f : Field}

/-- A struct-typed field is a pointer. -/
theorem struct_spec (wf : S.WellFormed) (hf : f ∈ S.fields) (hs : f.isStruct = true) :
    f.isRepeated = false ∧ f.isCount = false ∧ ∃ t, f.type = .ptr t := by
  cases wf.kind f hf with
  | plain hs' hr hc ht => exact ⟨hr, hc, Ty.exists_pointee (hs'.symm.trans hs)⟩
  | count r hs' => rw [hs] at hs'; cases hs'
  | array t c hs' => rw [hs] at hs'; cases hs'

/-- The size a struct-typed field is given in the buffer. -/
theorem exactFieldSize_struct (hptr : ∀ t, E.layout.allocSize (.ptr t) = 8) (wf : S.WellFormed)
    (hf : f ∈ S.fields) (hs : f.isStruct = true) : E.exactFieldSize S blk f = 8 := by
  obtain ⟨hr, -, t, ht⟩ := struct_spec wf hf hs
  rw [exactFieldSize, hr, ht]
  exact hptr t

theorem exactFieldSize_count (wf : S.WellFormed) (hf : f ∈ S.fields) (hc : f.isCount = true) :
    E.exactFieldSize S blk f = 8 := by
  obtain ⟨ht, -, hr, -⟩ := wf.count_spec hf hc
  simp [exactFieldSize, hr, ht]

theorem written_le_totalWritten (blk : Block) (hf : f ∈ S.fields) :
    8 + E.written S size blk f ≤ E.totalWritten S size blk :=
  Nat.add_le_add_left (List.le_sum_of_mem (List.mem_map_of_mem hf)) 8

/-- `exactSize` as a sum over what the fields are given. -/
theorem exactSize_eq_sum (wf : S.WellFormed) (blk : Block) :
    E.exactSize S blk =
      8 + (S.fields.map fun f => f.onWire (E.exactFieldSize S blk f)).sum := by
  rw [exactSize, sum_wire wf fun f hf hc => exactFieldSize_count wf hf hc]

/-- Every field is given some room. -/
theorem exactSize_eq_iff (wf : S.WellFormed) :
    E.exactSize S blk = 8 ↔ S.fields = [] := by
  constructor
  · intro h
    by_contra hne
    obtain ⟨f, hf⟩ := List.exists_mem_of_ne_nil _ hne
    have hpos : ∃ g ∈ S.fields, 0 < E.exactFieldSize S blk g := by
      cases hr : f.isRepeated with
      | true =>
        have hcm := wf.countOf_mem hf hr
        have hcc := (wf.array_spec hf hr).2.2.2.2.2.2.1
        exact ⟨_, hcm, by rw [exactFieldSize_count wf hcm hcc]; decide⟩
      | false =>
        cases hc : f.isCount with
        | true => exact ⟨f, hf, by rw [exactFieldSize_count wf hf hc]; decide⟩
        | false =>
          refine ⟨f, hf, ?_⟩
          rw [exactFieldSize, hr]
          exact E.layout.allocSize_element_pos (wf.plain_spec hf hr hc).2
    obtain ⟨g, hg, hpos⟩ := hpos
    have hle := exactFieldSize_le (E := E) blk hg
    omega
  · intro h
    rw [exactSize, h]
    rfl

section Sums

variable (hptr : ∀ t, E.layout.allocSize (.ptr t) = 8) (wf : S.WellFormed)
include hptr wf

theorem written_eq_iff (hf : f ∈ S.fields) (hs : f.isStruct = true) :
    E.written S size blk f = f.onWire (E.exactFieldSize S blk f) ↔
      size f.type (E.ptrAt S blk f) = 8 := by
  obtain ⟨hr, hc, -⟩ := struct_spec wf hf hs
  rw [written, if_pos hs, Field.onWire, hc, hr, exactFieldSize_struct hptr wf hf hs]
  rfl

variable (h8 : ∀ f ∈ S.fields, f.isStruct = true → 8 ≤ size f.type (E.ptrAt S blk f))
include h8

theorem onWire_le_written (hf : f ∈ S.fields) :
    f.onWire (E.exactFieldSize S blk f) ≤ E.written S size blk f := by
  unfold written
  split
  · next hs =>
    obtain ⟨hr, hc, -⟩ := struct_spec wf hf hs
    simp only [Field.onWire, hc, hr, Bool.false_eq_true, if_false]
    rw [exactFieldSize_struct hptr wf hf hs]
    exact h8 f hf hs
  · exact Nat.le_refl _

/-- No less is written than fits. -/
theorem exactSize_le_totalWritten : E.exactSize S blk ≤ E.totalWritten S size blk := by
  rw [exactSize_eq_sum wf, totalWritten]
  exact Nat.add_le_add_left
    (List.sum_le_sum fun f hf => onWire_le_written hptr wf h8 hf) 8

/-- No more is written than fits exactly when every nested struct is as large as a pointer. -/
theorem totalWritten_le_iff : E.totalWritten S size blk ≤ E.exactSize S blk ↔
    ∀ f ∈ S.fields, f.isStruct = true → size f.type (E.ptrAt S blk f) = 8 := by
  rw [exactSize_eq_sum wf, totalWritten]
  constructor
  · intro hle f hf hs
    have hlt : ¬ f.onWire (E.exactFieldSize S blk f) < E.written S size blk f := by
      intro hlt
      have hsum : (S.fields.map fun f => f.onWire (E.exactFieldSize S blk f)).sum <
          (S.fields.map (E.written S size blk)).sum :=
        List.sum_lt_sum _ _ (fun g hg => onWire_le_written hptr wf h8 hg) ⟨f, hf, hlt⟩
      omega
    have heq := Nat.le_antisymm (Nat.not_lt.mp hlt) (onWire_le_written hptr wf h8 hf)
    exact (written_eq_iff hptr wf hf hs).mp heq
  · intro h
    apply Nat.le_of_eq
    congr 2
    apply List.map_congr_left
    intro f hf
    cases hs : f.isStruct with
    | true => exact (written_eq_iff hptr wf hf hs).mpr (h f hf hs)
    | false => simp only [written, hs, Bool.false_eq_true, if_false]

end Sums

/-! ## Runs of the serializer -/

/-- The result `q` of a serializer run from `g` to `g'`: a new block of `n` bytes with its
    size in front. -/
def Delivers (E : Env) (g : Heap) (q : Ptr) (g' : Heap) (n : Nat) : Prop :=
  ∃ r buf, q = .base r ∧ g.next ≤ r ∧ g'.block? r = some buf ∧ buf.cells.length = n ∧
    slice buf.cells 0 8 = E.encodeI64 (BitVec.ofNat 64 n) ∧ g.Extends g'

/-- Serializing the struct at `p` gives `n` bytes, from any heap that extends `h`. -/
def Serializes (E : Env) (h : Heap) (t : Ty) (p : Ptr) (n : Nat) : Prop :=
  ∀ g q g', h.Extends g → E.serializeStruct t p g = .ok (q, g') → E.Delivers g q g' n

/-- Blocks from `g₀` on, the buffer among them, are unchanged in `g'` but for the buffer,
    which has kept its first `o` bytes. -/
structure Progress (g₀ : Heap) (r : Nat) (out : Block) (o : Nat) (g' : Heap) : Prop where
  extend : g₀.Extends g'
  buffer : ∃ out', g'.block? r = some out' ∧ out'.cells.length = out.cells.length ∧
    slice out'.cells 0 o = slice out.cells 0 o

section Runs

variable {h g₀ g g' : Heap} {b r : Nat} {out : Block} {o v : I64}

theorem Progress.overwrite (he : g₀.Extends g) (hr : g₀.next ≤ r) (hout : g.block? r = some out)
    {o : Nat} {w : List Cell} (hfit : o + w.length ≤ out.cells.length) :
    Progress g₀ r out o (g.update r (out.overwrite o w)) where
  extend := he.update hr _
  buffer := by
    refine ⟨_, Heap.block?_update_self hout _, Block.length_overwrite _ _ _, ?_⟩
    rw [Block.overwrite_cells hfit]
    exact slice_splice_disjoint hfit (.inl (by omega))

theorem Progress.trans {g₁ g₂ : Heap} {out₁ : Block} {o o' : Nat} (hp : Progress g₀ r out o g₁)
    (hout : g₁.block? r = some out₁) (hp' : Progress g₀ r out₁ o' g₂) (hle : o ≤ o') :
    Progress g₀ r out o g₂ where
  extend := hp'.extend
  buffer := by
    obtain ⟨x, hx, hlen, hkeep⟩ := hp.buffer
    obtain ⟨y, hy, hlen', hkeep'⟩ := hp'.buffer
    rw [hout] at hx
    cases hx
    have hsub : slice y.cells 0 o = slice out₁.cells 0 o := by
      have h := congrArg (slice · 0 o) hkeep'
      rwa [slice_slice (by omega), slice_slice (by omega)] at h
    exact ⟨y, hy, hlen'.trans hlen, hsub.trans hkeep⟩

/-- The serializer of a struct-typed field copies what the nested serializer delivers. -/
theorem fieldSerializer_struct (wf : S.WellFormed) (hl : g.block? b = some blk)
    (hb : E.Holds S blk) (hf : f ∈ S.fields) (hs : f.isStruct = true) {n : Nat}
    (hn : n < 2 ^ 64) (h8 : 8 ≤ n) (he : g₀.Extends g) (hr : g₀.next ≤ r)
    (hout : g.block? r = some out) {q : Ptr} {g₁ : Heap}
    (hrun : E.serializeStruct f.type (E.ptrAt S blk f) g = .ok (q, g₁))
    (hdel : E.Delivers g q g₁ n) :
    if o.toNat + n ≤ out.cells.length then
      ∃ g', E.fieldSerializer S f (.base b) (.loc r o) g = .ok (BitVec.ofNat 64 n, g') ∧
        Progress g₀ r out o.toNat g'
    else E.fieldSerializer S f (.base b) (.loc r o) g = .error .access := by
  obtain ⟨s, buf, rfl, hge, hbuf, hlen, hhead, he₁⟩ := hdel
  have hv : (E.decode f.type (E.slot S blk f)).asPtr = E.ptrAt S blk f := rfl
  have hto : (BitVec.ofNat 64 n : I64).toNat = n := by
    rw [BitVec.toNat_ofNat]
    exact Nat.mod_eq_of_lt hn
  have hload : E.loadI64 (.base s) g₁ = .ok (BitVec.ofNat 64 n, g₁) := by
    rw [loadI64_ok hbuf (by rw [hlen]; exact h8)]
    show Except.ok (E.decodeI64 (slice buf.cells 0 8), g₁) = _
    rw [hhead, decodeI64_encodeI64]
  have hread : g₁.Readable (.base s) (BitVec.ofNat 64 n : I64).toNat := by
    right
    have hz : (0 : I64).toNat + n ≤ buf.cells.length := by
      rw [hlen]
      exact Nat.le_of_eq (Nat.zero_add n)
    rw [hto, Heap.read_loc hbuf hz]
    rfl
  have hout₁ := he₁.block?_some hout
  have hsr : s ≠ r := Nat.ne_of_gt (Nat.lt_of_lt_of_le (Heap.lt_next hout) hge)
  rw [fieldSerializer, insertNullCheck_loc, bind_of_ok (loadTy_slot wf hl hb hf), hv]
  simp only [hs, if_true]
  rw [bind_of_ok hrun, bind_of_ok hload]
  split
  · next hfit =>
    have hw := Heap.length_bytesAt hread
    rw [hto] at hw
    rw [bind_of_ok (memcpy_ok hread hout₁ (by rw [hto]; exact hfit)), hto]
    set w := g₁.bytesAt (.base s) n with hwdef
    have hp : Progress g₀ r out o.toNat (g₁.update r (out.overwrite o.toNat w)) :=
      Progress.overwrite (he.trans he₁) hr hout₁ (by rw [hw]; exact hfit)
    have hbuf₂ : (g₁.update r (out.overwrite o.toNat w)).block? s = some buf := by
      rw [Heap.block?_update_ne _ hsr, hbuf]
    rw [bind_of_ok (free_ok hbuf₂), pure_apply]
    obtain ⟨out', hout', hlen', hkeep⟩ := hp.buffer
    refine ⟨_, rfl, hp.extend.kill (Nat.le_trans he.next_le hge), out', ?_, hlen', hkeep⟩
    rw [Heap.block?_kill_ne _ hsr.symm, hout']
  · next hfit =>
    have hn0 : (BitVec.ofNat 64 n : I64) ≠ 0 := by
      intro h0
      have hz := congrArg BitVec.toNat h0
      rw [hto] at hz
      have : (0 : I64).toNat = 0 := rfl
      omega
    exact bind_of_error (memcpy_overflow hread hn0 hout₁ (by rw [hto]; omega))

theorem fieldSerializer_struct_error (wf : S.WellFormed) (hl : g.block? b = some blk)
    (hb : E.Holds S blk) (hf : f ∈ S.fields) (hs : f.isStruct = true) {e : Fault}
    (hrun : E.serializeStruct f.type (E.ptrAt S blk f) g = .error e) :
    E.fieldSerializer S f (.base b) (.loc r o) g = .error e := by
  have hv : (E.decode f.type (E.slot S blk f)).asPtr = E.ptrAt S blk f := rfl
  rw [fieldSerializer, insertNullCheck_loc, bind_of_ok (loadTy_slot wf hl hb hf), hv]
  simp only [hs, if_true]
  exact bind_of_error hrun

theorem wireSize_toNat (hsize : E.exactSize S blk < 2 ^ 64) (hf : f ∈ S.fields)
    (hc : f.isCount = false) :
    (E.wireSize S blk f).toNat = f.onWire (E.exactFieldSize S blk f) := by
  have hle := exactFieldSize_le (E := E) blk hf
  have h8 : (8 : I64).toNat = 8 := rfl
  have hto := fieldSizeAt_toNat hsize hf
  unfold wireSize Field.onWire
  cases hr : f.isRepeated with
  | true =>
    simp only [hc, Bool.false_eq_true, if_false, if_true, BitVec.toNat_add, hto, h8]
    exact Nat.mod_eq_of_lt (by omega)
  | false =>
    simp only [hc, Bool.false_eq_true, if_false]
    exact hto

section Object

variable (hLE : E.layout.bigEndian = false) (hptr : ∀ t, E.layout.allocSize (.ptr t) = 8)
  (wf : S.WellFormed) (hfun : Resolves E S) (hl : h.block? b = some blk)
  (hv : E.Valid S h blk) (hfits : E.totalWritten S size blk < 2 ^ 64)
  (hnest : ∀ f ∈ S.fields, f.isStruct = true → 8 ≤ size f.type (E.ptrAt S blk f) ∧
    E.Serializes h f.type (E.ptrAt S blk f) (size f.type (E.ptrAt S blk f)))
include hLE hptr wf hl hv hfits hnest

/-- A field serializer that ends normally returns what it has written. -/
theorem fieldSerializer_eq_ok (he₀ : h.Extends g₀) (he : g₀.Extends g) (hr : g₀.next ≤ r)
    (hout : g.block? r = some out) (hf : f ∈ S.fields) (hc : f.isCount = false)
    (hrun : E.fieldSerializer S f (.base b) (.loc r o) g = .ok (v, g')) :
    v.toNat = E.written S size blk f ∧ Progress g₀ r out o.toNat g' := by
  have hle := exactSize_le_totalWritten hptr wf fun f hf hs => (hnest f hf hs).1
  have hsize : E.exactSize S blk < 2 ^ 64 := Nat.lt_of_le_of_lt hle hfits
  have hread := hv.readable hsize
  have heh := he₀.trans he
  cases hs : f.isStruct with
  | true =>
    obtain ⟨h8, hser⟩ := hnest f hf hs
    have hn : 8 + E.written S size blk f ≤ E.totalWritten S size blk :=
      written_le_totalWritten blk hf
    rw [written, if_pos hs] at hn ⊢
    have hlt : size f.type (E.ptrAt S blk f) < 2 ^ 64 := by omega
    cases hcall : E.serializeStruct f.type (E.ptrAt S blk f) g with
    | error e =>
      rw [fieldSerializer_struct_error wf (heh.block?_some hl) hv.holds hf hs hcall] at hrun
      cases hrun
    | ok p =>
      have h := fieldSerializer_struct (o := o) wf (heh.block?_some hl) hv.holds hf hs hlt h8 he hr
        hout hcall (hser g p.1 p.2 heh hcall)
      split at h
      · obtain ⟨g₂, hok, hp⟩ := h
        rw [hok] at hrun
        cases hrun
        exact ⟨Nat.mod_eq_of_lt hlt, hp⟩
      · rw [h] at hrun
        cases hrun
  | false =>
    have hw := length_wireBytes hread hf
    have hwritten : E.written S size blk f = (E.wireSize S blk f).toNat := by
      rw [wireSize_toNat hsize hf hc, written, if_neg (by rw [hs]; decide)]
    rw [hwritten]
    cases hrep : f.isRepeated with
    | true =>
      rw [fieldSerializer_array hLE wf hl hv.holds hf hrep (hread f hf hrep) heh
        (Nat.le_trans he₀.next_le hr) hout] at hrun
      simp only [hrep, if_true] at hw
      split at hrun
      · next hfit =>
        cases hrun
        exact ⟨rfl, Progress.overwrite he hr hout (by rw [hw]; exact hfit)⟩
      · cases hrun
    | false =>
      rw [fieldSerializer_scalar hLE wf hl hv.holds hf hrep hs (not_pointer wf hf hs hrep) heh
        hout] at hrun
      simp only [hrep, Bool.false_eq_true, if_false] at hw
      split at hrun
      · next hfit =>
        cases hrun
        exact ⟨rfl, Progress.overwrite he hr hout (by rw [hw]; exact hfit)⟩
      · cases hrun

/-- It ends normally when there is room and the nested serializer does. -/
theorem fieldSerializer_fits (he₀ : h.Extends g₀) (he : g₀.Extends g) (hr : g₀.next ≤ r)
    (hout : g.block? r = some out) (hf : f ∈ S.fields) (hc : f.isCount = false)
    (hcall : f.isStruct = true → ∃ q g₁, E.serializeStruct f.type (E.ptrAt S blk f) g = .ok (q, g₁))
    (hroom : o.toNat + E.written S size blk f ≤ out.cells.length) :
    ∃ v g', E.fieldSerializer S f (.base b) (.loc r o) g = .ok (v, g') := by
  have hle := exactSize_le_totalWritten hptr wf fun f hf hs => (hnest f hf hs).1
  have hsize : E.exactSize S blk < 2 ^ 64 := Nat.lt_of_le_of_lt hle hfits
  have hread := hv.readable hsize
  have heh := he₀.trans he
  cases hs : f.isStruct with
  | true =>
    obtain ⟨h8, hser⟩ := hnest f hf hs
    have hn : 8 + E.written S size blk f ≤ E.totalWritten S size blk :=
      written_le_totalWritten blk hf
    rw [written, if_pos hs] at hn hroom
    obtain ⟨q, g₁, hq⟩ := hcall hs
    have h := fieldSerializer_struct (o := o) wf (heh.block?_some hl) hv.holds hf hs (by omega) h8
      he hr hout hq (hser g q g₁ heh hq)
    rw [if_pos hroom] at h
    obtain ⟨g', hok, -⟩ := h
    exact ⟨_, g', hok⟩
  | false =>
    have hw := length_wireBytes_le wf hv.holds hread hf hc
    rw [length_wireBytes hread hf] at hw
    rw [written, if_neg (by rw [hs]; decide), ← fieldSizeAt_toNat hsize hf] at hroom
    unfold wireNat at hw
    cases hrep : f.isRepeated with
    | true =>
      simp only [hrep, if_true] at hw
      rw [fieldSerializer_array hLE wf hl hv.holds hf hrep (hread f hf hrep) heh
        (Nat.le_trans he₀.next_le hr) hout, if_pos (by omega)]
      exact ⟨_, _, rfl⟩
    | false =>
      simp only [hrep, Bool.false_eq_true, if_false] at hw
      rw [fieldSerializer_scalar hLE wf hl hv.holds hf hrep hs (not_pointer wf hf hs hrep) heh
        hout, if_pos (by omega)]
      exact ⟨_, _, rfl⟩

include hfun

/-- The serializers of `fs`, called one after the other. -/
theorem serializeEntries_eq_ok (he₀ : h.Extends g₀) (hr : g₀.next ≤ r) :
    ∀ (fs : List Field) (idx idx' : I64) (g : Heap) (out : Block), (∀ f ∈ fs, f ∈ S.fields) →
      g₀.Extends g → g.block? r = some out →
      idx.toNat + (fs.map (E.written S size blk)).sum < 2 ^ 64 →
      E.serializeEntries S (.base b) (.base r) fs idx g = .ok (idx', g') →
      idx'.toNat = idx.toNat + (fs.map (E.written S size blk)).sum ∧
        Progress g₀ r out idx.toNat g'
  | [], idx, idx', g, out, _, he, hout, _, hrun => by
    rw [serializeEntries, pure_apply] at hrun
    cases hrun
    exact ⟨rfl, he, out, hout, rfl, rfl⟩
  | f :: fs, idx, idx', g, out, hm, he, hout, hlt, hrun => by
    have hf := hm f List.mem_cons_self
    have hm' : ∀ g ∈ fs, g ∈ S.fields := fun g hg => hm g (List.mem_cons_of_mem f hg)
    rw [List.map_cons, List.sum_cons] at hlt ⊢
    rw [serializeEntries] at hrun
    cases hc : f.isCount with
    | true =>
      have hw : E.written S size blk f = 0 := by
        rw [written, if_neg (by rw [(wf.count_spec hf hc).2.1]; decide), Field.onWire, if_pos hc]
      simp only [hc, if_true] at hrun
      rw [hw, Nat.zero_add] at hlt ⊢
      exact serializeEntries_eq_ok he₀ hr fs idx idx' g out hm' he hout hlt hrun
    | false =>
      simp only [hc, Bool.false_eq_true, if_false, hfun.serializer hf hc] at hrun
      obtain ⟨v, g₁, hstep, hrun⟩ := bind_eq_ok hrun
      rw [Ptr.add_loc, show (0 : I64) + idx = idx from BitVec.zero_add idx] at hstep
      obtain ⟨hval, hp⟩ := fieldSerializer_eq_ok hLE hptr wf hl hv hfits hnest he₀ he hr hout hf hc
        hstep
      obtain ⟨out₁, hout₁, hlen, hkeep⟩ := hp.buffer
      have hidx : (idx + v).toNat = idx.toNat + E.written S size blk f := by
        rw [BitVec.toNat_add, hval]
        exact Nat.mod_eq_of_lt (by omega)
      obtain ⟨hfin, hp'⟩ := serializeEntries_eq_ok he₀ hr fs (idx + v) idx' g₁ out₁ hm' hp.extend
        hout₁ (by omega) hrun
      exact ⟨by omega, hp.trans hout₁ hp' (by omega)⟩

/-- They end normally when there is room and the nested serializers do. -/
theorem serializeEntries_fits (he₀ : h.Extends g₀) (hr : g₀.next ≤ r)
    (hcall : ∀ f ∈ S.fields, f.isStruct = true → ∀ g, h.Extends g →
      ∃ q g₁, E.serializeStruct f.type (E.ptrAt S blk f) g = .ok (q, g₁)) :
    ∀ (fs : List Field) (idx : I64) (g : Heap) (out : Block), (∀ f ∈ fs, f ∈ S.fields) →
      g₀.Extends g → g.block? r = some out →
      idx.toNat + (fs.map (E.written S size blk)).sum ≤ out.cells.length →
      ∃ idx' g', E.serializeEntries S (.base b) (.base r) fs idx g = .ok (idx', g')
  | [], idx, g, out, _, _, _, _ => ⟨idx, g, rfl⟩
  | f :: fs, idx, g, out, hm, he, hout, hroom => by
    have hf := hm f List.mem_cons_self
    have hm' : ∀ g ∈ fs, g ∈ S.fields := fun g hg => hm g (List.mem_cons_of_mem f hg)
    have hlt := out.fits
    rw [List.map_cons, List.sum_cons] at hroom
    rw [serializeEntries]
    cases hc : f.isCount with
    | true =>
      simp only [if_true]
      exact serializeEntries_fits he₀ hr hcall fs idx g out hm' he hout (by omega)
    | false =>
      simp only [Bool.false_eq_true, if_false, hfun.serializer hf hc]
      obtain ⟨v, g₁, hstep⟩ := fieldSerializer_fits (o := idx) hLE hptr wf hl hv hfits hnest he₀ he
        hr hout hf hc (fun hs => hcall f hf hs g (he₀.trans he)) (by omega)
      obtain ⟨hval, hp⟩ := fieldSerializer_eq_ok hLE hptr wf hl hv hfits hnest he₀ he hr hout hf hc
        hstep
      obtain ⟨out₁, hout₁, hlen, -⟩ := hp.buffer
      have hidx : (idx + v).toNat = idx.toNat + E.written S size blk f := by
        rw [BitVec.toNat_add, hval]
        exact Nat.mod_eq_of_lt (by omega)
      rw [Ptr.add_loc, show (0 : I64) + idx = idx from BitVec.zero_add idx, bind_of_ok hstep]
      exact serializeEntries_fits he₀ hr hcall fs (idx + v) g₁ out₁ hm' hp.extend hout₁ (by omega)

omit hfun in
/-- The block that `serialize_S` allocates and fills. -/
theorem serializeWithIDX_eq (he : h.Extends g)
    (hA : ∀ t n, E.alloc.succeeds t n = true) :
    ∃ out : Block, out.cells.length = E.exactSize S blk ∧
      slice out.cells 0 8 = E.encodeI64 (BitVec.ofNat 64 (E.exactSize S blk)) ∧
      E.serializeWithIDX S (.base b) g =
        (do let idx ← E.serializeEntries S (.base b) (.base g.next) S.fields 8
            pure (Ptr.base g.next, idx)) (g.push out) := by
  have hle := exactSize_le_totalWritten hptr wf fun f hf hs => (hnest f hf hs).1
  have hsize : E.exactSize S blk < 2 ^ 64 := Nat.lt_of_le_of_lt hle hfits
  have hge : 8 ≤ E.exactSize S blk := Nat.le_add_right 8 _
  have hser := serializedSize_eq hsize
  set size' : I64 := BitVec.ofNat 64 (E.exactSize S blk) with hsz
  have hto : size'.toNat = E.exactSize S blk := by
    rw [hsz, BitVec.toNat_ofNat]
    exact Nat.mod_eq_of_lt hsize
  have hacc : (8 : I64) + BitVec.ofNat 64 (E.sumSizes S blk S.fields) = size' := by
    rw [ofNat_serializedSize, hser]
  set new := E.alloc.fresh g.calls size' with hnew
  have hlen : new.cells.length = E.exactSize S blk := by
    rw [hnew, Allocator.length_fresh, hto]
  have hroom : (0 : Nat) + (E.encodeI64 size').length ≤ new.cells.length := by
    rw [length_encodeI64, hlen, Nat.zero_add]
    exact hge
  refine ⟨new.overwrite 0 (E.encodeI64 size'), ?_, ?_, ?_⟩
  · rw [Block.length_overwrite, hlen]
  · exact Block.slice_overwrite_self (length_encodeI64 E size')
      (by rwa [length_encodeI64] at hroom)
  · have hswap : E.swapI64 size' = size' := by simp [swapI64, hLE]
    rw [serializeWithIDX, insertNullCheck_loc,
      bind_of_ok (sumAllocSizes_slot wf (he.block?_some hl) hv.holds S.fields 8 (fun _ hf => hf)),
      hacc, bind_of_ok (malloc_ok (hA _ _)), insertNullCheck_loc, hswap, storeI64,
      bind_of_ok (store_ok (Heap.block?_push_self g new) (by simpa using hroom)),
      Heap.update_push_next]
    rfl

/-- A run of `serialize_S` that ends normally. -/
theorem serializeWithIDX_eq_ok (he : h.Extends g) (hA : ∀ t n, E.alloc.succeeds t n = true)
    {q : Ptr} {idx : I64} (hrun : E.serializeWithIDX S (.base b) g = .ok ((q, idx), g')) :
    idx.toNat = E.totalWritten S size blk ∧ E.Delivers g q g' (E.exactSize S blk) := by
  have h8 : (8 : I64).toNat = 8 := rfl
  obtain ⟨out, hlen, hhead, heq⟩ := serializeWithIDX_eq hLE hptr wf hl hv hfits hnest he hA
  rw [heq] at hrun
  obtain ⟨idx₁, g₁, hent, hret⟩ := bind_eq_ok hrun
  rw [pure_apply] at hret
  cases hret
  obtain ⟨hidx, hp⟩ := serializeEntries_eq_ok hLE hptr wf hfun hl hv hfits hnest he (Nat.le_refl _)
    S.fields 8 idx (g.push out) out (fun _ hf => hf) ((Heap.Extends.refl g).push out)
    (Heap.block?_push_self g out) (by rw [h8]; exact hfits) hent
  obtain ⟨buf, hbuf, hlen', hkeep⟩ := hp.buffer
  rw [h8] at hidx hkeep
  exact ⟨hidx, g.next, buf, rfl, Nat.le_refl _, hbuf, hlen'.trans hlen, hkeep.trans hhead,
    hp.extend⟩

/-- It ends normally when no more is written than fits. -/
theorem serializeWithIDX_fits (he : h.Extends g) (hA : ∀ t n, E.alloc.succeeds t n = true)
    (hcall : ∀ f ∈ S.fields, f.isStruct = true → ∀ g, h.Extends g →
      ∃ q g₁, E.serializeStruct f.type (E.ptrAt S blk f) g = .ok (q, g₁))
    (hle : E.totalWritten S size blk ≤ E.exactSize S blk) :
    ∃ q idx g', E.serializeWithIDX S (.base b) g = .ok ((q, idx), g') := by
  have h8 : (8 : I64).toNat = 8 := rfl
  obtain ⟨out, hlen, -, heq⟩ := serializeWithIDX_eq hLE hptr wf hl hv hfits hnest he hA
  obtain ⟨idx, g', hent⟩ := serializeEntries_fits hLE hptr wf hfun hl hv hfits hnest he
    (Nat.le_refl _) hcall S.fields 8 (g.push out) out (fun _ hf => hf)
    ((Heap.Extends.refl g).push out) (Heap.block?_push_self g out)
    (by rw [h8, hlen]; exact hle)
  rw [heq, bind_of_ok hent]
  exact ⟨_, idx, g', rfl⟩

end Object

end Runs

/-! ## Populated structs of any depth -/

section Module

/-- What is in memory does not depend on what is called. -/
theorem Valid.link {h : Heap} (hv : E.Valid S h blk) (Ss : List Struct) :
    (E.link Ss).Valid S h blk := ⟨hv.holds, hv.arrays⟩

variable {Ss : List Struct} {h : Heap} {t : Ty} {p : Ptr}
  (hLE : E.layout.bigEndian = false) (hptr : ∀ t, E.layout.allocSize (.ptr t) = 8)
  (wf : ∀ T ∈ Ss, T.WellFormed) (hfun : ∀ T ∈ Ss, Resolves E T)
  (hA : ∀ t n, E.alloc.succeeds t n = true)
include hLE hptr wf hfun hA

/-- Induction on the declaration order: what a struct-typed field calls delivers the size of
    the struct it points at. -/
theorem Populated.serializes (hp : E.Populated Ss h t p) :
    8 ≤ E.nestedSize Ss h t p ∧ (E.link Ss).Serializes h t p (E.nestedSize Ss h t p) := by
  induction Ss generalizing t p with
  | nil => exact hp.elim
  | cons S earlier ih =>
    have ih := fun {t p} => @ih t p (fun T hT => wf T (List.mem_cons_of_mem S hT))
      (fun T hT => hfun T (List.mem_cons_of_mem S hT))
    simp only [Populated] at hp
    simp only [nestedSize]
    split at hp
    · next hname =>
      obtain ⟨b, blk, rfl, hl, hobj⟩ := hp
      simp only [hname, if_true, hl, Option.map_some, Option.getD_some]
      refine ⟨Nat.le_add_right 8 _, fun g q g' he hrun => ?_⟩
      have hcall : (E.link (S :: earlier)).serializeStruct t (.base b) =
          (E.link earlier).getSerializer S (.base b) := if_pos hname
      rw [hcall, getSerializer] at hrun
      obtain ⟨⟨q', idx⟩, g₁, hrun, hret⟩ := bind_eq_ok hrun
      cases hret
      exact (serializeWithIDX_eq_ok (E := E.link earlier) hLE hptr (wf S List.mem_cons_self)
        (hfun S List.mem_cons_self) hl (hobj.valid.link _) hobj.fits
        (fun f hf hs => ih (hobj.nested f hf hs)) he hA hrun).2
    · next hname =>
      simp only [hname, if_false]
      obtain ⟨h8, hser⟩ := ih hp
      refine ⟨h8, fun g q g' he hrun => hser g q g' he ?_⟩
      have hcall : (E.link (S :: earlier)).serializeStruct t p =
          (E.link earlier).serializeStruct t p := if_neg hname
      rwa [hcall] at hrun

/-- A struct without fields is serialized to its header. -/
theorem Populated.runs (hp : E.Populated Ss h t p)
    (hempty : ∀ T ∈ Ss, pointeeName t = some T.name → T.fields = []) {g : Heap}
    (he : h.Extends g) : ∃ q g₁, (E.link Ss).serializeStruct t p g = .ok (q, g₁) := by
  induction Ss generalizing t p with
  | nil => exact hp.elim
  | cons S earlier ih =>
    simp only [Populated] at hp
    split at hp
    · next hname =>
      obtain ⟨b, blk, rfl, hl, hobj⟩ := hp
      have hnil := hempty S List.mem_cons_self hname
      have hcall : (E.link (S :: earlier)).serializeStruct t (.base b) =
          (E.link earlier).getSerializer S (.base b) := if_pos hname
      have hno : ∀ f ∈ S.fields, ¬ f.isStruct = true := by
        intro f hf
        rw [hnil] at hf
        cases hf
      obtain ⟨q, idx, g', hrun⟩ := serializeWithIDX_fits (E := E.link earlier) hLE hptr
        (wf S List.mem_cons_self) (hfun S List.mem_cons_self) hl (hobj.valid.link _) hobj.fits
        (fun f hf hs => absurd hs (hno f hf)) he hA (fun f hf hs => absurd hs (hno f hf))
        (by unfold totalWritten exactSize; rw [hnil]; exact Nat.le_refl _)
      rw [hcall, getSerializer, bind_of_ok hrun]
      exact ⟨q, g', rfl⟩
    · next hname =>
      have hcall : (E.link (S :: earlier)).serializeStruct t p =
          (E.link earlier).serializeStruct t p := if_neg hname
      rw [hcall]
      exact ih (fun T hT => wf T (List.mem_cons_of_mem S hT))
        (fun T hT => hfun T (List.mem_cons_of_mem S hT)) hp
        (fun T hT => hempty T (List.mem_cons_of_mem S hT))

omit hLE hptr hfun hA in
/-- Only a struct without fields is 8 bytes on the wire. -/
theorem Populated.nestedSize_eq_iff (hn : Ss.Pairwise fun S T => S.name ≠ T.name)
    (hp : E.Populated Ss h t p) : E.nestedSize Ss h t p = 8 ↔
      ∀ T ∈ Ss, pointeeName t = some T.name → T.fields = [] := by
  induction Ss generalizing t p with
  | nil => exact hp.elim
  | cons S earlier ih =>
    obtain ⟨hS, hn⟩ := List.pairwise_cons.mp hn
    simp only [Populated] at hp
    simp only [nestedSize, List.forall_mem_cons]
    split at hp
    · next hname =>
      obtain ⟨b, blk, rfl, hl, hobj⟩ := hp
      simp only [hname, if_true, hl, Option.map_some, Option.getD_some, true_implies]
      rw [exactSize_eq_iff (wf S List.mem_cons_self), iff_self_and]
      intro _ T hT he
      exact absurd (Option.some.inj he) (hS T hT)
    · next hname =>
      simp only [hname, if_false, false_implies, true_and]
      exact ih (fun T hT => wf T (List.mem_cons_of_mem S hT)) hn hp

end Module

/-! ## Main results -/

/-- A run of `serialize_S` after which the bytes written, the header and the block agree. -/
def SizesAgree (E : Env) (S : Struct) (b : Nat) (h : Heap) : Prop :=
  ∃ r idx h' buf, E.serializeWithIDX S (.base b) h = .ok ((.base r, idx), h') ∧
    h'.block? r = some buf ∧ idx.toNat = buf.cells.length ∧
    (E.headerIn buf.cells).toNat = buf.cells.length

end Env

open Env

/-- The generated names of a module are pairwise distinct. -/
def DistinctNames (Ss : List Struct) : Prop := ((Ss.flatMap generatedFunctions).map Func.name).Nodup

theorem resolves_ofModule {A : Allocator} {DL : DataLayout} {Ss : List Struct}
    (hn : DistinctNames Ss) {T : Struct} (hT : T ∈ Ss) : Resolves (ofModule A DL Ss) T :=
  fun _ hg => lookupFunction_of_nodup hn (List.mem_flatMap.mpr ⟨T, hT, hg⟩)

/-- Their structs have different names. -/
theorem pairwise_name {Ss : List Struct} (hn : DistinctNames Ss) :
    Ss.Pairwise fun S T => S.name ≠ T.name := by
  have hcreate : ∀ S : Struct, (Func.constructor S).name ∈ (generatedFunctions S).map Func.name :=
    fun S => List.mem_map_of_mem (List.mem_append_right _ List.mem_cons_self)
  unfold DistinctNames at hn
  rw [List.map_flatMap, List.nodup_flatMap] at hn
  refine hn.2.imp fun {S T} hd he => ?_
  have hS := hcreate S
  rw [show (Func.constructor S).name = (Func.constructor T).name from
    congrArg ("create_" ++ ·) he] at hS
  exact hd hS (hcreate T)

/-- For every module and every populated object of one of its structs `S`: the three sizes
    agree, and no serializer leaves the block, exactly when no struct-typed field of `S`
    points at a struct with fields. -/
theorem sizes_agree_iff {A : Allocator} {DL : DataLayout} {later earlier : List Struct}
    {S : Struct} (hLE : DL.bigEndian = false) (hptr : ∀ t, DL.allocSize (.ptr t) = 8)
    (wf : ∀ T ∈ later ++ S :: earlier, T.WellFormed) (hn : DistinctNames (later ++ S :: earlier))
    (hA : ∀ t n, A.succeeds t n = true) {h : Heap} {b : Nat} {s : Block}
    (hl : h.block? b = some s)
    (hobj : (ofModule A DL (later ++ S :: earlier)).Object S h s
      ((ofModule A DL (later ++ S :: earlier)).nestedSize earlier h)
      ((ofModule A DL (later ++ S :: earlier)).Populated earlier h)) :
    ((ofModule A DL (later ++ S :: earlier)).link earlier).SizesAgree S b h ↔
      ∀ f ∈ S.fields, f.isStruct = true → ∀ T ∈ earlier, pointeeName f.type = some T.name →
        T.fields = [] := by
  set E := ofModule A DL (later ++ S :: earlier) with hE
  have hS : S ∈ later ++ S :: earlier := List.mem_append_right later List.mem_cons_self
  have hearlier : ∀ T ∈ earlier, T ∈ later ++ S :: earlier := fun T hT =>
    List.mem_append_right later (List.mem_cons_of_mem S hT)
  have hfun : ∀ T ∈ later ++ S :: earlier, Resolves E T := fun T hT => resolves_ofModule hn hT
  have hnames := (List.pairwise_cons.mp (List.pairwise_append.mp (pairwise_name hn)).2.1).2
  have wfe : ∀ T ∈ earlier, T.WellFormed := fun T hT => wf T (hearlier T hT)
  have hfune : ∀ T ∈ earlier, Resolves E T := fun T hT => hfun T (hearlier T hT)
  have hnest := fun f hf hs => (hobj.nested f hf hs).serializes hLE hptr wfe hfune hA
  have hiff : (∀ f ∈ S.fields, f.isStruct = true → E.nestedSize earlier h f.type
      (E.ptrAt S s f) = 8) ↔ ∀ f ∈ S.fields, f.isStruct = true → ∀ T ∈ earlier,
      pointeeName f.type = some T.name → T.fields = [] := by
    refine forall₂_congr fun f hf => forall_congr' fun hs => ?_
    exact (hobj.nested f hf hs).nestedSize_eq_iff wfe hnames
  have hle := exactSize_le_totalWritten hptr (wf S hS) fun f hf hs => (hnest f hf hs).1
  rw [← hiff, ← totalWritten_le_iff hptr (wf S hS) fun f hf hs => (hnest f hf hs).1]
  constructor
  · rintro ⟨r, idx, h', buf, hrun, hbuf, hidx, -⟩
    obtain ⟨htotal, r', buf', hr, -, hbuf', hlen, -⟩ := serializeWithIDX_eq_ok
      (E := E.link earlier) hLE hptr (wf S hS) (hfun S hS) hl (hobj.valid.link _) hobj.fits hnest
      (Heap.Extends.refl h) hA hrun
    cases hr
    rw [hbuf] at hbuf'
    cases hbuf'
    exact Nat.le_of_eq (htotal.symm.trans (hidx.trans hlen))
  · intro hfits
    have hempty := hiff.mp ((totalWritten_le_iff hptr (wf S hS)
      fun f hf hs => (hnest f hf hs).1).mp hfits)
    have hcall : ∀ f ∈ S.fields, f.isStruct = true → ∀ g, h.Extends g →
        ∃ q g₁, (E.link earlier).serializeStruct f.type ((E.link earlier).ptrAt S s f) g =
          .ok (q, g₁) := fun f hf hs g he =>
      (hobj.nested f hf hs).runs hLE hptr wfe hfune hA (hempty f hf hs) he
    obtain ⟨q, idx, h', hrun⟩ := serializeWithIDX_fits (E := E.link earlier) hLE hptr (wf S hS)
      (hfun S hS) hl (hobj.valid.link _) hobj.fits hnest (Heap.Extends.refl h) hA hcall hfits
    obtain ⟨htotal, r, buf, rfl, -, hbuf, hlen, hhead, -⟩ := serializeWithIDX_eq_ok
      (E := E.link earlier) hLE hptr (wf S hS) (hfun S hS) hl (hobj.valid.link _) hobj.fits hnest
      (Heap.Extends.refl h) hA hrun
    refine ⟨r, idx, h', buf, hrun, hbuf, ?_, ?_⟩
    · rw [htotal, hlen]
      exact Nat.le_antisymm hfits hle
    · rw [headerIn, hhead, decodeI64_encodeI64, BitVec.toNat_ofNat, hlen]
      exact Nat.mod_eq_of_lt (Nat.lt_of_le_of_lt hle hobj.fits)

/-- `struct a { int8 x }` and `struct b { a y }`. -/
def innerStruct : Struct where
  name := "a"
  packed := false
  type := some (.struct 0 "a")
  fields :=
    [{ id := 0, name := "x", type := .int 8, isMutable := false, isStruct := false
       isRepeated := false, isCount := false, countField := none, countsFor := none
       parentType := some (.struct 0 "a"), offset := 0 }]

def outerStruct : Struct where
  name := "b"
  packed := false
  type := some (.struct 1 "b")
  fields :=
    [{ id := 0, name := "y", type := .ptr (.struct 0 "a"), isMutable := false, isStruct := true
       isRepeated := false, isCount := false, countField := none, countsFor := none
       parentType := some (.struct 1 "b"), offset := 0 }]

theorem innerStruct_wellFormed : innerStruct.WellFormed where
  offset_eq := by decide
  ids_nodup := by decide
  parentType_eq := by decide
  isSome_type := rfl
  kind f hf := by
    obtain rfl := List.mem_singleton.mp hf
    exact .plain rfl rfl rfl (by decide : 0 < 8)

theorem outerStruct_wellFormed : outerStruct.WellFormed where
  offset_eq := by decide
  ids_nodup := by decide
  parentType_eq := by decide
  isSome_type := rfl
  kind f hf := by
    obtain rfl := List.mem_singleton.mp hf
    exact .plain rfl rfl rfl trivial

/-- Both in a module, for the default layout. -/
def nestedEnv : Env := ofModule .calloc .default [outerStruct, innerStruct]

/-- A `b` in block 0 that points at an `a` in block 1. -/
def outerBlock : Block := ⟨encodePtr 8 (.base 1), by decide⟩

theorem byte_fits : (encodeInt false 1 7).length < 2 ^ 64 := by decide

def nestedHeap : Heap where
  blocks := [some outerBlock, some ⟨encodeInt false 1 7, byte_fits⟩]
  calls := 2

theorem outerBlock_object : nestedEnv.Object outerStruct nestedHeap outerBlock
    (nestedEnv.nestedSize [innerStruct] nestedHeap)
    (nestedEnv.Populated [innerStruct] nestedHeap) where
  valid := ⟨by decide, by decide⟩
  fits := by decide
  nested f hf hs := by
    obtain rfl := List.mem_singleton.mp hf
    refine ⟨1, _, by decide, rfl, ⟨⟨by decide, by decide⟩, by decide, ?_⟩⟩
    intro g hg hs
    obtain rfl := List.mem_singleton.mp hg
    cases hs

theorem nested_distinctNames : DistinctNames ([] ++ outerStruct :: [innerStruct]) := by
  unfold DistinctNames
  decide

theorem sizes_agree_iff_nested :
    (nestedEnv.link [innerStruct]).SizesAgree outerStruct 0 nestedHeap ↔
      ∀ f ∈ outerStruct.fields, f.isStruct = true → ∀ T ∈ [innerStruct],
        pointeeName f.type = some T.name → T.fields = [] :=
  sizes_agree_iff (b := 0) (h := nestedHeap) (s := outerBlock)
    (S := outerStruct) rfl (fun _ => (by decide : DataLayout.default.allocSize (.ptr .float) = 8))
    (List.forall_mem_cons.mpr
      ⟨outerStruct_wellFormed, List.forall_mem_singleton.mpr innerStruct_wellFormed⟩)
    nested_distinctNames (fun _ _ => rfl) rfl outerBlock_object

/-- On that populated `b` the serializer allocates 16 bytes, the nested struct takes 9 from
    index 8 on, and the copy leaves the block. -/
theorem nested_overflows :
    nestedEnv.Object outerStruct nestedHeap outerBlock
      (nestedEnv.nestedSize [innerStruct] nestedHeap)
      (nestedEnv.Populated [innerStruct] nestedHeap) ∧
    (nestedEnv.link [innerStruct]).serializeWithIDX outerStruct (.base 0) nestedHeap =
      .error .access ∧
    ¬ (nestedEnv.link [innerStruct]).SizesAgree outerStruct 0 nestedHeap := by
  have hrun : (nestedEnv.link [innerStruct]).serializeWithIDX outerStruct (.base 0) nestedHeap =
      .error .access := by rfl
  refine ⟨outerBlock_object, hrun, ?_⟩
  rintro ⟨r, idx, h', buf, hok, -⟩
  rw [hrun] at hok
  cases hok

end Tyr
