import Tyr.Wire.Recover

/-
  Buffers that cross byte orders.

  A schema is compiled under two layouts that differ in byte order only. The wire forms of a
  value are the same but for integers whose width is not a multiple of 8 (`wireCells_eq_iff`),
  and a big-endian module has to swap everything else. `interchange_iff`: for which values the
  two modules write the same bytes and read each other's buffers.
-/

namespace Tyr

def DataLayout.withOrder (DL : DataLayout) (bigEndian : Bool) : DataLayout :=
  { DL with bigEndian := bigEndian }

/-- A value whose bytes are the same in a buffer of either byte order. -/
def DataLayout.SameBothWays (DL : DataLayout) (t : Ty) (v : Nat) : Prop :=
  t.isSwapped = true ∨ (toLE (DL.storeSize t) v).reverse = toLE (DL.storeSize t) v

instance (DL : DataLayout) (t : Ty) (v : Nat) : Decidable (DL.SameBothWays t v) :=
  inferInstanceAs (Decidable (_ ∨ _))

namespace Value

variable (DL : DataLayout) (V : Value) (S : Struct)

def FieldSameBothWays (f : Field) : Prop :=
  if f.isRepeated then ∀ v ∈ V.array f, DL.SameBothWays f.elem v
  else DL.SameBothWays f.type (V.scalar f)

/-- What is swapped has an intrinsic for it, and a loop over an array has elements. -/
def FieldCanSwap (f : Field) : Prop :=
  if f.isRepeated then f.elem.isSwapped = true → f.elem.hasBswap = true ∧ V.array f ≠ []
  else f.type.isSwapped = true → f.type.hasBswap = true

/-- The condition on a value. -/
def Crosses : Prop :=
  ∀ f ∈ S.fields, f.isCount = false → V.FieldCanSwap f ∧ V.FieldSameBothWays DL f

instance (f : Field) : Decidable (V.FieldSameBothWays DL f) := by
  unfold FieldSameBothWays; infer_instance

instance (f : Field) : Decidable (V.FieldCanSwap f) := by
  unfold FieldCanSwap; infer_instance

instance : Decidable (V.Crosses DL S) := by
  unfold Crosses; infer_instance

/-- The bytes of the field that carry its value are the same in `out` and `out'`. -/
def FieldSame (out out' : List Cell) (f : Field) (off : Nat) : Prop :=
  if f.isRepeated then
    slice out off 8 = slice out' off 8 ∧
    ∀ k < (V.array f).length,
      slice out (off + 8 + DL.allocSize f.elem * k) (DL.storeSize f.elem) =
        slice out' (off + 8 + DL.allocSize f.elem * k) (DL.storeSize f.elem)
  else slice out off (DL.storeSize f.type) = slice out' off (DL.storeSize f.type)

/-- Two buffers of the size of `V` with the same header and the same bytes for every field. -/
structure SameBytes (out out' : List Cell) : Prop where
  length : out.length = V.size DL S
  length_eq : out'.length = out.length
  header : slice out 0 8 = slice out' 0 8
  fields : Along (V.wireSize DL) (V.FieldSame DL out out') S.fields 8

end Value

namespace Env

/-- Both modules serialize their struct, to the same bytes, and each reads the other's buffer. -/
def Interchanges (E₁ E₂ : Env) (S : Struct) (V : Value) (h₁ h₂ : Heap) (b₁ b₂ : Nat) : Prop :=
  ∃ buf₁ buf₂ : Block,
    E₁.getSerializer S (.base b₁) h₁ = .ok (.base h₁.next, h₁.push buf₁) ∧
    E₂.getSerializer S (.base b₂) h₂ = .ok (.base h₂.next, h₂.push buf₂) ∧
    V.SameBytes E₁.layout S buf₁.cells buf₂.cells ∧
    E₂.Recovers S V buf₁ ∧ E₁.Recovers S V buf₂

section Order

variable {DL : DataLayout} {E₁ E₂ : Env} {S : Struct} {V : Value} {f : Field}

theorem wireCells_eq_iff (h₁ : E₁.layout = DL.withOrder false) (h₂ : E₂.layout = DL.withOrder true)
    {t : Ty} {v : Nat} (hv : v < 2 ^ DL.getTypeSizeInBits t) :
    E₁.wireCells t v = E₂.wireCells t v ↔ DL.SameBothWays t v := by
  have hinj : ∀ {l l' : List Byte}, l.map Cell.byte = l'.map Cell.byte ↔ l = l' :=
    fun {l l'} => (List.map_injective_iff.mpr fun _ _ => Cell.byte.inj).eq_iff
  have hv₁ : v < 2 ^ E₁.layout.getTypeSizeInBits t := by rw [h₁]; exact hv
  have hv₂ : v < 2 ^ E₂.layout.getTypeSizeInBits t := by rw [h₂]; exact hv
  have hs₁ : E₁.layout.storeSize t = DL.storeSize t := by rw [h₁]; rfl
  have hs₂ : E₂.layout.storeSize t = DL.storeSize t := by rw [h₂]; rfl
  have ho₁ : E₁.layout.bigEndian = false := by rw [h₁]; rfl
  have ho₂ : E₂.layout.bigEndian = true := by rw [h₂]; rfl
  unfold DataLayout.SameBothWays
  cases ht : t.isSwapped with
  | true =>
    rw [wireCells_swapped hv₁ ht, wireCells_swapped hv₂ ht, hs₁, hs₂]
    simp
  | false =>
    rw [wireCells_unswapped hv₁ ht, wireCells_unswapped hv₂ ht, hs₁, hs₂, ho₁, ho₂, hinj]
    simp only [inOrder, Bool.false_eq_true, if_true, if_false, false_or]
    exact eq_comm

theorem fieldSwappable_iff (h₂ : E₂.layout = DL.withOrder true) :
    E₂.FieldSwappable V f ↔ V.FieldCanSwap f := by
  have ho₂ : E₂.layout.bigEndian = true := by rw [h₂]; rfl
  unfold FieldSwappable Value.FieldCanSwap ArraySwappable Swappable
  cases f.isRepeated with
  | true =>
    simp only [if_true, ho₂, forall_const, ne_eq, List.length_eq_zero_iff]
    exact ⟨fun h ht => ⟨h.1 ht, h.2 ht⟩, fun h => ⟨fun ht => (h ht).1, fun ht => (h ht).2⟩⟩
  | false => simp only [Bool.false_eq_true, if_false, ho₂, forall_const]

theorem fieldSwappable_little (h₁ : E₁.layout = DL.withOrder false) : E₁.FieldSwappable V f := by
  have ho₁ : E₁.layout.bigEndian = false := by rw [h₁]; rfl
  unfold FieldSwappable ArraySwappable Swappable
  simp [ho₁]

/-- Each module's bytes for a field are the same exactly if the value reads the same both
    ways. -/
theorem fieldSame_iff (h₁ : E₁.layout = DL.withOrder false) (h₂ : E₂.layout = DL.withOrder true)
    (hV : V.Bounded DL S) (hf : f ∈ S.fields) (hc : f.isCount = false) {out out' : List Cell}
    {off : Nat} (hw₁ : E₁.FieldWire V out f off) (hw₂ : E₂.FieldWire V out' f off) :
    V.FieldSame DL out out' f off ↔ V.FieldSameBothWays DL f := by
  unfold FieldWire at hw₁ hw₂
  unfold Value.FieldSame Value.FieldSameBothWays
  rw [h₁] at hw₁
  rw [h₂] at hw₂
  cases hr : f.isRepeated with
  | true =>
    simp only [hr, if_true] at hw₁ hw₂ ⊢
    have hbytes : ∀ k v, (V.array f)[k]? = some v →
        (slice out (off + 8 + DL.allocSize f.elem * k) (DL.storeSize f.elem) =
          slice out' (off + 8 + DL.allocSize f.elem * k) (DL.storeSize f.elem) ↔
        DL.SameBothWays f.elem v) := by
      intro k v hk
      rw [← wireCells_eq_iff h₁ h₂ ((hV f hf).2 hr v (List.mem_of_getElem? hk)),
        ← hw₁.2 k v hk, ← hw₂.2 k v hk]
      exact Iff.rfl
    constructor
    · intro hsame v hv
      obtain ⟨k, hk⟩ := List.getElem?_of_mem hv
      exact (hbytes k v hk).mp (hsame.2 k (List.getElem?_eq_some_iff.mp hk).1)
    · intro hboth
      refine ⟨hw₁.1.trans hw₂.1.symm, fun k hk => ?_⟩
      have hget := List.getElem?_eq_getElem hk
      exact (hbytes k _ hget).mpr (hboth _ (List.mem_of_getElem? hget))
  | false =>
    simp only [hr, Bool.false_eq_true, if_false] at hw₁ hw₂ ⊢
    rw [← wireCells_eq_iff h₁ h₂ ((hV f hf).1 hr hc), ← hw₁, ← hw₂]
    exact Iff.rfl

/-- A value that reads the same both ways has one wire form. -/
theorem fieldWire_iff (h₁ : E₁.layout = DL.withOrder false) (h₂ : E₂.layout = DL.withOrder true)
    (hV : V.Bounded DL S) (hf : f ∈ S.fields) (hc : f.isCount = false)
    (hsame : V.FieldSameBothWays DL f) {out : List Cell} {off : Nat} :
    E₁.FieldWire V out f off ↔ E₂.FieldWire V out f off := by
  unfold FieldWire
  unfold Value.FieldSameBothWays at hsame
  rw [h₁, h₂]
  cases hr : f.isRepeated with
  | true =>
    simp only [hr, if_true] at hsame ⊢
    refine and_congr_right fun _ => forall_congr' fun k => forall_congr' fun v =>
      imp_congr_right fun hk => ?_
    have hv := List.mem_of_getElem? hk
    rw [(wireCells_eq_iff h₁ h₂ ((hV f hf).2 hr v hv)).mpr (hsame v hv)]
    exact Iff.rfl
  | false =>
    simp only [hr, Bool.false_eq_true, if_false] at hsame ⊢
    rw [(wireCells_eq_iff h₁ h₂ ((hV f hf).1 hr hc)).mpr hsame]
    exact Iff.rfl

/-- One buffer has the value in the wire forms of both modules. -/
theorem wire_iff (h₁ : E₁.layout = DL.withOrder false) (h₂ : E₂.layout = DL.withOrder true)
    (hV : V.Bounded DL S)
    (hsame : ∀ f ∈ S.fields, f.isCount = false → V.FieldSameBothWays DL f) {out : List Cell} :
    E₁.Wire S V out ↔ E₂.Wire S V out := by
  have hsize : V.size E₁.layout S = V.size E₂.layout S := by rw [h₁, h₂]; rfl
  have hwire : V.wireSize E₁.layout = V.wireSize E₂.layout := by rw [h₁, h₂]; rfl
  constructor
  · intro hw
    refine ⟨hsize ▸ hw.length, hsize ▸ hw.header, ?_⟩
    rw [← hwire]
    exact hw.fields.imp fun f hf hc o => (fieldWire_iff h₁ h₂ hV hf hc (hsame f hf hc)).mp
  · intro hw
    refine ⟨hsize ▸ hw.length, hsize ▸ hw.header, ?_⟩
    rw [hwire]
    exact hw.fields.imp fun f hf hc o => (fieldWire_iff h₁ h₂ hV hf hc (hsame f hf hc)).mpr

/-- The bytes of two buffers, one from each module. -/
theorem sameBytes_iff (h₁ : E₁.layout = DL.withOrder false) (h₂ : E₂.layout = DL.withOrder true)
    (hV : V.Bounded DL S) {out out' : List Cell} (hw₁ : E₁.Wire S V out)
    (hw₂ : E₂.Wire S V out') :
    V.SameBytes E₁.layout S out out' ↔
      ∀ f ∈ S.fields, f.isCount = false → V.FieldSameBothWays DL f := by
  have hsize : V.size E₂.layout S = V.size E₁.layout S := by rw [h₁, h₂]; rfl
  have hwire : V.wireSize E₂.layout = V.wireSize E₁.layout := by rw [h₁, h₂]; rfl
  have hsame_eq : V.FieldSame E₁.layout out out' = V.FieldSame DL out out' := by rw [h₁]; rfl
  have hfields₂ := hw₂.fields
  rw [hwire] at hfields₂
  have hfields := hw₁.fields.and hfields₂
  constructor
  · intro hsame f hf hc
    obtain ⟨o, ⟨hf₁, hf₂⟩, hfs⟩ := (hfields.and hsame.fields).exists_offset hf hc
    rw [hsame_eq] at hfs
    exact (fieldSame_iff h₁ h₂ hV hf hc hf₁ hf₂).mp hfs
  · intro hboth
    refine ⟨hw₁.length, ?_, ?_, ?_⟩
    · rw [hw₁.length, hw₂.length, hsize]
    · rw [hw₁.header, hw₂.header, hsize]
    · rw [hsame_eq]
      refine hfields.imp fun f hf hc o hfo => ?_
      exact (fieldSame_iff h₁ h₂ hV hf hc hfo.1 hfo.2).mpr (hboth f hf hc)

end Order

end Env

open Env

section Modules

variable {A₁ A₂ : Allocator} {DL : DataLayout} {S : Struct} {V : Value} {h₁ h₂ : Heap}
  {b₁ b₂ : Nat} {s₁ s₂ : Block}

/-- A big-endian module that reads the little-endian module's buffer swaps every field. -/
theorem Env.Interchanges.canSwap (flat : S.IsFlat) (hn : S.DistinctNames)
    (hA₁ : ∀ t n, A₁.succeeds t n = true) (hA₂ : ∀ t n, A₂.succeeds t n = true)
    (hl₁ : h₁.block? b₁ = some s₁)
    (hrep₁ : (Env.ofStruct A₁ (DL.withOrder false) S).HasValue S V h₁ s₁)
    (hi : Interchanges (Env.ofStruct A₁ (DL.withOrder false) S)
      (Env.ofStruct A₂ (DL.withOrder true) S) S V h₁ h₂ b₁ b₂) :
    V.size DL S < 2 ^ 64 ∧ ∀ f ∈ S.fields, f.isCount = false → V.FieldCanSwap f := by
  set E₁ := Env.ofStruct A₁ (DL.withOrder false) S with hE₁
  set E₂ := Env.ofStruct A₂ (DL.withOrder true) S with hE₂
  obtain ⟨buf₁, buf₂, hrun₁, -, hsame, hrec₂, -⟩ := hi
  have hsize : V.size DL S < 2 ^ 64 := by
    have h := buf₁.fits
    rwa [hsame.length] at h
  have hstruct := Nat.lt_of_le_of_lt hrep₁.holds s₁.fits
  obtain ⟨out, hout, hw⟩ := getSerializer_wire hrep₁ flat hsize (resolves_ofStruct A₁ _ hn) hl₁
    (fun f _ _ => fieldSwappable_little rfl) (hA₁ _ _)
  obtain rfl : out = buf₁ := by
    rw [hrun₁] at hout
    exact (Heap.push_inj (Prod.mk.inj (Except.ok.inj hout)).2).symm
  refine ⟨hsize, fun f hf hc => ?_⟩
  have hsw := getDeserializer_stuck (E := E₂) flat (resolves_ofStruct A₂ _ hn) hA₂ hstruct
    hw.length (hw.fields.imp fun f _ _ o hfo => hfo.count) hrec₂ f hf hc
  have ho₂ : E₂.layout = DL.withOrder true := rfl
  exact (fieldSwappable_iff ho₂).mp hsw

/-- A value crosses from the little-endian module to the big-endian one and back if and only if
    its size fits 64 bits, the types whose bytes are turned around have an intrinsic for it,
    arrays of them are not empty, and all other integers read the same both ways. -/
theorem interchange_iff (flat : S.IsFlat) (hn : S.DistinctNames)
    (hA₁ : ∀ t n, A₁.succeeds t n = true) (hA₂ : ∀ t n, A₂.succeeds t n = true)
    (hl₁ : h₁.block? b₁ = some s₁) (hl₂ : h₂.block? b₂ = some s₂)
    (hrep₁ : (Env.ofStruct A₁ (DL.withOrder false) S).HasValue S V h₁ s₁)
    (hrep₂ : (Env.ofStruct A₂ (DL.withOrder true) S).HasValue S V h₂ s₂) :
    Interchanges (Env.ofStruct A₁ (DL.withOrder false) S)
        (Env.ofStruct A₂ (DL.withOrder true) S) S V h₁ h₂ b₁ b₂ ↔
      V.size DL S < 2 ^ 64 ∧ V.Crosses DL S := by
  set E₁ := Env.ofStruct A₁ (DL.withOrder false) S with hE₁
  set E₂ := Env.ofStruct A₂ (DL.withOrder true) S with hE₂
  have ho₁ : E₁.layout = DL.withOrder false := rfl
  have ho₂ : E₂.layout = DL.withOrder true := rfl
  have hfun₁ : Resolves E₁ S := resolves_ofStruct A₁ _ hn
  have hfun₂ : Resolves E₂ S := resolves_ofStruct A₂ _ hn
  have hV : V.Bounded DL S := hrep₁.bounded flat
  have hstruct₁ := Nat.lt_of_le_of_lt hrep₁.holds s₁.fits
  have hstruct₂ := Nat.lt_of_le_of_lt hrep₂.holds s₂.fits
  -- the two runs of `serialize_S`, once the big-endian module can swap
  have hwrite : V.size DL S < 2 ^ 64 →
      (∀ f ∈ S.fields, f.isCount = false → E₂.FieldSwappable V f) →
      ∃ buf₁ buf₂ : Block,
        E₁.getSerializer S (.base b₁) h₁ = .ok (.base h₁.next, h₁.push buf₁) ∧
        E₂.getSerializer S (.base b₂) h₂ = .ok (.base h₂.next, h₂.push buf₂) ∧
        E₁.Wire S V buf₁.cells ∧ E₂.Wire S V buf₂.cells := by
    intro hsize hsw₂
    obtain ⟨buf₁, hrun₁, hw₁⟩ := getSerializer_wire hrep₁ flat hsize hfun₁ hl₁
      (fun f _ _ => fieldSwappable_little ho₁) (hA₁ _ _)
    obtain ⟨buf₂, hrun₂, hw₂⟩ := getSerializer_wire hrep₂ flat hsize hfun₂ hl₂ hsw₂ (hA₂ _ _)
    exact ⟨buf₁, buf₂, hrun₁, hrun₂, hw₁, hw₂⟩
  constructor
  · intro hi
    obtain ⟨hsize, hcan⟩ := hi.canSwap flat hn hA₁ hA₂ hl₁ hrep₁
    obtain ⟨out₁, out₂, hout₁, hout₂, hw₁, hw₂⟩ :=
      hwrite hsize fun f hf hc => (fieldSwappable_iff ho₂).mpr (hcan f hf hc)
    obtain ⟨buf₁, buf₂, hrun₁, hrun₂, hsame, -⟩ := hi
    rw [hrun₁] at hout₁
    rw [hrun₂] at hout₂
    rw [← Heap.push_inj (Prod.mk.inj (Except.ok.inj hout₁)).2] at hw₁
    rw [← Heap.push_inj (Prod.mk.inj (Except.ok.inj hout₂)).2] at hw₂
    exact ⟨hsize, fun f hf hc =>
      ⟨hcan f hf hc, (sameBytes_iff ho₁ ho₂ hV hw₁ hw₂).mp hsame f hf hc⟩⟩
  · intro h
    obtain ⟨hsize, hcross⟩ := h
    have hsw₂ : ∀ f ∈ S.fields, f.isCount = false → E₂.FieldSwappable V f :=
      fun f hf hc => (fieldSwappable_iff ho₂).mpr (hcross f hf hc).1
    have hboth : ∀ f ∈ S.fields, f.isCount = false → V.FieldSameBothWays DL f :=
      fun f hf hc => (hcross f hf hc).2
    obtain ⟨buf₁, buf₂, hrun₁, hrun₂, hw₁, hw₂⟩ := hwrite hsize hsw₂
    refine ⟨buf₁, buf₂, hrun₁, hrun₂, (sameBytes_iff ho₁ ho₂ hV hw₁ hw₂).mpr hboth, ?_, ?_⟩
    · exact getDeserializer_wire flat hfun₂ hA₂ hstruct₂ hV hsw₂
        ((wire_iff ho₁ ho₂ hV hboth).mp hw₁)
    · exact getDeserializer_wire flat hfun₁ hA₁ hstruct₁ hV
        (fun f _ _ => fieldSwappable_little ho₁) ((wire_iff ho₁ ho₂ hV hboth).mpr hw₂)

end Modules

/-- A `path` with `idx = 7`, one `x` and `n` times `y`. -/
def pathValue (n : Nat) : Value where
  scalar _ := 7
  array f := if f = pathX then [0x3f800000] else List.replicate n 0x40000000

/-- The struct object of a module of either byte order. -/
def pathObject (bigEndian : Bool) (n : Nat) : Block where
  cells := encodeInt bigEndian 4 7 ++ encodeInt bigEndian 8 1 ++ encodePtr 8 (.base 1) ++
    encodeInt bigEndian 8 n ++ encodePtr 8 (.base 2)
  fits := by simp [encodePtr]

def pathMemory (bigEndian : Bool) (n : Nat) : Heap where
  blocks := [some (pathObject bigEndian n), some ⟨encodeInt bigEndian 4 0x3f800000, by simp⟩,
    some ⟨encodeInt bigEndian 4 0x40000000, by simp⟩]
  calls := 3

abbrev pathModule (bigEndian : Bool) : Env :=
  Env.ofStruct .calloc (DataLayout.default.withOrder bigEndian) pathStruct

theorem block?_pathMemory (bigEndian : Bool) (n : Nat) :
    (pathMemory bigEndian n).block? 0 = some (pathObject bigEndian n) := rfl

theorem pathObject_hasValue : ∀ (bigEndian : Bool) (n : Nat), n < 2 →
    (pathModule bigEndian).HasValue pathStruct (pathValue n) (pathMemory bigEndian n)
      (pathObject bigEndian n) := by
  intro bigEndian n hn
  refine ⟨⟨?_, ?_⟩, ?_, ?_, ?_⟩
  · revert bigEndian n
    decide
  · revert bigEndian n
    decide
  · revert bigEndian n
    decide
  · revert bigEndian n
    decide
  · have helem : ∀ f ∈ pathStruct.fields, f.isRepeated = true →
        ∀ k : Fin ((pathValue n).array f).length,
          ((pathValue n).array f).get k < 2 ^ DataLayout.default.getTypeSizeInBits f.elem ∧
            slice ((pathModule bigEndian).elementsAt pathStruct (pathMemory bigEndian n)
                (pathObject bigEndian n) f)
              (DataLayout.default.allocSize f.elem * k) (DataLayout.default.storeSize f.elem) =
                (pathModule bigEndian).encode f.elem (.int (((pathValue n).array f).get k)) := by
      revert bigEndian n
      decide
    intro f hf hr k v hk
    obtain ⟨hlt, rfl⟩ := List.getElem?_eq_some_iff.mp hk
    exact helem f hf hr ⟨k, hlt⟩

/-- With an element in each array. -/
theorem interchange_path :
    Interchanges (pathModule false) (pathModule true) pathStruct (pathValue 1)
      (pathMemory false 1) (pathMemory true 1) 0 0 := by
  have hiff := interchange_iff pathStruct_isFlat pathStruct_distinctNames (fun _ _ => rfl)
    (fun _ _ => rfl) (block?_pathMemory false 1) (block?_pathMemory true 1)
    (pathObject_hasValue false 1 (by decide)) (pathObject_hasValue true 1 (by decide))
  exact hiff.mpr ⟨by decide, by decide⟩

/-- The big-endian module's loop over an empty array does not stop at its end. -/
theorem empty_array_stuck :
    ¬ Interchanges (pathModule false) (pathModule true) pathStruct (pathValue 0)
        (pathMemory false 0) (pathMemory true 0) 0 0 := by
  intro hi
  have hcan := (hi.canSwap pathStruct_isFlat pathStruct_distinctNames (fun _ _ => rfl)
    (fun _ _ => rfl) (block?_pathMemory false 0) (pathObject_hasValue false 0 (by decide))).2
  have hswap : pathY.elem.isSwapped = true := by decide
  have hempty : (pathValue 0).array pathY ≠ [] := by
    have hY := hcan pathY (by decide) (by decide)
    unfold Value.FieldCanSwap at hY
    rw [if_pos (by decide)] at hY
    exact (hY hswap).2
  exact hempty (by decide)

end Tyr
