import Tyr.Runtime.Stored
import Tyr.Runtime.Transfer

/-
  The base64 helpers with the generated code: structs that processes send each other as text.

  The decoder hands `deserialize_S` a block that is longer than its header says, with eight bytes
  behind the struct that the encoder has read behind its buffer. `texts_refine`: neither matters.
  Every run of little-endian processes is a run of `Record.ExchangeStep`, if so many bytes behind
  each buffer can be read.
-/

namespace Tyr

open Prog

universe u

namespace Along

variable {size : Field → Nat} {P Q : Field → Nat → Prop} {fs : List Field} {off : Nat}

/-- A field lies between the start of the first one and the end of the last. -/
theorem imp_within (h : Along size P fs off)
    (hPQ : ∀ f ∈ fs, f.isCount = false → ∀ o, off ≤ o → o + size f ≤ off + (fs.map size).sum →
      P f o → Q f o) : Along size Q fs off := by
  induction fs generalizing off with
  | nil => trivial
  | cons f fs ih =>
    rw [List.map_cons, List.sum_cons] at hPQ
    unfold Along at h ⊢
    cases hc : f.isCount with
    | true =>
      simp only [hc, if_true] at h ⊢
      exact ih h fun g hg hgc o hle hend =>
        hPQ g (List.mem_cons_of_mem f hg) hgc o hle (by omega)
    | false =>
      simp only [hc, Bool.false_eq_true, if_false] at h ⊢
      refine ⟨hPQ f List.mem_cons_self hc off le_rfl (by omega) h.1, ih h.2 ?_⟩
      exact fun g hg hgc o hle hend =>
        hPQ g (List.mem_cons_of_mem f hg) hgc o (by omega) (by omega)

end Along

namespace Env

variable {E : Env} {S : Struct} {V : Value} {cs : List Cell}

/-- With more behind it. -/
theorem Wire.append (hw : E.Wire S V cs) (wf : S.WellFormed) (more : List Cell) :
    E.Carries S V (cs ++ more) := by
  have hsum := sum_fieldWire (E := E) (V := V) wf
  have hlen := hw.length
  have hfront : ∀ p k, p + k ≤ cs.length → slice (cs ++ more) p k = slice cs p k := by
    intro p k hle
    rw [slice, List.drop_append_of_le_length (by omega),
      List.take_append_of_le_length (by rw [List.length_drop]; omega), slice]
  refine ⟨?_, ?_, hw.fields.imp_within fun f hf hc o hle hend hfield => ?_⟩
  · rw [List.length_append]
    omega
  · rw [hfront 0 8 (by omega)]
    exact hw.header
  · exact hfield.congr hc fun p k hp hk => hfront p k (by omega)

end Env

namespace Network

variable {ι : Type u} (N : Network ι) (S : Struct)

/-- The memory of every process, and the texts that `tyr_serialize_to_base64` returned. -/
structure Posts (ι : Type u) where
  world : ι → World
  sent : List (List Byte)

/-- One call at one process. The texts may be passed on at any time; `rest` is what lies behind a
    buffer, `junk` what lies behind a text. -/
inductive TextStep [DecidableEq ι] : Posts ι → ι × Record.Event Field → Posts ι → Prop where
  | call {x : Posts ι} {i : ι} {w : World} {op : Record.Op Field} {result : Record.Result}
      (h : Env.ObservedStep (N.env S i) S (x.world i) (op, result) w) :
      TextStep x (i, .call op result) ⟨Function.update x.world i w, x.sent⟩
  | send {x : Posts ι} {i : ι} {w : World} {b : Nat} {blk : Block} {alloc : Nat → Bool}
      {q : Ptr} {h' : Heap} {B rest text : List Byte}
      (hw : Env.CallerStep (N.env S i) S (x.world i) w) (hb : b ∈ w.structs)
      (hl : w.heap.block? b = some blk) (hsend : N.Sendable S i w.heap blk)
      (hser : (N.env S i).getSerializer S (.base b) w.heap = .ok (q, h'))
      (hbytes : (N.env S i).serializer_fn S w.heap (.base b) = some B)
      (hrest : Runtime.padLength B.length + 8 ≤ rest.length)
      (hrun : Runtime.tyr_serialize_to_base64 (N.bigEndian i) alloc
        (fun p => ((N.env S i).serializer_fn S w.heap p).map (· ++ rest)) (.base b) =
          .ok (some text)) :
      TextStep x (i, .send b x.sent.length)
        ⟨Function.update x.world i ⟨h', w.structs⟩, x.sent ++ [text]⟩
  | receive {x : Posts ι} {i : ι} {w : World} {k b : Nat} {alloc : Nat → Bool}
      {text junk : List Byte} {o : Runtime.Outcome (Ptr × Heap)} {h' : Heap}
      (hw : Env.CallerStep (N.env S i) S (x.world i) w) (hk : x.sent[k]? = some text)
      (hrun : Runtime.tyr_deserialize_from_base64 (N.bigEndian i) alloc
        (fun decoded => (N.env S i).deserializer_fn S w.heap (some decoded)) (text ++ junk) =
          .ok o)
      (hret : o.returned = some (.base b, h')) :
      TextStep x (i, .receive k b)
        ⟨Function.update x.world i
            ⟨h'.kill w.heap.next, Env.withResult w.structs (.base b)⟩, x.sent⟩

/-- A text from which every process reads the record. -/
def TextMessage (text : List Byte) (r : Record Field) : Prop :=
  ∃ B extra : List Byte, Runtime.Framed false B ∧ N.Message S (B.map .byte) r ∧
    extra.length = 8 ∧ Runtime.textLength B.length + 8 < 2 ^ 64 ∧
    text = Runtime.encodeU64 false (Runtime.textLength B.length) ++
      Base64.encode (B.drop 8 ++ extra)

/-- The texts are the records sent. -/
structure Posted (x : Posts ι) (y : Record.Exchange ι Field) : Prop where
  world : ∀ i, (N.env S i).Represents S (x.world i) (y.store i)
  sent : List.Forall₂ (N.TextMessage S) x.sent y.sent

/-- Accessor calls return, and where there is memory a text or a struct is made: of a struct whose
    text fits 64 bits, and of every text sent. -/
structure TextsAnswer (x : Posts ι) : Prop where
  call : ∀ i w c, Env.CallerStep (N.env S i) S (x.world i) w → Env.Proper (N.env S i) S w c →
    Env.Regular (N.env S i) S c → ∃ v h', (N.env S i).call S c w.heap = .ok (v, h')
  send : ∀ i w b blk alloc rest, Env.CallerStep (N.env S i) S (x.world i) w → b ∈ w.structs →
    w.heap.block? b = some blk → N.Sendable S i w.heap blk → (∀ n, alloc n = true) →
      ∃ B, (N.env S i).serializer_fn S w.heap (.base b) = some B ∧
        (Runtime.textLength B.length + 8 < 2 ^ 64 → Runtime.padLength B.length + 8 ≤ rest.length →
          ∃ text, Runtime.tyr_serialize_to_base64 (N.bigEndian i) alloc
            (fun p => ((N.env S i).serializer_fn S w.heap p).map (· ++ rest)) (.base b) =
              .ok (some text))
  receive : ∀ i w alloc text junk, Env.CallerStep (N.env S i) S (x.world i) w → text ∈ x.sent →
    (∀ n, alloc n = true) →
      ∃ o b h', Runtime.tyr_deserialize_from_base64 (N.bigEndian i) alloc
          (fun decoded => (N.env S i).deserializer_fn S w.heap (some decoded)) (text ++ junk) =
            .ok o ∧ o.returned = some (.base b, h')

variable {N S} {x : Posts ι} {y : Record.Exchange ι Field} {i : ι} {blk : Block}
  {r : Record Field}

/-- What the encoder makes of a message. -/
theorem textMessage_of_run {α : Type} {alloc : Nat → Bool} {s : α → Option (List Byte)} {p : α}
    {B rest text : List Byte} (hframed : Runtime.Framed false B)
    (hmsg : N.Message S (B.map .byte) r) (hs : s p = some (B ++ rest))
    (hrest : Runtime.padLength B.length + 8 ≤ rest.length)
    (hrun : Runtime.tyr_serialize_to_base64 false alloc s p = .ok (some text)) :
    N.TextMessage S text r := by
  have hmem : B ++ rest = Runtime.encodeU64 false B.length ++ (B.drop 8 ++ rest) := by
    rw [← List.append_assoc, ← hframed.eq_append]
  have hlt := hframed.lt
  by_cases hlen : Runtime.textLength B.length + 8 < 2 ^ 64
  · by_cases halloc : alloc (Runtime.textLength B.length + 8) = true
    · rw [Runtime.serialize_framed hframed hs hrest hlen halloc] at hrun
      obtain rfl := Option.some.inj (Except.ok.inj hrun)
      exact ⟨B, rest.take 8, hframed, hmsg, by rw [List.length_take]; omega, hlen, rfl⟩
    · rw [Runtime.serialize_null (hmem ▸ hs) hlt hlen halloc] at hrun
      cases hrun
  · have hmany : B.length ≤ 8 + (B.drop 8 ++ rest).length := by
      rw [List.length_append, List.length_drop]
      omega
    obtain ⟨e, herr, -⟩ := Runtime.serialize_overflow (hmem ▸ hs) hlt hmany (not_lt.mp hlen)
    cases herr.symm.trans hrun

/-- What the decoder makes of it: a longer block that begins with the buffer. -/
theorem decoded_of_text {R : Type} {text : List Byte} (hmsg : N.TextMessage S text r) :
    ∃ n, ∀ (alloc : Nat → Bool) (d : List Byte → Option R) (junk : List Byte),
      (alloc n = true → ∃ B more, (B ++ more).length < 2 ^ 64 ∧ N.Message S (B.map .byte) r ∧
        ∃ o, Runtime.tyr_deserialize_from_base64 false alloc d (text ++ junk) = .ok o ∧
          o.returned = d (B ++ more)) ∧
      (¬ alloc n = true →
        Runtime.tyr_deserialize_from_base64 false alloc d (text ++ junk) = .error .null) := by
  obtain ⟨B, extra, hframed, hmsg, hextra, hlen, rfl⟩ := hmsg
  have hle := hframed.le
  have hdata : (B.drop 8 ++ extra).length = B.length := by
    rw [List.length_append, List.length_drop]
    omega
  have htext : (Base64.encode (B.drop 8 ++ extra)).length = Runtime.textLength B.length := by
    rw [Base64.length_encode, hdata]
    rfl
  have hfits : (Base64.encode (B.drop 8 ++ extra)).length < 2 ^ 64 := by omega
  have hfour : (Base64.encode (B.drop 8 ++ extra)).length % 4 = 0 := by
    rw [Base64.length_encode]
    exact Nat.mul_mod_right 4 _
  rw [← htext]
  refine ⟨(Base64.encode (B.drop 8 ++ extra)).length / 4 * 3 + 8, fun alloc d junk => ?_⟩
  rw [List.append_assoc]
  refine ⟨fun halloc => ?_, Runtime.deserialize_null hfits hfour⟩
  obtain ⟨tail, htail, hok⟩ := Runtime.deserialize_eq false d junk hfits
    (Base64.decode_encode _) halloc
  have hsplit : B ++ (extra ++ tail) =
      Runtime.encodeU64 false (B.drop 8 ++ extra).length ++ (B.drop 8 ++ extra ++ tail) := by
    rw [hdata, List.append_assoc, ← List.append_assoc (Runtime.encodeU64 false B.length),
      ← hframed.eq_append]
  refine ⟨B, extra ++ tail, ?_, hmsg, _, hok, by rw [hsplit]⟩
  rw [List.length_append, List.length_append]
  omega

section Calls

variable (flat : S.IsFlat) (hn : S.DistinctNames) (hcf : S.CountsFirst)
  (hA : ∀ i t n, (N.alloc i).succeeds t n = true)
  (hstruct : N.layout.structSize S.packed S.elements < 2 ^ 64) (hLE : ∀ i, N.bigEndian i = false)
  (hrep : N.Posted S x y)
include flat hn hA hLE hrep

/-- The text for a struct is one that every process reads. -/
theorem text_sent {w : World} {b : Nat} {alloc : Nat → Bool} {q : Ptr} {h' : Heap}
    {B rest text : List Byte} (hw : Env.CallerStep (N.env S i) S (x.world i) w)
    (hb : b ∈ w.structs) (hl : w.heap.block? b = some blk) (hsend : N.Sendable S i w.heap blk)
    (hser : (N.env S i).getSerializer S (.base b) w.heap = .ok (q, h'))
    (hbytes : (N.env S i).serializer_fn S w.heap (.base b) = some B)
    (hrest : Runtime.padLength B.length + 8 ≤ rest.length)
    (hrun : Runtime.tyr_serialize_to_base64 (N.bigEndian i) alloc
      (fun p => ((N.env S i).serializer_fn S w.heap p).map (· ++ rest)) (.base b) =
        .ok (some text)) :
    ∃ r, y.store i b = some r ∧ N.TextMessage S text r ∧
      (N.env S i).Represents S ⟨h', w.structs⟩ (y.store i) := by
  have hrep₁ := (hrep.world i).frame w hw.1 hw.2
  obtain ⟨out, r, hok, hst, hout, hframed, hmsg⟩ := save_bytes flat hn hA hrep₁ hb hl hsend
  obtain ⟨-, rfl⟩ := Prod.mk.inj (Except.ok.inj (hok.symm.trans hser))
  obtain rfl := Option.some.inj (hout.symm.trans hbytes)
  rw [hLE i] at hrun
  refine ⟨r, hst, textMessage_of_run hframed hmsg (by rw [hout]; rfl) hrest hrun, ?_⟩
  exact hrep₁.frame ⟨w.heap.push out, w.structs⟩ rfl fun d hd =>
    Heap.block?_push_of_lt (hrep₁.owned.lt_next hd) out

include hstruct

/-- Where there is memory for the bytes, a new struct with the record is made of a text. -/
theorem text_received {w : World} {k : Nat} {text : List Byte}
    (hw : Env.CallerStep (N.env S i) S (x.world i) w) (hk : x.sent[k]? = some text) :
    ∃ r n, y.sent[k]? = some r ∧ ∀ (alloc : Nat → Bool) (junk : List Byte),
      (alloc n = true → ∃ o h', Runtime.tyr_deserialize_from_base64 (N.bigEndian i) alloc
            (fun decoded => (N.env S i).deserializer_fn S w.heap (some decoded)) (text ++ junk) =
              .ok o ∧
          o.returned = some (.base (w.heap.next + 1), h') ∧
          y.store i (w.heap.next + 1) = none ∧ (N.env S i).Represents S
            ⟨h'.kill w.heap.next, Env.withResult w.structs (.base (w.heap.next + 1))⟩
            (Function.update (y.store i) (w.heap.next + 1) (some r))) ∧
      (¬ alloc n = true → Runtime.tyr_deserialize_from_base64 (N.bigEndian i) alloc
          (fun decoded => (N.env S i).deserializer_fn S w.heap (some decoded)) (text ++ junk) =
            .error .null) := by
  obtain ⟨hlt, hget⟩ := List.getElem?_eq_some_iff.mp hk
  have hlt' : k < y.sent.length := hrep.sent.length_eq ▸ hlt
  have hmsg := hrep.sent.get hlt hlt'
  simp only [List.get_eq_getElem, hget] at hmsg
  obtain ⟨n, hn'⟩ := decoded_of_text (R := Ptr × Heap) hmsg
  rw [hLE i]
  refine ⟨_, n, List.getElem?_eq_getElem hlt', fun alloc junk => ⟨fun halloc => ?_, (hn' _ _ _).2⟩⟩
  obtain ⟨B, more, hfit, hmsg, o, hrun, ho⟩ := (hn' _ _ _).1 halloc
  have hcarry : (N.env S i).Carries S (y.sent.get ⟨k, hlt'⟩).value ((B ++ more).map .byte) := by
    rw [List.map_append]
    exact (hmsg.wire i).append flat.toWellFormed _
  obtain ⟨h', hd, hnone, hrep₂⟩ := load_bytes flat hn hA hstruct
    ((hrep.world i).frame w hw.1 hw.2) hfit hmsg.bounded (hmsg.swappable i) hcarry
  exact ⟨o, h', hrun, ho.trans hd, hnone, hrep₂⟩

include hcf

/-- Each step of the processes is one of the exchange. -/
theorem textStep_refines [DecidableEq ι] {e : ι × Record.Event Field} {x' : Posts ι}
    (hstep : N.TextStep S x e x') :
    ∃ y', Record.ExchangeStep Field.isMutable y e y' ∧ N.Posted S x' y' := by
  have hupdate : ∀ {i : ι} {w : World} {st : Record.Store Field},
      (N.env S i).Represents S w st → ∀ j, (N.env S j).Represents S
        (Function.update x.world i w j) (Function.update y.store i st j) := fun hw j =>
    Represents.update (x := ⟨x.world, []⟩) (y := ⟨y.store, []⟩) ⟨hrep.world, .nil⟩ hw j
  cases hstep with
  | @call i w op result h =>
    obtain ⟨w₁, c, v, hcaller, hproper, hreg, hcall, hs, he⟩ := h
    have hrep₁ := (hrep.world i).frame w₁ hcaller.1 hcaller.2
    obtain ⟨st', h1, h2⟩ := Env.call_refines hrep₁ flat (resolves hn i) (hA i) hcf hstruct hproper
      hreg hcall
    rw [hcaller.1, ← hs] at h2
    rw [← he] at h1
    exact ⟨_, .call h1, hupdate h2, hrep.sent⟩
  | @send i w b blk alloc q h' B rest text hw hb hl hsend hser hbytes hrest hrun =>
    obtain ⟨r, hst, hmsg, hpush⟩ :=
      text_sent flat hn hA hLE hrep hw hb hl hsend hser hbytes hrest hrun
    have hafter := hupdate hpush
    rw [Function.update_eq_self] at hafter
    refine ⟨⟨y.store, y.sent ++ [r]⟩, ?_, hafter, List.rel_append hrep.sent (.cons hmsg .nil)⟩
    rw [hrep.sent.length_eq]
    exact .send hst
  | @receive i w k b alloc text junk o h' hw hk hrun hret =>
    obtain ⟨r, n, hr, hread⟩ := text_received flat hn hA hstruct hLE hrep hw hk
    by_cases halloc : alloc n = true
    · obtain ⟨o', h₁, hok, hret', hnone, hrep₂⟩ := (hread alloc junk).1 halloc
      obtain rfl := Except.ok.inj (hok.symm.trans hrun)
      obtain ⟨hp, rfl⟩ := Prod.mk.inj (Option.some.inj (hret'.symm.trans hret))
      obtain rfl := (Ptr.loc.inj hp).1
      exact ⟨_, .receive hr hnone, hupdate hrep₂, hrep.sent⟩
    · cases ((hread alloc junk).2 halloc).symm.trans hrun

/-- Where the records are those of the processes every call is answered. -/
theorem Posted.answers : N.TextsAnswer S x where
  call i w c hw hproper hreg := by
    obtain ⟨v, h', hok, -⟩ := Env.call_owned ((hrep.world i).frame w hw.1 hw.2).owned flat
      (resolves hn i) (fun t n _ => hA i t n) hstruct hproper (hreg.safe hcf)
    exact ⟨v, h', hok⟩
  send i w b blk alloc rest hw hb hl hsend halloc := by
    obtain ⟨out, r, -, -, hbytes, hframed, -⟩ :=
      save_bytes flat hn hA ((hrep.world i).frame w hw.1 hw.2) hb hl hsend
    refine ⟨_, hbytes, fun hlen hrest => ?_⟩
    rw [hLE i, Runtime.serialize_framed hframed (by rw [hbytes]; rfl) hrest hlen (halloc _)]
    exact ⟨_, rfl⟩
  receive i w alloc text junk hw hmem halloc := by
    obtain ⟨k, hk, rfl⟩ := List.mem_iff_getElem.mp hmem
    obtain ⟨r, n, -, hread⟩ :=
      text_received flat hn hA hstruct hLE hrep hw (List.getElem?_eq_getElem hk)
    obtain ⟨o, h', hok, hret, -⟩ := (hread alloc junk).1 (halloc n)
    exact ⟨o, _, h', hok, hret⟩

end Calls

end Network

open Network

/-- Every run of little-endian processes that call the accessors properly and pass on structs as
    base64 text is an exchange of records: what is read from a text is the record that was written
    to it. Wherever it has got to, such a call returns; a helper, where it has memory. -/
theorem texts_refine {ι : Type u} [DecidableEq ι] {N : Network ι} {S : Struct}
    (flat : S.IsFlat) (hn : S.DistinctNames) (hcf : S.CountsFirst)
    (hA : ∀ i t n, (N.alloc i).succeeds t n = true)
    (hstruct : N.layout.structSize S.packed S.elements < 2 ^ 64)
    (hLE : ∀ i, N.bigEndian i = false) {x₀ x : Posts ι}
    (h₀ : ∀ i, (x₀.world i).structs = ∅) (hsent : x₀.sent = [])
    {es : List (ι × Record.Event Field)} (hrun : Run (N.TextStep S) x₀ es x) :
    (∃ y, Run (Record.ExchangeStep Field.isMutable) ⟨fun _ _ => none, []⟩ es y ∧ N.Posted S x y) ∧
      N.TextsAnswer S x := by
  have hstart : N.Posted S x₀ ⟨fun _ _ => none, []⟩ :=
    ⟨fun i => ⟨Env.owned_of_empty (h₀ i), fun _ _ => rfl, fun b hb => by
      rw [h₀ i] at hb
      exact hb.elim⟩, hsent ▸ .nil⟩
  have hsim : ∀ x y e x', N.Posted S x y → N.TextStep S x e x' →
      ∃ y', Record.ExchangeStep Field.isMutable y e y' ∧ N.Posted S x' y' :=
    fun _ _ _ _ hrep hstep => textStep_refines flat hn hcf hA hstruct hLE hrep hstep
  obtain ⟨y, hy, hrep⟩ := hrun.simulates hsim hstart
  exact ⟨⟨y, hy, hrep⟩, hrep.answers flat hn hcf hA hstruct hLE⟩

/-- One creates `struct s` with 1.0 and the other reads it from a text, behind which lies a
    newline. -/
theorem texts_refine_float : ∃ es x,
    Run (littleEndians.TextStep floatStruct) ⟨fun _ => ⟨⟨[], 0⟩, ∅⟩, []⟩ es x ∧
    es.map Prod.fst = [false, false, false, true] ∧ x.sent.length = 1 ∧
    (∃ y, Run (Record.ExchangeStep Field.isMutable) ⟨fun _ _ => none, []⟩ es y ∧
      littleEndians.Posted floatStruct x y) ∧ littleEndians.TextsAnswer floatStruct x := by
  have hcaller : ∀ i w, Env.CallerStep (littleEndians.env floatStruct i) floatStruct w w :=
    fun _ _ => ⟨rfl, fun _ _ => rfl⟩
  have hanswers : ∀ {x es}, Run (littleEndians.TextStep floatStruct)
      ⟨fun _ => ⟨⟨[], 0⟩, ∅⟩, []⟩ es x → littleEndians.TextsAnswer floatStruct x := fun hrun =>
    (texts_refine floatStruct_isFlat (by unfold Struct.DistinctNames; decide) (by decide)
      (fun _ _ _ => rfl) (by decide) (fun _ => rfl) (fun _ => rfl) rfl hrun).2
  have hset : Run (littleEndians.TextStep floatStruct) ⟨fun _ => ⟨⟨[], 0⟩, ∅⟩, []⟩ [_, _] _ :=
    .cons (.call (i := false) create_floatWorld) (.cons (.call (i := false) set_floatWorld)
      (.nil _))
  have hsendable : littleEndians.Sendable floatStruct false (floatWorld false 0x3f800000).heap
      (floatBlock false 0x3f800000) :=
    ⟨sendable_floatWorld.clean, sendable_floatWorld.size, by unfold Crosses; decide⟩
  obtain ⟨B, hB, hsend⟩ := (hanswers hset).send false _ 0 _ (fun _ => true)
    (List.replicate 16 0xAA) (hcaller false _) (Or.inr rfl) rfl hsendable fun _ => rfl
  obtain rfl := Option.some.inj (hB.symm.trans (show _ = some (_ :: _) from rfl))
  obtain ⟨text, htext⟩ := hsend (by decide) (by decide)
  obtain ⟨x, hsent, htexts⟩ : ∃ x, Run (littleEndians.TextStep floatStruct)
      ⟨fun _ => ⟨⟨[], 0⟩, ∅⟩, []⟩ [_, _, (false, .send 0 0)] x ∧ x.sent = [text] :=
    ⟨_, hset.append (.cons (.send (hcaller false _) (Or.inr rfl) rfl hsendable rfl hB (by decide)
      htext) (.nil _)), rfl⟩
  obtain ⟨o, b, h', hread, hret⟩ := (hanswers hsent).receive true _ (fun _ => true) text [10]
    (hcaller true _) (by rw [htexts]; exact List.mem_singleton_self text) fun _ => rfl
  have hreceived := hsent.append (.cons (.receive (k := 0) (hcaller true _) (by rw [htexts]; rfl)
    hread hret) (.nil _))
  exact ⟨_, _, hreceived, rfl, congrArg List.length htexts, texts_refine floatStruct_isFlat
    (by unfold Struct.DistinctNames; decide) (by decide) (fun _ _ _ => rfl) (by decide)
    (fun _ => rfl) (fun _ => rfl) rfl hreceived⟩

end Tyr
