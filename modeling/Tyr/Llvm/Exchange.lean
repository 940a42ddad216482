import Tyr.Llvm.Blocks
import Tyr.Wire.Exchange
import Tyr.Parser.Declared

/-
  From the text of a schema to records that are exchanged.

  A `Build` is what the compiler made of the structs of one schema for several machines: for each
  the names of its builtins, the order in which the structs were visited and the code. `Build.Step`
  is `Network.Step` with that code: a call takes the blocks it runs through.

  `schema_refines`: the text of a schema of builtin types is compiled for every machine, and modules
  that run the code exchange records.
-/

namespace Tyr

universe u

/-! ## Schemas of builtin types -/

namespace Parser

variable {std : StdSort .default} {schema : List StructSource} {M : Module}

theorem Builtin.isScalar {b : Builtin} (hb : b.Valid) : b.ty.IsScalar := by
  cases b with
  | bool => exact Nat.one_pos
  | float => trivial
  | double => trivial
  | int bits => exact hb.1
  | uint bits => exact hb.1

/-- Each field is one of a builtin type, an array of one or a count. -/
theorem entry_builtin {d : FieldDecl} {b : Builtin} (hb : b.Valid) (hd : d.type = b.text)
    {e : Entry} (he : e ∈ d.entries M) :
    e.isRepeated = false ∧ e.type.IsScalar ∨ e.isRepeated = true ∧ e.type = .ptr b.ty := by
  have htype : M.parseType d.type d.isRepeated =
      .ok (some (if d.isRepeated then .ptr b.ty else b.ty)) := by
    unfold Module.parseType
    rw [hd, parseElementType_builtin hb]
    rfl
  unfold FieldDecl.entries FieldDecl.entriesOf at he
  rw [htype] at he
  cases hr : d.isRepeated with
  | false =>
    simp only [hr, Bool.false_eq_true, if_false, List.mem_singleton] at he
    subst he
    exact Or.inl ⟨rfl, Builtin.isScalar hb⟩
  | true =>
    simp only [hr, if_true, List.mem_cons, List.not_mem_nil, or_false] at he
    rcases he with rfl | rfl
    · exact Or.inl ⟨rfl, (by decide : 0 < 64)⟩
    · exact Or.inr ⟨rfl, rfl⟩

/-- What the text of a schema of builtin types builds. -/
theorem schema_isFlat (hwf : SchemaWellFormed [] schema)
    (hbuiltin : ∀ s ∈ schema, ∀ f ∈ s.fields, ∃ b, f.type = .builtin b)
    (h : parseFile std (schemaText schema) = .ok (true, M)) : ∀ S ∈ M.structs, S.IsFlat := by
  intro S hS
  have hM := complete_schema hwf h
  obtain ⟨P, hrun, rfl⟩ := run_of_parseFile h
  rw [fileLines_schema hwf] at hrun
  obtain ⟨s, hs, hname⟩ : ∃ s ∈ schema, s.name = S.name := by
    have hmem := (mem_names_iff hrun S.name).mp (List.mem_map_of_mem hS)
    rw [headers_schema] at hmem
    exact List.mem_map.mp hmem
  obtain ⟨-, hperm⟩ := declared_schema hwf hM hs hS hname.symm
  have hentry : ∀ f ∈ S.fields, f.isRepeated = false ∧ f.type.IsScalar ∨
      f.isRepeated = true ∧ ∃ t, f.type = .ptr t ∧ t.IsScalar := by
    intro f hf
    obtain ⟨g, hg, he⟩ := List.mem_flatMap.mp (hperm.mem_iff.mp (List.mem_map_of_mem hf))
    obtain ⟨b, hb⟩ := hbuiltin s hs g hg
    have hvalid : b.Valid := by
      have ht := (wellFormed_of_mem hwf hs).types g hg
      rwa [hb] at ht
    have hd : g.decl.type = b.text := congrArg TypeRef.text hb
    exact (entry_builtin hvalid hd he).imp_right fun ⟨hr, ht⟩ =>
      ⟨hr, b.ty, ht, Builtin.isScalar hvalid⟩
  refine ⟨((consistent_of_run hrun).linked S hS).wellFormed (hM.isComplete S hS), fun f hf hr => ?_,
    fun f hf t hr ht => ?_⟩
  · rcases hentry f hf with ⟨-, hs⟩ | ⟨hr', -⟩
    · exact hs
    · rw [hr'] at hr
      cases hr
  · rcases hentry f hf with ⟨hr', -⟩ | ⟨-, t', ht', hs⟩
    · rw [hr'] at hr
      cases hr
    · rw [ht] at ht'
      cases ht'
      exact hs

end Parser

namespace Llvm

open Ssa

/-- Structs of scalars and arrays of scalars can be emitted in either byte order. -/
theorem emittable_of_isFlat {DL : DataLayout} {S : Struct} (flat : S.IsFlat) : Emittable DL S := by
  intro f hf
  refine ⟨flat.isStruct f hf, fun _ hr => ?_⟩
  exact flat.element f hf _ hr (flat.toWellFormed.array_spec hf hr).1

/-! ## Calls -/

section Calls

variable {E : Env} {S : Struct} {w : World} {c : Call} {args : List Val} {h : Heap}

theorem perform_eq (hfun : E.Resolves S) (hc : c.func S ∈ generatedFunctions S) :
    E.call S c = perform E S (c.func S) (c.args S) := by
  refine (Env.callSymbol_of_mem hfun hc _).trans ?_
  cases c <;> rfl

/-- A proper call is one of a function there is. -/
theorem func_mem (hc : E.Proper S w c) : c.func S ∈ generatedFunctions S := by
  cases c with
  | create arg => exact List.mem_append_right _ (by simp [structFunctions, Call.func])
  | get f Self p => exact mem_generatedFunctions hc.2.1 (by simp [mem_fieldFunctions, Call.func])
  | getItem f Self idx p =>
    exact mem_generatedFunctions hc.2.1 (by simp [mem_fieldFunctions, Call.func, hc.2.2.1])
  | set f Self v =>
    exact mem_generatedFunctions hc.2.1 (by simp [mem_fieldFunctions, Call.func, hc.2.2.1])
  | setArray f Self src n =>
    exact mem_generatedFunctions hc.2.1 (by simp [mem_fieldFunctions, Call.func, hc.2.2.1])
  | setItem f Self idx v =>
    exact mem_generatedFunctions hc.2.1 (by simp [mem_fieldFunctions, Call.func, hc.2.2.1])
  | destroy Self => exact List.mem_append_right _ (by simp [structFunctions, Call.func])

end Calls

/-! ## Compiled modules -/

/-- A network of machines with what the compiler made of the structs for each of them. -/
structure Build (ι : Type u) extends Network ι where
  builtins : ι → Builtins
  order : ι → List Struct
  code : ι → Module
  visited : ∀ i, visit (layout.withOrder (bigEndian i)) (builtins i) (order i) = some (code i)
  wellFormed : ∀ i, ∀ S ∈ order i, S.WellFormed
  distinct : ∀ i, Tyr.DistinctNames (order i)
  builtins_nodup : ∀ i, (builtins i).names.Nodup
  not_builtin : ∀ i, ∀ S ∈ order i, ∀ g ∈ generatedFunctions S, g.name ∉ (builtins i).names

namespace Build

variable {ι : Type u} (D : Build ι) (S : Struct)

abbrev env (i : ι) : Env := Network.env D.toNetwork S i

/-- The code of module `i` gets to the end of the function and returns `v`. -/
def Returns (i : ι) (g : Func) (args : List Val) (h : Heap) (v : Val) (h' : Heap) : Prop :=
  ∃ n, ∀ m, n ≤ m →
    callFunction (D.builtins i) (D.env S i) (D.code i) 3 g.name args m h = some (.ok (v, h'))

/-- One call at one module, as in `Network.Step`. -/
inductive Step [DecidableEq ι] :
    Network.State ι → ι × Record.Event Field → Network.State ι → Prop where
  | call {x : Network.State ι} {i : ι} {w : World} {c : Call} {v : Val} {h' : Heap}
      (hw : Env.CallerStep (D.env S i) S (x.world i) w) (hproper : Env.Proper (D.env S i) S w c)
      (hreg : Env.Regular (D.env S i) S c) (hargs : Accepts (c.func S) (c.args S))
      (hrun : D.Returns S i (c.func S) (c.args S) w.heap v h') :
      Step x (i, .call (Env.denote (D.env S i) S w.heap c) (Env.observe (D.env S i) S h' c v))
        ⟨Function.update x.world i ⟨h', Env.structsAfter w.structs c v⟩, x.sent⟩
  | send {x : Network.State ι} {i : ι} {w : World} {b : Nat} {blk buf : Block} {v : Val}
      {h' : Heap} (hw : Env.CallerStep (D.env S i) S (x.world i) w) (hb : b ∈ w.structs)
      (hl : w.heap.block? b = some blk) (hsend : D.Sendable S i w.heap blk)
      (hrun : D.Returns S i (.serializer S) [.ptr (.base b)] w.heap v h')
      (hbuf : h'.block? v.asPtr.block = some buf) :
      Step x (i, .send b x.sent.length)
        ⟨Function.update x.world i ⟨h', w.structs⟩, x.sent ++ [buf.cells]⟩
  | receive {x : Network.State ι} {i : ι} {w : World} {a k : Nat} {buf : Block} {v : Val}
      {h' : Heap} (hw : Env.CallerStep (D.env S i) S (x.world i) w)
      (ha : w.heap.block? a = some buf) (hk : x.sent[k]? = some buf.cells)
      (hrun : D.Returns S i (.deserializer S) [.ptr (.base a)] w.heap v h') :
      Step x (i, .receive k v.asPtr.block)
        ⟨Function.update x.world i ⟨h', Env.withResult w.structs v.asPtr⟩, x.sent⟩

/-- Every call that is allowed comes to an end and returns: a buffer or a struct where one is
    due. -/
structure Answers (x : Network.State ι) : Prop where
  call : ∀ i w c, Env.CallerStep (D.env S i) S (x.world i) w → Env.Proper (D.env S i) S w c →
    Env.Regular (D.env S i) S c → Accepts (c.func S) (c.args S) →
      ∃ v h', D.Returns S i (c.func S) (c.args S) w.heap v h'
  send : ∀ i w b blk, Env.CallerStep (D.env S i) S (x.world i) w → b ∈ w.structs →
    w.heap.block? b = some blk → D.Sendable S i w.heap blk →
      ∃ a buf h', D.Returns S i (.serializer S) [.ptr (.base b)] w.heap (.ptr (.base a)) h' ∧
        h'.block? a = some buf
  receive : ∀ i w a buf, Env.CallerStep (D.env S i) S (x.world i) w →
    w.heap.block? a = some buf → buf.cells ∈ x.sent →
      ∃ b obj h', D.Returns S i (.deserializer S) [.ptr (.base a)] w.heap (.ptr (.base b)) h' ∧
        h'.block? b = some obj

variable {D S} {i : ι} {x x' : Network.State ι} {h h' : Heap} {v : Val} {g : Func}
  {args : List Val}

/-- `serialize_S` and `deserialize_S` take one pointer. -/
theorem accepts_pointer (wf : S.WellFormed) (hg : g = .serializer S ∨ g = .deserializer S)
    (p : Ptr) : Accepts g [.ptr p] := by
  obtain ⟨T, hT⟩ := Option.isSome_iff_exists.mp wf.isSome_type
  rcases hg with rfl | rfl
  · exact ⟨_, congrArg (Option.map _) hT, .cons ⟨p, rfl⟩ .nil⟩
  · exact ⟨_, congrArg (Option.map _) hT, .cons ⟨p, rfl⟩ .nil⟩

section Calls

variable (hS : S ∈ D.order i)
include hS

theorem distinctNames : S.DistinctNames := by
  have hn := D.distinct i
  unfold Tyr.DistinctNames at hn
  rw [List.map_flatMap, List.nodup_flatMap] at hn
  exact hn.1 S hS

theorem emitted : ∀ g ∈ generatedFunctions S,
    Emitted (D.layout.withOrder (D.bigEndian i)) (D.builtins i) S g ((D.code i).code g.name) := by
  have hvisit := D.visited i
  unfold visit at hvisit
  have hempty : ∀ T ∈ D.order i, ∀ g ∈ generatedFunctions T,
      (finalizeBuiltins (D.builtins i)).code g.name = .empty := fun _ _ _ _ => rfl
  exact (visitStructs_emit (D.distinct i) hempty hvisit).1 S hS

/-- The code does what the function of `Tyr.CodeGen` does. -/
theorem returns_iff (hg : g ∈ generatedFunctions S) (hargs : Accepts g args) :
    D.Returns S i g args h v h' ↔ perform (D.env S i) S g args h = .ok (v, h') := by
  have hlayout : (D.env S i).layout = D.layout.withOrder (D.bigEndian i) := rfl
  have hruns := runs_generated (D.builtins_nodup i) hlayout (D.wellFormed i S hS)
    (D.not_builtin i S hS) (emitted hS) (Network.resolves (distinctNames hS) i) hg hargs 0
  obtain ⟨n, hn⟩ := hruns h
  constructor
  · rintro ⟨n', hn'⟩
    have hsame := (hn (max n n') (le_max_left _ _)).symm.trans (hn' _ (le_max_right _ _))
    exact Option.some.inj hsame
  · intro hok
    exact ⟨n, fun m hm => (hn m hm).trans (congrArg some hok)⟩

theorem returns_call {c : Call} {w : World} (hproper : Env.Proper (D.env S i) S w c)
    (hargs : Accepts (c.func S) (c.args S)) :
    D.Returns S i (c.func S) (c.args S) h v h' ↔ (D.env S i).call S c h = .ok (v, h') := by
  rw [returns_iff hS (func_mem hproper) hargs,
    perform_eq (Network.resolves (distinctNames hS) i) (func_mem hproper)]

theorem returns_serializer (p : Ptr) : D.Returns S i (.serializer S) [.ptr p] h v h' ↔
    (D.env S i).callApi S (.serialize p) h = .ok (v, h') :=
  returns_iff hS (List.mem_append_right _ (by simp [structFunctions]))
    (accepts_pointer (D.wellFormed i S hS) (Or.inl rfl) p)

theorem returns_deserializer (p : Ptr) : D.Returns S i (.deserializer S) [.ptr p] h v h' ↔
    (D.env S i).callApi S (.deserialize p) h = .ok (v, h') :=
  returns_iff hS (List.mem_append_right _ (by simp [structFunctions]))
    (accepts_pointer (D.wellFormed i S hS) (Or.inr rfl) p)

end Calls

/-- A step of the code is one of the functions. -/
theorem Step.network [DecidableEq ι] (hS : ∀ i, S ∈ D.order i) {e : ι × Record.Event Field}
    (h : D.Step S x e x') : Network.Step D.toNetwork S x e x' := by
  cases h with
  | call hw hproper hreg hargs hrun =>
    exact .call ⟨_, _, _, hw, hproper, hreg, (returns_call (hS _) hproper hargs).mp hrun,
      congrArg (Env.structsAfter · _ _) hw.1, rfl⟩
  | send hw hb hl hsend hrun hbuf =>
    exact .send hw hb hl hsend ((returns_serializer (hS _) _).mp hrun) hbuf
  | receive hw ha hk hrun =>
    exact .receive hw ha hk ((returns_deserializer (hS _) _).mp hrun)

theorem Answers.of_network (hS : ∀ i, S ∈ D.order i) (h : Network.Answers D.toNetwork S x) :
    D.Answers S x where
  call i w c hw hproper hreg hargs := by
    obtain ⟨v, h', hok⟩ := h.call i w c hw hproper hreg
    exact ⟨v, h', (returns_call (hS i) hproper hargs).mpr hok⟩
  send i w b blk hw hb hl hsend := by
    obtain ⟨a, buf, h', hok, hbuf⟩ := h.send i w b blk hw hb hl hsend
    exact ⟨a, buf, h', (returns_serializer (hS i) _).mpr hok, hbuf⟩
  receive i w a buf hw ha hmem := by
    obtain ⟨b, obj, h', hok, hobj⟩ := h.receive i w a buf hw ha hmem
    exact ⟨b, obj, h', (returns_deserializer (hS i) _).mpr hok, hobj⟩

end Build

/-- The structs of a module are compiled for every machine, in whatever order each visits them. -/
theorem exists_build {ι : Type u} {N : Network ι} {Ss : List Struct} {B : ι → Builtins}
    {order : ι → List Struct} (flat : ∀ S ∈ Ss, S.IsFlat) (hn : Tyr.DistinctNames Ss)
    (horder : ∀ i, (order i).Perm Ss) (hB : ∀ i, (B i).names.Nodup)
    (hnames : ∀ i, ∀ S ∈ Ss, ∀ g ∈ generatedFunctions S, g.name ∉ (B i).names) :
    ∃ D : Build ι, D.toNetwork = N ∧ D.builtins = B ∧ D.order = order := by
  have hmem : ∀ {i S}, S ∈ order i → S ∈ Ss := fun hS => (horder _).mem_iff.mp hS
  have hdistinct : ∀ i, Tyr.DistinctNames (order i) := fun i =>
    (((horder i).flatMap_right _).map _).nodup_iff.mpr hn
  have hvisit : ∀ i, ∃ M, visit (N.layout.withOrder (N.bigEndian i)) (B i) (order i) = some M :=
    fun i => (visit_wellFormed (fun S hS => (flat S (hmem hS)).toWellFormed) (hdistinct i) (hB i)
      (fun S hS => hnames i S (hmem hS)) fun S hS => emittable_of_isFlat (flat S (hmem hS))).imp
        fun _ h => h.1
  choose code hcode using hvisit
  exact ⟨⟨N, B, order, code, hcode, fun i S hS => (flat S (hmem hS)).toWellFormed, hdistinct, hB,
    fun i S hS => hnames i S (hmem hS)⟩, rfl, rfl, rfl⟩

/-- Whatever machines there are, the text of a schema of builtin types is compiled for each, and
    modules that run the code are an exchange of records: over every run they have the results of
    the records, and wherever it has got to, every call that `Answers` names ends and returns.
    Allocations succeed, and counts are before their arrays. -/
theorem schema_refines {ι : Type u} [DecidableEq ι] {std : StdSort .default}
    {schema : List Parser.StructSource} {M : Tyr.Module}
    (hwf : Parser.SchemaWellFormed [] schema)
    (hbuiltin : ∀ s ∈ schema, ∀ f ∈ s.fields, ∃ b, f.type = .builtin b)
    (h : Parser.parseFile std (Parser.schemaText schema) = .ok (true, M)) (N : Network ι)
    {B : ι → Builtins} {order : ι → List Struct} (horder : ∀ i, (order i).Perm M.structs)
    (hn : Tyr.DistinctNames M.structs) (hB : ∀ i, (B i).names.Nodup)
    (hnames : ∀ i, ∀ S ∈ M.structs, ∀ g ∈ generatedFunctions S, g.name ∉ (B i).names) :
    ∃ D : Build ι, D.toNetwork = N ∧ D.builtins = B ∧ D.order = order ∧
      ∀ S ∈ M.structs, S.CountsFirst → (∀ i t n, (N.alloc i).succeeds t n = true) →
        N.layout.structSize S.packed S.elements < 2 ^ 64 → ∀ x₀ es x,
        (∀ i, (x₀.world i).structs = ∅) → x₀.sent = [] → Run (D.Step S) x₀ es x →
          (∃ y, Run (Record.ExchangeStep Field.isMutable) ⟨fun _ _ => none, []⟩ es y ∧
            N.Represents S x y) ∧ D.Answers S x := by
  have flat := Parser.schema_isFlat hwf hbuiltin h
  obtain ⟨D, rfl, rfl, rfl⟩ := exists_build (N := N) flat hn horder hB hnames
  refine ⟨D, rfl, rfl, rfl, fun S hS hcf hA hstruct x₀ es x h₀ hsent hrun => ?_⟩
  have hmem : ∀ i, S ∈ D.order i := fun i => (horder i).mem_iff.mpr hS
  have hn' : S.DistinctNames := by
    unfold Tyr.DistinctNames at hn
    rw [List.map_flatMap, List.nodup_flatMap] at hn
    exact hn.1 S hS
  have hnet : Run (Network.Step D.toNetwork S) x₀ es x := hrun.mono fun _ _ _ hstep =>
    hstep.network hmem
  obtain ⟨y, hy, hrep⟩ := Network.run_refines (flat S hS) hn' hcf hA hstruct h₀ hsent hnet
  exact ⟨⟨y, hy, hrep⟩, .of_network hmem (hrep.answers (flat S hS) hn' hcf hA hstruct)⟩

/-- `struct s { mutable float x }` -/
def floatSchema : List Parser.StructSource :=
  [⟨0, "s", false, [⟨2, true, false, false, .builtin .float, "x"⟩], 0⟩]

theorem floatSchema_wellFormed : Parser.SchemaWellFormed [] floatSchema := by
  have hword : ∀ s ∈ ["s", "x"], Parser.Identifier s := by
    intro s hs
    rcases List.mem_pair.mp hs with rfl | rfl <;>
      exact ⟨.of_chars (by decide) (by simp), by decide⟩
  refine ⟨⟨hword "s" (by decide), ?_, List.nodup_singleton _, ?_⟩, List.not_mem_nil, trivial⟩
  · intro f hf
    rw [List.mem_singleton.mp hf]
    exact hword "x" (by decide)
  · intro f hf
    rw [List.mem_singleton.mp hf]
    trivial

theorem parseFile_floatSchema :
    Parser.parseFile (.stable .default) (Parser.schemaText floatSchema) =
      .ok (true, ⟨[floatStruct], ⟨["s"], 0, 1⟩⟩) := by
  have hfinal : ((Struct.new "s").addField "x" .float true).finalizeFields (.stable .default)
      (.struct 0 "s") = floatStruct := Struct.finalizeFields_stable _ (by decide)
  rw [← hfinal]
  rfl

/-- The code of the little-endian module creates a struct, sets it to 1.0 and sends it; the code of
    the big-endian one receives it. -/
theorem Build.run_floatStruct {D : Build Bool} (hD : D.toNetwork = bothOrders)
    (hS : ∀ i, floatStruct ∈ D.order i) : ∃ es x,
      Run (D.Step floatStruct) ⟨fun _ => ⟨⟨[], 0⟩, ∅⟩, []⟩ es x ∧
      es.map Prod.fst = [false, false, false, true] ∧ x.sent.length = 1 := by
  have henv : ∀ i, D.env floatStruct i = bothOrders.env floatStruct i := fun i =>
    congrArg (fun N => Network.env N floatStruct i) hD
  have hcaller : ∀ i w, Env.CallerStep (D.env floatStruct i) floatStruct w w :=
    fun _ _ => ⟨rfl, fun _ _ => rfl⟩
  -- the big-endian module's caller puts the buffer into its empty memory
  have hmove : Env.CallerStep (D.env floatStruct true) floatStruct ⟨⟨[], 0⟩, ∅⟩
      ⟨⟨[some (floatMessage 0x3f800000)], 0⟩, ∅⟩ :=
    ⟨rfl, fun d hd => hd.elim False.elim fun ⟨b, f, hb, _⟩ => hb.elim⟩
  have hnew : Env.Proper (D.env floatStruct false) floatStruct ⟨⟨[], 0⟩, ∅⟩
      (.create fun _ => .int 0) := by
    rw [henv]
    exact ⟨fun _ _ _ _ => ⟨0, rfl⟩, by decide⟩
  have hput : Env.Proper (D.env floatStruct false) floatStruct (floatWorld false 0)
      (.set floatX (.base 0) (.int 0x3f800000)) := by
    rw [henv]
    exact ⟨⟨0, Or.inr rfl, rfl⟩, by decide, rfl, rfl, _, rfl⟩
  have hputargs : Accepts (Call.func floatStruct (.set floatX (.base 0) (.int 0x3f800000)))
      (Call.args floatStruct (.set floatX (.base 0) (.int 0x3f800000))) :=
    ⟨_, rfl, .cons ⟨_, rfl⟩ (.cons ⟨_, rfl⟩ .nil)⟩
  have hcreate : D.Step floatStruct ⟨fun _ => ⟨⟨[], 0⟩, ∅⟩, []⟩ _
      ⟨Function.update (fun _ => ⟨⟨[], 0⟩, ∅⟩) false (floatWorld false 0), []⟩ :=
    .call (hcaller false _) hnew (by rw [henv]; unfold Env.Regular; decide) ⟨_, rfl, .nil⟩
      ((Build.returns_call (hS false) hnew ⟨_, rfl, .nil⟩).mpr (by rw [henv]; rfl))
  have hset : D.Step floatStruct
      ⟨Function.update (fun _ => ⟨⟨[], 0⟩, ∅⟩) false (floatWorld false 0), []⟩ _
      ⟨Function.update (Function.update (fun _ => ⟨⟨[], 0⟩, ∅⟩) false (floatWorld false 0)) false
        (floatWorld false 0x3f800000), []⟩ :=
    .call (i := false) (v := .int 1) (hcaller false _) hput
      (by rw [henv]; exact ⟨by decide, by decide⟩)
      hputargs ((Build.returns_call (hS false) hput hputargs).mpr (by rw [henv]; rfl))
  have hsend : D.Step floatStruct _ (false, .send 0 0) ⟨Function.update (Function.update
      (Function.update (fun _ => ⟨⟨[], 0⟩, ∅⟩) false (floatWorld false 0)) false
        (floatWorld false 0x3f800000)) false ⟨(floatWorld false 0x3f800000).heap.push
          (floatMessage 0x3f800000), (floatWorld false 0x3f800000).structs⟩,
      [(floatMessage 0x3f800000).cells]⟩ :=
    .send (x := ⟨_, []⟩) (hcaller false _) (Or.inr rfl) rfl (by rw [hD]; exact sendable_floatWorld)
      ((Build.returns_serializer (hS false) _).mpr (by rw [henv]; rfl))
      (show _ = some (floatMessage 0x3f800000) from rfl)
  obtain ⟨x, hrun, hworld, hsent⟩ : ∃ x, Run (D.Step floatStruct) ⟨fun _ => ⟨⟨[], 0⟩, ∅⟩, []⟩
      [_, _, (false, .send 0 0)] x ∧ x.world true = ⟨⟨[], 0⟩, ∅⟩ ∧
      x.sent = [(floatMessage 0x3f800000).cells] :=
    ⟨_, .cons hcreate (.cons hset (.cons hsend (.nil _))), rfl, rfl⟩
  obtain ⟨h', hread⟩ : ∃ h', (D.env floatStruct true).callApi floatStruct (.deserialize (.base 0))
      ⟨[some (floatMessage 0x3f800000)], 0⟩ = .ok (.ptr (.base 1), h') := by
    rw [henv]
    exact ⟨_, rfl⟩
  rw [← hworld] at hmove
  have hreceive := Build.Step.receive (k := 0) (a := 0) hmove rfl (by rw [hsent]; rfl)
    ((Build.returns_deserializer (hS true) _).mpr hread)
  exact ⟨_, _, hrun.append (.cons hreceive (.nil _)), rfl, congrArg List.length hsent⟩

/-- The two modules are built from the text of the schema. -/
theorem schema_refines_float : ∃ (D : Build Bool) (es : List (Bool × Record.Event Field))
    (x : Network.State Bool), D.toNetwork = bothOrders ∧
    Run (D.Step floatStruct) ⟨fun _ => ⟨⟨[], 0⟩, ∅⟩, []⟩ es x ∧
    es.map Prod.fst = [false, false, false, true] ∧ x.sent.length = 1 ∧
    (∃ y, Run (Record.ExchangeStep Field.isMutable) ⟨fun _ _ => none, []⟩ es y ∧
      bothOrders.Represents floatStruct x y) ∧ D.Answers floatStruct x := by
  obtain ⟨D, hD, -, horder, hall⟩ := schema_refines floatSchema_wellFormed
    (List.forall_mem_singleton.mpr (List.forall_mem_singleton.mpr ⟨.float, rfl⟩))
    parseFile_floatSchema bothOrders (B := fun _ => ⟨"malloc", "realloc", "free"⟩)
    (fun _ => List.Perm.refl _) (by unfold Tyr.DistinctNames; decide)
    (fun _ => by decide) fun _ => List.forall_mem_singleton.mpr (by decide)
  obtain ⟨es, x, hrun, hes, hsent⟩ := Build.run_floatStruct hD fun i => by
    rw [horder]
    exact List.mem_singleton_self _
  exact ⟨D, es, x, hD, hrun, hes, hsent, hall floatStruct (List.mem_singleton_self _) (by decide)
    (fun _ _ _ => rfl) (by decide) _ es x (fun _ => rfl) rfl hrun⟩

end Llvm

end Tyr
