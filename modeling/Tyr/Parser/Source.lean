import Tyr.Parser.Comments
import Tyr.Parser.Invariants

/-
  Files of the documented syntax.

  A `StructSource` is a struct declaration as written: names, modifiers in either order,
  indentation. `fileLines_schema` says what the parser makes of the text of such
  declarations: the header word `packed` is lost, everything else is there. The last part is
  about the type names: the text of a builtin type denotes it, and a struct's name denotes the
  struct unless it is `Shadowed`.
-/

namespace Tyr

namespace Parser

/-! ## Declarations as written -/

inductive Builtin where
  | bool
  | float
  | double
  | int (bits : Nat)
  | uint (bits : Nat)
  deriving DecidableEq

namespace Builtin

def text : Builtin → String
  | bool => "bool"
  | float => "float"
  | double => "double"
  | int bits => "int" ++ Nat.repr bits
  | uint bits => "uint" ++ Nat.repr bits

def ty : Builtin → Ty
  | bool => .int 1
  | float => .float
  | double => .double
  | int bits => .int bits
  | uint bits => .int bits

/-- The widths LLVM has. -/
def Valid : Builtin → Prop
  | int bits => 1 ≤ bits ∧ bits < 2 ^ 24
  | uint bits => 1 ≤ bits ∧ bits < 2 ^ 24
  | _ => True

end Builtin

/-- A builtin type or the name of a struct. -/
inductive TypeRef where
  | builtin (b : Builtin)
  | struct (name : String)
  deriving DecidableEq

def TypeRef.text : TypeRef → String
  | builtin b => b.text
  | struct name => name

structure FieldSource where
  indent : Nat
  isMutable : Bool
  isRepeated : Bool
  /-- The order of the two modifiers. -/
  repeatedFirst : Bool
  type : TypeRef
  name : String

structure StructSource where
  indent : Nat
  name : String
  isPacked : Bool
  fields : List FieldSource
  closeIndent : Nat

/-- Words on a line, one space between them. -/
def writeLine (indent : Nat) (words : List String) : List Char :=
  spaces indent ++ [' '].intercalate (words.map String.toList)

def FieldSource.modifiers (f : FieldSource) : List String :=
  match f.isMutable, f.isRepeated with
  | true, true => if f.repeatedFirst then ["repeated", "mutable"] else ["mutable", "repeated"]
  | true, false => ["mutable"]
  | false, true => ["repeated"]
  | false, false => []

def FieldSource.words (f : FieldSource) : List String := f.modifiers ++ [f.type.text, f.name]

def StructSource.headerWords (s : StructSource) : List String :=
  ["struct", s.name] ++ (if s.isPacked then ["packed"] else []) ++ ["\x7b"]

def StructSource.lines (s : StructSource) : List (List Char) :=
  writeLine s.indent s.headerWords :: s.fields.map (fun f => writeLine f.indent f.words) ++
    [writeLine s.closeIndent ["\x7d"]]

/-- The text of the declarations. -/
def schemaText (schema : List StructSource) : List Char := textOf (schema.flatMap (·.lines))

/-! ## Well-formed declarations -/

def commentMarkers : List (List Char) := [['/', '/'], ['/', '*'], ['*', '/']]

/-- The keywords and the braces. -/
def reserved : List String := ["struct", "packed", "mutable", "repeated", "\x7b", "\x7d"]

/-- What can stand between two spaces. -/
structure IsWord (s : String) : Prop where
  nonempty : s.toList ≠ []
  no_space : ' ' ∉ s.toList
  no_newline : '\n' ∉ s.toList
  no_marker : ∀ w ∈ commentMarkers, ¬ w <:+: s.toList

structure Identifier (s : String) : Prop extends IsWord s where
  not_reserved : s ∉ reserved

/-- A type of a field of a struct declared after the structs `earlier`. -/
def TypeRef.WellFormed (earlier : List String) : TypeRef → Prop
  | builtin b => b.Valid
  | struct name => name ∈ earlier

structure StructSource.WellFormed (earlier : List String) (s : StructSource) : Prop where
  name : Identifier s.name
  fieldNames : ∀ f ∈ s.fields, Identifier f.name
  distinct : (s.fields.map (·.name)).Nodup
  types : ∀ f ∈ s.fields, f.type.WellFormed earlier

/-- Every declaration is well formed after the earlier ones, and they have different names. -/
def SchemaWellFormed : List String → List StructSource → Prop
  | _, [] => True
  | earlier, s :: rest =>
    s.WellFormed earlier ∧ s.name ∉ earlier ∧ SchemaWellFormed (earlier ++ [s.name]) rest

/-! ## Words and lines -/

section Words

theorem IsWord.of_chars {s : String} (hne : s.toList ≠ [])
    (h : ∀ c ∈ s.toList, c ≠ ' ' ∧ c ≠ '\n' ∧ c ≠ '/') : IsWord s where
  nonempty := hne
  no_space hc := (h ' ' hc).1 rfl
  no_newline hc := (h '\n' hc).2.1 rfl
  no_marker w hw hin := by
    have hslash : '/' ∈ w := by
      simp only [commentMarkers, List.mem_cons, List.not_mem_nil, or_false] at hw
      rcases hw with rfl | rfl | rfl <;> decide
    exact (h '/' (hin.subset hslash)).2.2 rfl

theorem isWord_reserved {s : String} (hs : s ∈ reserved) : IsWord s := by
  simp only [reserved, List.mem_cons, List.not_mem_nil, or_false] at hs
  rcases hs with rfl | rfl | rfl | rfl | rfl | rfl <;>
    exact .of_chars (by decide) (by simp)

theorem isWord_number {pre : String} (hne : pre.toList ≠ [])
    (h : ∀ c ∈ pre.toList, c ≠ ' ' ∧ c ≠ '\n' ∧ c ≠ '/') (n : Nat) :
    IsWord (pre ++ Nat.repr n) := by
  apply IsWord.of_chars
  · rw [String.toList_append]
    simp [hne]
  · intro c hc
    rw [String.toList_append, Nat.toList_repr] at hc
    rcases List.mem_append.mp hc with hc | hc
    · exact h c hc
    · have hd := Nat.isDigit_of_mem_toDigits (by decide) (by decide) hc
      refine ⟨?_, ?_, ?_⟩ <;>
      · rintro rfl
        exact absurd hd (by decide)

theorem isWord_builtin (b : Builtin) : IsWord b.text := by
  cases b with
  | bool => exact .of_chars (by decide) (by simp [Builtin.text])
  | float => exact .of_chars (by decide) (by simp [Builtin.text])
  | double => exact .of_chars (by decide) (by simp [Builtin.text])
  | int bits => exact isWord_number (by decide) (by simp) bits
  | uint bits => exact isWord_number (by decide) (by simp) bits

variable {words : List String}

/-- A line of words is code, and the words are its tokens. -/
theorem lineKind_writeLine (indent : Nat) (hne : words ≠ []) (h : ∀ w ∈ words, IsWord w) :
    lineKind (writeLine indent words) = .code words := by
  set l := [' '].intercalate (words.map String.toList) with hl
  have hmarker : ∀ w ∈ commentMarkers, ¬ w <:+: l := by
    intro w hw
    have hw' : w ≠ [] ∧ ' ' ∉ w := by
      simp only [commentMarkers, List.mem_cons, List.not_mem_nil, or_false] at hw
      rcases hw with rfl | rfl | rfl <;> decide
    refine not_infix_intercalate hw'.1 hw'.2 fun x hx => ?_
    obtain ⟨s, hs, rfl⟩ := List.mem_map.mp hx
    exact (h s hs).no_marker w hw
  have hm1 := hmarker ['/', '/'] (by simp [commentMarkers])
  have hm2 := hmarker ['/', '*'] (by simp [commentMarkers])
  have hm3 := hmarker ['*', '/'] (by simp [commentMarkers])
  have htrim : ltrim l = l ∧ l ≠ [] := by
    obtain ⟨w, ws, rfl⟩ := List.exists_cons_of_ne_nil hne
    obtain ⟨hnonempty, hspace, -, -⟩ := h w List.mem_cons_self
    obtain ⟨c, cs, hc⟩ := List.exists_cons_of_ne_nil hnonempty
    have hcons : ∃ r, l = c :: r := by
      rw [hl, List.map_cons, hc]
      cases ws <;> simp [List.intercalate_cons_cons]
    obtain ⟨r, hr⟩ := hcons
    have hcs : c ≠ ' ' := by
      rintro rfl
      exact hspace (hc ▸ List.mem_cons_self)
    rw [hr]
    exact ⟨List.dropWhile_cons_of_neg (by simpa using hcs), List.cons_ne_nil _ _⟩
  have htokens : tokenize l = words := by
    unfold tokenize
    rw [hl, List.splitOn_intercalate ' ' (fun x hx => ?_) (by simpa using hne)]
    · rw [List.map_map]
      exact (List.map_congr_left fun s _ => String.ofList_toList).trans (List.map_id words)
    · obtain ⟨s, hs, rfl⟩ := List.mem_map.mp hx
      exact (h s hs).no_space
  unfold writeLine
  rw [lineKind_spaces, ← hl]
  unfold lineKind trimmedKind
  rw [htrim.1, if_neg htrim.2, if_neg fun hp => hm1 hp.isInfix, if_neg fun hp => hm2 hp.isInfix,
    if_neg fun hp => hp.elim (fun hp => hm3 hp.isInfix) fun hp => hm3 hp.isInfix,
    if_neg fun hp => hp.elim hm1 fun hp => hp.elim hm2 hm3, htokens]

theorem writeLine_no_newline (indent : Nat) (h : ∀ w ∈ words, IsWord w) :
    '\n' ∉ writeLine indent words := by
  unfold writeLine
  rw [List.mem_append, not_or]
  constructor
  · intro hn
    cases List.eq_of_mem_replicate hn
  · induction words with
    | nil => simp
    | cons w ws ih =>
      have ih := ih fun v hv => h v (List.mem_cons_of_mem w hv)
      have hw := (h w List.mem_cons_self).no_newline
      cases ws with
      | nil => simpa using hw
      | cons v vs =>
        rw [List.map_cons, List.map_cons, List.intercalate_cons_cons]
        simp only [List.map_cons] at ih
        simp [hw, ih]

/-- Lines of words are read as they are written. -/
theorem codeLines_writeLine {ls : List (Nat × List String)}
    (h : ∀ l ∈ ls, l.2 ≠ [] ∧ ∀ w ∈ l.2, IsWord w) :
    codeLines (ls.map fun l => writeLine l.1 l.2) false = (ls.map (·.2), false) := by
  induction ls with
  | nil => rfl
  | cons l ls ih =>
    obtain ⟨hne, hw⟩ := h l List.mem_cons_self
    rw [List.map_cons, codeLines_cons_code (lineKind_writeLine l.1 hne hw),
      ih fun k hk => h k (List.mem_cons_of_mem l hk)]
    rfl

end Words

/-! ## What the parser reads -/

section Read

variable {earlier : List String} {f : FieldSource} {s : StructSource}

/-- The declaration without its layout. -/
def FieldSource.decl (f : FieldSource) : FieldDecl :=
  ⟨f.isMutable, f.isRepeated, f.type.text, f.name⟩

/-- The lines of a declaration as the parser reads them: it never sees `packed`. -/
def StructSource.read (s : StructSource) : List Line :=
  .header s.name false :: s.fields.map (fun f => .field f.decl) ++ [.close]

theorem isWord_type {t : TypeRef} (ht : t.WellFormed earlier) (hId : ∀ n ∈ earlier, Identifier n) :
    IsWord t.text := by
  cases t with
  | builtin b => exact isWord_builtin b
  | struct name => exact (hId name ht).toIsWord

theorem not_reserved_type {t : TypeRef} (ht : t.WellFormed earlier)
    (hId : ∀ n ∈ earlier, Identifier n) : t.text ∉ reserved := by
  cases t with
  | struct name => exact (hId name ht).not_reserved
  | builtin b =>
    have hfirst : ∃ c cs, b.text.toList = c :: cs ∧ c ∈ ['b', 'f', 'd', 'i', 'u'] := by
      cases b with
      | bool => exact ⟨_, _, rfl, by decide⟩
      | float => exact ⟨_, _, rfl, by decide⟩
      | double => exact ⟨_, _, rfl, by decide⟩
      | int bits => exact ⟨_, _, String.toList_append, by decide⟩
      | uint bits => exact ⟨_, _, String.toList_append, by decide⟩
    obtain ⟨c, cs, hc, hmem⟩ := hfirst
    intro hr
    have hhead : (b.text.toList.head?.any fun c => c ∈ ['b', 'f', 'd', 'i', 'u']) = true := by
      rw [hc]
      simpa using hmem
    revert hhead
    show ¬ (TypeRef.text (.builtin b)).toList.head?.any _ = true
    generalize TypeRef.text (.builtin b) = w at hr
    simp only [reserved, List.mem_cons, List.not_mem_nil, or_false] at hr
    rcases hr with rfl | rfl | rfl | rfl | rfl | rfl <;> decide

theorem FieldSource.isWord (ht : f.type.WellFormed earlier) (hId : ∀ n ∈ earlier, Identifier n)
    (hname : Identifier f.name) : ∀ w ∈ f.words, IsWord w := by
  intro w hw
  unfold words at hw
  rcases List.mem_append.mp hw with hw | hw
  · have hr : w ∈ reserved := by
      unfold modifiers at hw
      split at hw
      · split at hw <;> rcases List.mem_pair.mp hw with rfl | rfl <;> decide
      · exact List.mem_singleton.mp hw ▸ by decide
      · exact List.mem_singleton.mp hw ▸ by decide
      · cases hw
    exact isWord_reserved hr
  · rcases List.mem_pair.mp hw with rfl | rfl
    · exact isWord_type ht hId
    · exact hname.toIsWord

theorem readLine_field (ht : f.type.WellFormed earlier) (hId : ∀ n ∈ earlier, Identifier n)
    (hname : Identifier f.name) : readLine f.words = some (.field f.decl) := by
  have htype := not_reserved_type ht hId
  have hn := hname.not_reserved
  simp only [reserved, List.mem_cons, List.not_mem_nil, or_false, not_or] at htype hn
  obtain ⟨t1, -, t3, t4, -, t6⟩ := htype
  obtain ⟨-, -, n3, n4, -, -⟩ := hn
  unfold FieldSource.words FieldSource.modifiers FieldSource.decl
  cases hm : f.isMutable <;> cases hr : f.isRepeated
  · rw [show ([] : List String) ++ [f.type.text, f.name] = [f.type.text, f.name] from rfl,
      readLine_other _ t1 t6]
    simp [fieldDecl, isModified, t3, t4, n3, n4]
  · rw [show ["repeated"] ++ [f.type.text, f.name] = ["repeated", f.type.text, f.name] from rfl,
      readLine_other _ (by decide) (by decide)]
    simp [fieldDecl, isModified, t3]
  · rw [show ["mutable"] ++ [f.type.text, f.name] = ["mutable", f.type.text, f.name] from rfl,
      readLine_other _ (by decide) (by decide)]
    simp [fieldDecl, isModified, t4]
  · cases f.repeatedFirst
    · rw [show (if false = true then ["repeated", "mutable"] else ["mutable", "repeated"]) ++
          [f.type.text, f.name] = ["mutable", "repeated", f.type.text, f.name] from rfl,
        readLine_other _ (by decide) (by decide)]
      simp [fieldDecl, isModified]
    · rw [show (if true = true then ["repeated", "mutable"] else ["mutable", "repeated"]) ++
          [f.type.text, f.name] = ["repeated", "mutable", f.type.text, f.name] from rfl,
        readLine_other _ (by decide) (by decide)]
      simp [fieldDecl, isModified]

/-- The lines with their words. -/
def StructSource.wordLines (s : StructSource) : List (Nat × List String) :=
  (s.indent, s.headerWords) :: s.fields.map (fun f => (f.indent, f.words)) ++
    [(s.closeIndent, ["\x7d"])]

theorem StructSource.lines_eq (s : StructSource) :
    s.lines = s.wordLines.map fun l => writeLine l.1 l.2 := by
  unfold lines wordLines
  simp

theorem StructSource.isWord (hs : s.WellFormed earlier) (hId : ∀ n ∈ earlier, Identifier n) :
    ∀ l ∈ s.wordLines, l.2 ≠ [] ∧ ∀ w ∈ l.2, IsWord w := by
  intro l hl
  unfold wordLines at hl
  rcases List.mem_append.mp hl with hl | hl
  · rcases List.mem_cons.mp hl with rfl | hl
    · refine ⟨by simp [headerWords], fun w hw => ?_⟩
      have hw' : w = s.name ∨ w ∈ reserved := by
        unfold headerWords at hw
        cases s.isPacked <;> simp [reserved] at hw ⊢ <;> tauto
      rcases hw' with rfl | hr
      · exact hs.name.toIsWord
      · exact isWord_reserved hr
    · obtain ⟨f, hf, rfl⟩ := List.mem_map.mp hl
      exact ⟨by simp [FieldSource.words], f.isWord (hs.types f hf) hId (hs.fieldNames f hf)⟩
  · obtain rfl := List.mem_singleton.mp hl
    exact ⟨by simp, fun w hw => List.mem_singleton.mp hw ▸ isWord_reserved (by decide)⟩

theorem readLine_header (s : StructSource) :
    readLine s.headerWords = some (.header s.name false) := by
  unfold StructSource.headerWords
  cases s.isPacked <;> rfl

theorem readLines_wordLines (hs : s.WellFormed earlier) (hId : ∀ n ∈ earlier, Identifier n) :
    s.wordLines.map (fun l => readLine l.2) = s.read.map some := by
  unfold StructSource.wordLines StructSource.read
  have hfields : s.fields.map (fun f => readLine f.words) =
      s.fields.map fun f => some (.field f.decl) := by
    apply List.map_congr_left
    intro f hf
    exact readLine_field (hs.types f hf) hId (hs.fieldNames f hf)
  rw [List.map_append, List.map_cons, List.map_map, readLine_header]
  simp only [Function.comp_def, hfields, List.map_cons, List.map_append, List.map_map]
  rfl

theorem wordLines_schema {schema : List StructSource} (hschema : SchemaWellFormed earlier schema)
    (hId : ∀ n ∈ earlier, Identifier n) :
    (∀ l ∈ schema.flatMap (·.wordLines), l.2 ≠ [] ∧ ∀ w ∈ l.2, IsWord w) ∧
    (schema.flatMap (·.wordLines)).map (fun l => readLine l.2) =
      (schema.flatMap (·.read)).map some := by
  induction schema generalizing earlier with
  | nil =>
    constructor
    · intro l hl
      cases hl
    · rfl
  | cons s rest ih =>
    obtain ⟨hs, -, hrest⟩ := hschema
    have hId' : ∀ n ∈ earlier ++ [s.name], Identifier n := by
      intro n hn
      rcases List.mem_append.mp hn with hn | hn
      · exact hId n hn
      · exact List.mem_singleton.mp hn ▸ hs.name
    obtain ⟨h1, h2⟩ := ih hrest hId'
    constructor
    · intro l hl
      rw [List.flatMap_cons] at hl
      rcases List.mem_append.mp hl with hl | hl
      · exact s.isWord hs hId l hl
      · exact h1 l hl
    · rw [List.flatMap_cons, List.map_append, h2, readLines_wordLines hs hId, List.flatMap_cons,
        List.map_append]

/-- The text of a schema is read declaration by declaration. -/
theorem code_schema {schema : List StructSource} (hschema : SchemaWellFormed [] schema) :
    (code (schemaText schema)).2 = false ∧
    (code (schemaText schema)).1.map readLine = (schema.flatMap (·.read)).map some := by
  obtain ⟨hwords, hread⟩ := wordLines_schema hschema fun n hn => nomatch hn
  have hlines : schema.flatMap (·.lines) =
      (schema.flatMap (·.wordLines)).map fun l => writeLine l.1 l.2 := by
    rw [List.map_flatMap]
    exact congrArg (fun g => schema.flatMap g) (funext StructSource.lines_eq)
  have hnl : ∀ l ∈ schema.flatMap (·.lines), '\n' ∉ l := by
    intro l hl
    rw [hlines] at hl
    obtain ⟨k, hk, rfl⟩ := List.mem_map.mp hl
    exact writeLine_no_newline k.1 (hwords k hk).2
  have hcode : code (schemaText schema) = ((schema.flatMap (·.wordLines)).map (·.2), false) := by
    unfold code schemaText
    rw [getlines_textOf hnl, hlines, codeLines_writeLine hwords]
  rw [hcode, List.map_map]
  exact ⟨rfl, hread⟩

theorem fileLines_schema {schema : List StructSource} (hschema : SchemaWellFormed [] schema) :
    fileLines (schemaText schema) = schema.flatMap (·.read) := by
  have h := congrArg (List.filterMap id) (code_schema hschema).2
  rw [List.filterMap_map, List.filterMap_map] at h
  exact h.trans List.filterMap_some

end Read

/-! ## Type names -/

/-- The name of a struct that `parseType` reads as a builtin type. -/
def Shadowed (name : String) : Prop :=
  name = "bool" ∨ isIntegerName name = true ∨ name = "float" ∨ name = "double"

section Types

variable {M : Module}

/-- Reading digits is reading the number they write. -/
theorem consumeDigits_eq {ds : List Char} (h : ∀ c ∈ ds, c.isDigit = true) (acc : Nat)
    (hlt : Nat.ofDigitChars 10 ds acc < 2 ^ 64) :
    consumeDigits ds acc = some (Nat.ofDigitChars 10 ds acc, []) := by
  have hmono : ∀ (ds : List Char) (a : Nat), a ≤ Nat.ofDigitChars 10 ds a := by
    intro ds
    induction ds with
    | nil => exact fun a => by rw [Nat.ofDigitChars_nil]
    | cons c ds ih =>
      intro a
      rw [Nat.ofDigitChars_cons]
      exact Nat.le_trans (by omega) (ih _)
  induction ds generalizing acc with
  | nil => rw [Nat.ofDigitChars_nil]; rfl
  | cons c ds ih =>
    rw [Nat.ofDigitChars_cons] at hlt ⊢
    have hle := hmono ds (10 * acc + (c.toNat - '0'.toNat))
    have hnext : (acc * 10 + (c.toNat - '0'.toNat)) % 2 ^ 64 =
        10 * acc + (c.toNat - '0'.toNat) := by
      rw [Nat.mod_eq_of_lt (by omega)]
      omega
    unfold consumeDigits
    rw [if_pos (h c List.mem_cons_self), hnext, if_neg (by omega)]
    exact ih (fun d hd => h d (List.mem_cons_of_mem c hd)) _ hlt

theorem toLower_digit {c : Char} (h : c.isDigit = true) : c.toLower = c := by
  unfold Char.toLower
  rw [dif_neg]
  simp only [Char.isDigit, Bool.and_eq_true, decide_eq_true_eq] at h
  rintro ⟨h1, h2⟩
  have h3 := Nat.le_trans (UInt32.le_iff_toNat_le.mp h1) (UInt32.le_iff_toNat_le.mp h.2)
  exact absurd h3 (by decide)

/-- The digits are what follows the last `t`. -/
theorem afterLastT_of_digits {pre ds : List Char} {c : Char} (hc : c.toLower = 't')
    (h : ∀ d ∈ ds, d.isDigit = true) : afterLastT (pre ++ c :: ds) = ds := by
  unfold afterLastT
  rw [List.reverse_append, List.reverse_cons, List.append_assoc, List.takeWhile_append_of_pos]
  · rw [List.singleton_append, List.takeWhile_cons_of_neg (by simp [hc]), List.append_nil,
      List.reverse_reverse]
  · intro d hd
    rw [List.mem_reverse] at hd
    rw [toLower_digit (h d hd), bne_iff_ne]
    intro he
    have ht := h d hd
    rw [he] at ht
    exact absurd ht (by decide)

theorem getAsUnsignedInteger_repr {n : Nat} (hn : n < 2 ^ 64) :
    getAsUnsignedInteger (Nat.toDigits 10 n) = some n := by
  have hdigits : ∀ c ∈ Nat.toDigits 10 n, c.isDigit = true := fun c hc =>
    Nat.isDigit_of_mem_toDigits (by decide) (by decide) hc
  unfold getAsUnsignedInteger
  rw [if_neg Nat.toDigits_ne_nil, consumeDigits_eq hdigits 0
    (by rwa [Nat.ofDigitChars_ten_toDigits]), Nat.ofDigitChars_ten_toDigits]

theorem parseElementType_integer {pre name : String} {n : Nat} (hname : name = pre ++ Nat.repr n)
    (hpre : ∃ p, pre.toList = p ++ ['t']) (hint : isIntegerName name = true)
    (hbool : name ≠ "bool") (hn : 1 ≤ n ∧ n < 2 ^ 24) :
    M.parseElementType name = .ok (some (.int n)) := by
  obtain ⟨p, hp⟩ := hpre
  have hmod : n % 2 ^ 32 = n := Nat.mod_eq_of_lt (by omega)
  have hafter : afterLastT name.toList = Nat.toDigits 10 n := by
    rw [hname, String.toList_append, hp, Nat.toList_repr, List.append_assoc]
    exact afterLastT_of_digits rfl fun c hc =>
      Nat.isDigit_of_mem_toDigits (by decide) (by decide) hc
  unfold Module.parseElementType
  rw [if_neg hbool, if_pos hint, hafter, getAsUnsignedInteger_repr (by omega)]
  have hwidth : getIntNTy n = .ok (.int n) := by
    rw [getIntNTy_eq_ok (by rw [hmod]; exact hn), hmod]
  simp only [hwidth, Except.map]

theorem parseElementType_builtin {b : Builtin} (hb : b.Valid) :
    M.parseElementType b.text = .ok (some b.ty) := by
  have hprefix : ∀ (pre : String) (w cs : List Char), w <+: pre.toList.map Char.toLower →
      startswithLower (pre.toList ++ cs) w = true := by
    intro pre w cs hw
    unfold startswithLower
    rw [List.isPrefixOf_iff_prefix, List.map_append]
    exact hw.trans (List.prefix_append _ _)
  have hbool : ∀ (pre : String) (n : Nat),
      pre.toList.head? = some 'i' ∨ pre.toList.head? = some 'u' → pre ++ Nat.repr n ≠ "bool" := by
    intro pre n hpre he
    have hhead := congrArg (fun s => s.toList.head?) he
    simp only [String.toList_append] at hhead
    rcases hpre with hpre | hpre <;>
    · rw [List.head?_append_of_ne_nil _ (by rintro hn; rw [hn] at hpre; cases hpre), hpre] at hhead
      exact absurd hhead (by decide)
  cases b with
  | bool => rfl
  | float => rfl
  | double => rfl
  | int bits =>
    refine parseElementType_integer rfl ⟨['i', 'n'], rfl⟩ ?_ (hbool _ _ (Or.inl rfl)) hb
    unfold isIntegerName Builtin.text
    rw [String.toList_append, hprefix "int" ['i', 'n', 't'] _ (by decide), Bool.true_or]
  | uint bits =>
    refine parseElementType_integer rfl ⟨['u', 'i', 'n'], rfl⟩ ?_ (hbool _ _ (Or.inr rfl)) hb
    unfold isIntegerName Builtin.text
    rw [String.toList_append, hprefix "uint" ['u', 'i', 'n', 't'] _ (by decide), Bool.or_true]

theorem parseElementType_struct {name : String} {S : Struct} {T : Ty} (hname : ¬ Shadowed name)
    (hS : M.find name = some S) (hT : S.type = some T) :
    M.parseElementType name = .ok (some (.ptr T)) := by
  simp only [Shadowed, not_or] at hname
  unfold Module.parseElementType
  rw [if_neg hname.1, if_neg hname.2.1, if_neg hname.2.2.1, if_neg hname.2.2.2, hS]
  simp only [hT]

/-- A shadowed name does not denote the struct. -/
theorem parseElementType_shadowed {name : String} {t : Ty} (hname : Shadowed name)
    (h : M.parseElementType name = .ok (some t)) : t.isPointerTy = false := by
  unfold Module.parseElementType at h
  split at h
  · obtain rfl := Option.some.inj (Except.ok.inj h)
    rfl
  next hb =>
  split at h
  · split at h
    · cases h
    · next w hw =>
      by_cases hr : 1 ≤ w % 2 ^ 32 ∧ w % 2 ^ 32 < 2 ^ 24
      · rw [getIntNTy_eq_ok hr] at h
        obtain rfl := Option.some.inj (Except.ok.inj h)
        rfl
      · rw [getIntNTy_eq_error hr] at h
        cases h
  next hi =>
  split at h
  · obtain rfl := Option.some.inj (Except.ok.inj h)
    rfl
  next hf =>
  split at h
  · obtain rfl := Option.some.inj (Except.ok.inj h)
    rfl
  next hd =>
  rcases hname with hn | hn | hn | hn
  · exact absurd hn hb
  · exact absurd hn hi
  · exact absurd hn hf
  · exact absurd hn hd

end Types

end Parser

end Tyr
