import SqlRecord.Proofs.Command.Finite
import SqlRecord.Proofs.Command.Lexical
import SqlRecord.Proofs.Expr.Failure
import SqlRecord.Proofs.Sql.Cut
import SqlRecord.Store.Engine

/-!
# Texts in commands

With inline values the contents of the literals of a command are the texts of the assigned columns,
and then those among the constants of its conditions (`Table.build_contents`). They stand there as
they are, so a NUL in one of them is in the command, too, and a store, which reads a statement up to
its first NUL, refuses it. With parameters no text stands in a command. Main statement:
`Table.build_nul`.
-/

namespace SqlRecord

open Sql

/-- The contents of the literals in a text, from left to right. -/
def contentsIn (text : String) : List (List Char) := contentsOf (textTokens text)

/-- The literals of a text are those of the tokens it is read as. -/
theorem contentsIn_eq {text : String} {ts : List Token} (h : Reads text.toList ts) :
    contentsIn text = contentsOf ts := congrArg contentsOf h.textTokens_eq

/-! ### Texts of conditions -/

/-- The characters of a value that is a text. -/
def Value.content? : Value → Option (List Char)
  | .text s => some s.toList
  | _ => none

namespace Expr

/-- The characters of a constant that is a text. -/
def content? : Expr → Option (List Char)
  | literal v => v.content?
  | _ => none

/-- The texts among the constants of an expression, from left to right. -/
def contents (e : Expr) : List (List Char) := e.nodes.filterMap content?

theorem contents_literal (v : Value) : (literal v).contents = v.content?.toList := by
  cases v <;> rfl

theorem contents_binary (op : BinaryOp) (left right : Expr) :
    (binary op left right).contents = left.contents ++ right.contents :=
  List.filterMap_append

end Expr

/-- The texts among the constants of a clause. -/
def Clause.contents : Clause → List (List Char)
  | filter predicate | having predicate => predicate.contents
  | _ => []

/-- The text of a literal is that of its value. -/
theorem Value.contents_phraseIn?_inline {n : Nat} {v : Value} {t : Phrase}
    (h : v.phraseIn? .inline n = some t) : contentsOf t.atoms = v.content?.toList := by
  have hsigned : ∀ {negative : Bool} {a : Phrase}, (signed negative a).atoms = a.atoms := by
    intro negative a
    cases negative <;> rfl
  cases v with
  | null => cases h; rfl
  | integer i =>
    cases h
    rw [hsigned]
    rfl
  | real x =>
    have hphrase : (if x.isFinite then some (signed x.negative (.real x.abs)) else none) =
        some t := h
    split_ifs at hphrase
    cases hphrase
    rw [hsigned]
    rfl
  | text s => cases h; rfl
  | blob bytes => cases h

namespace Schema

variable {s : Schema}

/-- A phrase written inline has the literals of its expression, in their order. -/
theorem contents_phrase?_inline {n : Nat} {e : Expr} {t : Phrase}
    (h : s.phrase? .inline n e = some t) : contentsOf t.atoms = e.contents := by
  induction e generalizing n t with
  | column field => rw [atoms_columnName?_map (fun _ => rfl) h]; rfl
  | literal v => rw [Value.contents_phraseIn?_inline h, Expr.contents_literal]
  | binary op left right ihl ihr =>
    simp only [phrase?, Option.bind_eq_bind, Option.bind_eq_some_iff] at h
    obtain ⟨c, -, l, hl, r, hr, ht⟩ := h
    cases ht
    rw [Expr.contents_binary, ← ihl hl, ← ihr hr]
    exact List.filterMap_append
  | unary op e ih =>
    obtain ⟨t, ht, rfl⟩ := Option.map_eq_some_iff.mp h
    exact ih (t := t) ht
  | aggregate func field => rw [atoms_aggregate h]; rfl

/-- The texts in a condition with inline values are those of its constants. -/
theorem contents_compileIn (hs : s.WellFormed) {e : Expr} {params params' : List Parameter}
    {text : String} (h : s.compileIn .inline e params = (.ok text, params')) :
    contentsIn text = e.contents := by
  obtain ⟨t, ht, rfl, -⟩ := (compileIn_eq_ok_iff hs).mp h
  rw [contentsIn_eq (writable_phrase? hs ht).reads, contentsOf,
    Phrase.filterMap_tokensOf_layout skipsWords_content?]
  exact contents_phrase?_inline ht

end Schema

/-! ### Texts of columns -/

/-- The characters of a native value that is a text or a character. -/
def NativeType.content? : (t : NativeType) → t.Carrier → Option (List Char)
  | string, s => some (String.toList s)
  | char, c => some [c]
  | _, _ => none

/-- The characters of a field that holds a text or a character. -/
def FieldType.content? : (t : FieldType) → t.Carrier → Option (List Char)
  | plain t, v => t.content? v
  | optional _, none => none
  | optional t, some v => t.content? v

/-- The characters of a column that holds a text or a character. -/
def Record.content? {s : Schema} (row : Record s) (i : s.Index) : Option (List Char) :=
  (s.column i).type.content? (row i)

theorem contentsIn_null : contentsIn "NULL" = [] :=
  contentsIn_eq (Reads.word (w := "NULL") (by decide))

/-- A quoted text is one literal, with the text as its contents. -/
theorem contentsIn_quote (s : String) : contentsIn (Literal.quote s) = [s.toList] :=
  contentsIn_eq (reads_quote s)

/-- Outside columns of texts no value becomes a text. -/
theorem Encoded.Form.contentsIn_eq_nil {name : String} {type : SqlType} {v : Value}
    {mode : BindMode} {e : Encoded} (h : e.Form name type v mode)
    (hname : Identifier.isWord name.toList = true) (htype : type ≠ .text) :
    contentsIn e.sql = [] := by
  cases h with
  | null => exact contentsIn_null
  | bound => exact contentsIn_eq (Reads.token (isPlain_placeholder hname))
  | text _ _ ht => exact absurd ht htype
  | number _ _ _ htext =>
    obtain ⟨negative, cs, hcs, htext⟩ := Literal.exists_of_numeric htext
    have hreads := reads_numeric hcs negative
    rw [← htext] at hreads
    rw [contentsIn_eq hreads, numberTokens]
    split_ifs <;> rfl

/-- A native value becomes the literal of its text, if it has one. -/
theorem NativeType.contentsIn_encode {t : NativeType} {v : t.Carrier} {w : Value} {name : String}
    {e : Encoded} (hname : Identifier.isWord name.toList = true) (hv : t.toValue v = .ok w)
    (he : encode name t.sqlType w .inline = .ok e) : contentsIn e.sql = (t.content? v).toList := by
  cases t with
  | string =>
    cases hv
    cases he
    exact contentsIn_quote _
  | char =>
    cases hv
    cases he
    exact (contentsIn_quote _).trans (congrArg ([·]) (String.toList_singleton _))
  | _ => exact (encode_form he).contentsIn_eq_nil hname nofun

/-- A value that is encoded inline is a literal with the value's text, or none. -/
theorem FieldType.contentsIn_encode {t : FieldType} {v : t.Carrier} {w : Value} {name : String}
    {e : Encoded} (hname : Identifier.isWord name.toList = true) (hv : t.toValue v = .ok w)
    (he : encode name t.sqlType w .inline = .ok e) : contentsIn e.sql = (t.content? v).toList := by
  cases t with
  | plain t => exact NativeType.contentsIn_encode hname hv he
  | optional t =>
    cases v with
    | some v => exact NativeType.contentsIn_encode hname hv he
    | none =>
      cases hv
      have hsql : e.sql = "NULL" := by
        cases hnull : t.sqlType <;> rw [FieldType.sqlType, native, hnull] at he <;> cases he <;> rfl
      rw [hsql]
      exact contentsIn_null

/-! ### Texts of commands -/

/-- The contents of the literals in the values and conditions of a statement. -/
def CommandBody.contents (b : CommandBody) : List (List Char) :=
  b.texts.flatMap contentsIn

/-- No text of a statement stands outside its values and conditions. -/
theorem CommandBody.contentsOf_tokens (b : CommandBody) : contentsOf b.tokens = b.contents := by
  obtain ⟨front, hfront, hcontents⟩ := b.exists_front
  have hwindow : (b.window.elim [] Query.windowTokens).filterMap Token.content? = [] := by
    cases b.window with
    | none => rfl
    | some w =>
      rw [Option.elim_some, Query.windowTokens]
      split_ifs <;> rfl
  rw [contentsOf, hfront, List.filterMap_append, hwindow, List.append_nil,
    hcontents skipsWords_content?]
  rfl

namespace Table

variable {t : Table} {row : Record t.schema} {c c' : Command}

/-- The text of a column is the literal with the text of the row's value there, or none. -/
theorem contentsIn_encodeColumn (hs : t.schema.WellFormed) (hmode : t.mode = .inline)
    {i : t.schema.Index} {e : Encoded} (h : t.encodeColumn row i = .ok e) :
    contentsIn e.sql = (row.content? i).toList := by
  rw [encodeColumn, hmode] at h
  split at h
  next => cases h
  next v hv =>
    split at h
    next e' he =>
      cases h
      exact FieldType.contentsIn_encode (Phrase.isWord_of_isValid (hs.column_valid i)) hv he
    next => cases h

/-- The texts of columns have the literals of the row's values, in the order of the columns. -/
theorem contentsIn_encodeColumns (hs : t.schema.WellFormed) (hmode : t.mode = .inline)
    {columns : List t.schema.Index} {values : List (String × String)} {params : List Parameter}
    (h : t.encodeColumns row columns = .ok (values, params)) :
    (values.map (·.2)).flatMap contentsIn =
      columns.filterMap row.content? := by
  obtain ⟨ps, rfl, hps, rfl, -⟩ := encodeColumns_eq_ok h
  rw [List.map_map, List.flatMap_map, List.filterMap_map, List.filterMap_eq_flatMap_toList]
  exact List.flatMap_congr fun p hp => contentsIn_encodeColumn hs hmode (hps p hp)

/-- A beginning has the texts of the columns that it assigns. -/
theorem Starts.contents (hs : t.schema.WellFormed) (hmode : t.mode = .inline) {entry : Entry}
    (h : t.Starts row entry c) : c.body.contents = (t.assigned entry).filterMap row.content? := by
  cases h with
  | insert hcolumns hvalues =>
    rw [assigned, hcolumns]
    exact contentsIn_encodeColumns hs hmode hvalues
  | update _ hcolumns hvalues =>
    rw [assigned, hcolumns]
    exact (congrArg _ (List.append_nil _)).trans (contentsIn_encodeColumns hs hmode hvalues)
  | _ => rfl

/-- A condition that is compiled inline has the literals of its expression. -/
theorem contentsIn_condition (hs : t.schema.WellFormed) (hmode : t.mode = .inline) {e : Expr}
    {text : String} {params params' : List Parameter}
    (h : t.condition e params = .ok (text, params')) : contentsIn text = e.contents := by
  have hcompile := condition_eq_ok h
  rw [hmode] at hcompile
  exact Schema.contents_compileIn hs hcompile

/-- A clause adds the texts of its constants. -/
theorem Extends.contents (hs : t.schema.WellFormed) (hmode : t.mode = .inline) {clause : Clause}
    (h : t.Extends clause c c') : c'.body.contents = c.body.contents ++ clause.contents := by
  have hkeeps : ∀ {body body' : CommandBody}, body'.texts = body.texts →
      body'.contents = body.contents ++ [] := fun htexts =>
    (congrArg (List.flatMap contentsIn) htexts).trans (List.append_nil _).symm
  -- a condition is the last text, and has the texts of its constants
  have hadds : ∀ {e : Expr} {text : String} {body body' : CommandBody}
      {params params' : List Parameter}, t.condition e params = .ok (text, params') →
        body'.texts = body.texts ++ [text] → body'.contents = body.contents ++ e.contents := by
    intro e text body body' params params' hcondition htexts
    rw [CommandBody.contents, htexts, List.flatMap_append, List.flatMap_singleton,
      contentsIn_condition hs hmode hcondition]
    rfl
  cases h with
  | distinct => exact hkeeps rfl
  | filterQuery h hnone hgrouping => exact hadds h (by simp [CommandBody.texts, hnone, hgrouping])
  | filterCount h => exact hadds h rfl
  | filterUpdate h => exact hadds h (by simp [CommandBody.texts])
  | filterDelete h => exact hadds h rfl
  | groupBy _ hgrouping => exact hkeeps (by simp [CommandBody.texts, hgrouping])
  | having h hgrouping => exact hadds h (by simp [CommandBody.texts, hgrouping])
  | orderBy => exact hkeeps rfl
  | limit => exact hkeeps rfl

/-- Clauses add the texts of their constants in their order. -/
theorem contents_foldlM (hs : t.schema.WellFormed) (hmode : t.mode = .inline)
    {clauses : List Clause} (h : clauses.foldlM t.extend c = .ok c') :
    c'.body.contents = c.body.contents ++ clauses.flatMap Clause.contents := by
  induction clauses generalizing c with
  | nil =>
    cases h
    exact (List.append_nil _).symm
  | cons clause clauses ih =>
    rw [List.foldlM_cons] at h
    obtain ⟨c₁, hstep, hrun⟩ := bind_eq_ok h
    rw [ih hrun, (extend_eq_ok hstep).contents hs hmode, List.append_assoc, List.flatMap_cons]

/-- With parameters no text stands in a command. -/
theorem Sound.contents (hmode : t.mode = .parameters) (h : Sound row c) : c.body.contents = [] := by
  refine List.flatMap_eq_nil_iff.mpr fun text htext => ?_
  have hconstants := h.constants hmode text htext
  rw [constantsOf, List.filterMap_eq_nil_iff] at hconstants
  refine List.filterMap_eq_nil_iff.mpr fun token htoken => ?_
  -- a text is a constant
  have hnone := hconstants token htoken
  cases token with
  | text cs => cases hnone
  | _ => rfl

variable (t row) in
/-- The texts that a chain writes: with inline values those of the columns it assigns and then those
of its clauses, and none with parameters. -/
def contents (entry : Entry) (clauses : List Clause) : List (List Char) :=
  match t.mode with
  | .inline => (t.assigned entry).filterMap row.content? ++ clauses.flatMap Clause.contents
  | .parameters => []

/-- **The literals of a command have the texts that the chain writes for their contents.** -/
theorem build_contents (hs : t.schema.WellFormed) {entry : Entry} {clauses : List Clause}
    (h : t.build row entry clauses = .ok c) : contentsIn c.sql = t.contents row entry clauses := by
  have hreads : Reads c.sql.toList c.body.tokens := (build_sound hs h).readable.reads
  rw [contentsIn_eq hreads, c.body.contentsOf_tokens, contents]
  cases hmode : t.mode with
  | parameters => exact (build_sound hs h).contents hmode
  | inline =>
    obtain ⟨c₀, hstart, hrun⟩ := build_eq_ok h
    rw [contents_foldlM hs hmode hrun, hstart.contents hs hmode]

end Table

/-! ### Statements with a NUL -/

namespace Sql.Tidy

variable {sql : String}

/-- A NUL in a tidy text stands in one of its literals. -/
theorem nul_mem_iff (h : Tidy sql.toList) :
    nul ∈ sql.toList ↔ ∃ cs ∈ contentsIn sql, nul ∈ cs := by
  obtain ⟨ps, hspaced, -, hsql⟩ := h
  have hreads : Reads sql.toList (tokensOf ps) := hsql ▸ hspaced.reads
  rw [contentsIn_eq hreads, hsql, hspaced.nul_mem_spell_iff]

/-- A tidy text without a NUL is read whole. -/
theorem lexemes?_eq (h : Tidy sql.toList) (hnul : nul ∉ sql.toList) :
    ∃ ls, lexemes? sql.toList = some (ls, []) ∧ ls.map Lexeme.token = textTokens sql := by
  obtain ⟨ps, hspaced, -, hsql⟩ := h
  have hreads : Reads sql.toList (tokensOf ps) := hsql ▸ hspaced.reads
  rw [hreads.textTokens_eq]
  exact lexemes?_of_tokens? hreads.tokens?
    (fun hsemicolon => (hspaced.isPlain _ hsemicolon).ne_semicolon rfl) hnul

/-- No store runs a tidy text with a NUL. -/
theorem perform_eq_error (h : Tidy sql.toList) (hnul : nul ∈ sql.toList) (store : Store)
    (params : List Parameter) : store.perform ⟨sql, params⟩ = (.error .engine, store) := by
  obtain ⟨ps, hspaced, -, hsql⟩ := h
  have hlexemes : lexemes? sql.toList = none := by
    rw [hsql] at hnul ⊢
    exact hspaced.lexemes?_eq_none hnul
  have hprepare : store.prepare? sql = none := by
    rw [Store.prepare?, Store.first?, Store.firstFuel, hlexemes]
  rw [Store.perform]
  dsimp only
  rw [hprepare]

end Sql.Tidy

namespace Table

/-- Every command of a built schema is tidy. -/
theorem tidy_build {t : Table} {row : Record t.schema} (hs : t.schema.WellFormed) {entry : Entry}
    {clauses : List Clause} {c : Command} (h : t.build row entry clauses = .ok c) :
    Tidy c.sql.toList := by
  obtain ⟨c₀, hstart, hrun⟩ := build_eq_ok h
  exact tidy_foldlM hs (hstart.sound hs) (hstart.tidy hs) hrun

/-- **A NUL in a text that is written inline is written as it is, and the statement is lost.** A
command has the texts for the contents of its literals that its chain writes, and a NUL if and only
if one of them has: with parameters it has none. A statement with a NUL fails in every store and
changes nothing; one without a NUL is read whole. -/
theorem build_nul {d : Declaration} {s : Schema} (hbuild : d.build = .ok s) {mode : BindMode}
    {row : Record s} {entry : Entry} {clauses : List Clause} {c : Command}
    (h : (Table.mk s mode).build row entry clauses = .ok c) :
    contentsIn c.sql = (Table.mk s mode).contents row entry clauses ∧
      (nul ∈ c.sql.toList ↔ ∃ cs ∈ (Table.mk s mode).contents row entry clauses, nul ∈ cs) ∧
      (nul ∈ c.sql.toList → ∀ store : Store,
        store.execute c.statement = (.error .engine, store) ∧
          store.query c.statement = (.error .engine, store)) ∧
      (nul ∉ c.sql.toList → ∃ ls,
        lexemes? c.sql.toList = some (ls, []) ∧ ls.map Lexeme.token = textTokens c.sql) := by
  have hs := d.build_wellFormed hbuild
  have htidy := tidy_build hs h
  have hcontents := build_contents hs h
  refine ⟨hcontents, hcontents ▸ htidy.nul_mem_iff, fun hnul store => ?_, htidy.lexemes?_eq⟩
  have hperform := htidy.perform_eq_error hnul store c.params
  constructor
  · rw [Store.execute, Command.statement, hperform]
  · rw [Store.query, Command.statement, hperform]

/-- A condition on a title with a NUL. -/
theorem build_nul_notes :
    ∃ c, (Table.mk .notes .inline).build (.default .notes) (.select none)
        [.filter (.binary .eq (.column "title") (.literal (.text "a\x00b")))] = .ok c ∧
      contentsIn c.sql = [['a', nul, 'b']] ∧
      Store.empty.query c.statement = (.error .engine, .empty) := by
  let query : Query := ⟨false, none, "notes", some "title = 'a\x00b'", none, none, none⟩
  have hbuild : (Table.mk .notes .inline).build (.default .notes) (.select none)
      [.filter (.binary .eq (.column "title") (.literal (.text "a\x00b")))] =
        .ok ⟨.query query, []⟩ := by
    decide +kernel
  obtain ⟨hcontents, hnul, hlost, -⟩ := build_nul Schema.build_notes hbuild
  exact ⟨_, hbuild, hcontents, (hlost (by decide +kernel) .empty).2⟩

end Table

/-- A table of single letters. -/
def Schema.letters : Schema := ⟨"Letter", "letters", [⟨"letter", "letter", .plain .char, []⟩]⟩

/-- A letter that was never set is written with a NUL inline, which no store reads, and without one
with parameters. -/
theorem Table.nul_mem_unset_letter :
    (∃ c, (Table.mk .letters .inline).build (.default .letters) (.insert .insert none) [] = .ok c ∧
      c.sql = "INSERT INTO letters (letter) VALUES ('\x00')" ∧ nul ∈ c.sql.toList ∧
      ∀ store : Store, store.perform c.statement = (.error .engine, store)) ∧
    ∃ c, (Table.mk .letters .parameters).build (.default .letters) (.insert .insert none) [] =
        .ok c ∧
      c.sql = "INSERT INTO letters (letter) VALUES (@letter)" ∧ nul ∉ c.sql.toList := by
  have hletters : (Declaration.mk "Letter" (some "letters") Schema.letters.columns).build =
      .ok .letters := Declaration.build_of_problems (by decide +kernel)
  have hbuild : (Table.mk .letters .inline).build (.default .letters) (.insert .insert none) [] =
      .ok ⟨.insert .insert "letters" [("letter", "'\x00'")], []⟩ := by
    decide +kernel
  have htidy := tidy_build (Declaration.build_wellFormed hletters) hbuild
  constructor
  · exact ⟨_, hbuild, by decide +kernel, by decide +kernel, fun store =>
      htidy.perform_eq_error (by decide +kernel) store _⟩
  · exact ⟨⟨.insert .insert "letters" [("letter", "@letter")], [⟨"@letter", .text "\x00"⟩]⟩,
      by decide +kernel, by decide +kernel, by decide +kernel⟩

end SqlRecord
