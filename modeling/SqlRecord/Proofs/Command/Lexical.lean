import SqlRecord.Proofs.Command.Sentence
import SqlRecord.Proofs.Command.Sound
import SqlRecord.Proofs.Schema.Definition
import SqlRecord.Proofs.Sql.Lexical

/-!
# Lexical soundness of commands

A command begins with a tidy text, and a clause either adds a tidy text after a blank or, as
`DISTINCT`, changes the beginning of a query that has no clauses yet (`Table.tidy_extend`). So a
chain of any length writes a tidy text. Main statement: `Schema.lexicallySound_of_build`, by which
every text that a built schema gives rise to is lexically sound.
-/

namespace SqlRecord

open Sql

/-! ### Parts of commands -/

theorem tidy_names {names : List String} (h : AreNames names) : Tidy (commaList names).toList := by
  rw [commaList, String.toList_intercalate]
  exact Tidy.commas h.1 fun name hname => .word (h.2 name hname)

theorem tidy_natText (n : Nat) : Tidy (natText n).toList := by
  rw [natText, String.toList_ofList]
  exact .number (Literal.isUnsignedNumeric_iff.mpr (.inl (Digits.isDigits_ofNat n)))

/-- The text of an encoded value is tidy: a number is a literal of its own, perhaps after one
minus. -/
theorem Encoded.Form.tidy {name : String} {t : SqlType} {v : Value} {mode : BindMode} {e : Encoded}
    (h : e.Form name t v mode) (hname : Identifier.isWord name.toList = true) :
    Tidy e.sql.toList := by
  cases h with
  | null => exact .word (by decide)
  | bound =>
    exact .token (t := .placeholder _) (Encoded.isPlain_placeholder hname) ⟨by simp, by simp⟩
  | text s =>
    rw [Literal.quote, String.toList_ofList]
    exact .token (t := .text s.toList) trivial ⟨by simp, by simp⟩
  | number _ _ _ htext =>
    obtain ⟨negative, cs, hcs, htext⟩ := Literal.exists_of_numeric htext
    obtain ⟨c, ds, rfl, hc⟩ := Literal.exists_digit_of_isUnsignedNumeric hcs
    have hnumber := Tidy.number hcs
    dsimp only
    rw [htext]
    split_ifs
    · refine hnumber.minus ?_
      rintro ⟨⟩
      exact absurd hc (by decide)
    · exact hnumber

namespace Schema

variable {s : Schema}

/-- The text of an expression is tidy, in either mode. -/
theorem tidy_compileIn (hs : s.WellFormed) {mode : BindMode} {e : Expr}
    {params params' : List Parameter} {text : String}
    (h : s.compileIn mode e params = (.ok text, params')) : Tidy text.toList := by
  obtain ⟨t, ht, rfl, -⟩ := (compileIn_eq_ok_iff hs).mp h
  have hwritable := writable_phrase? hs ht
  rw [String.toList_ofList]
  exact ⟨t.layout, hwritable.spaced, hwritable.balanced, rfl⟩

end Schema

namespace Table

variable {t : Table} {row : Record t.schema} {c c' : Command} {clause : Clause}

/-- The list of fields of a clause is tidy. -/
theorem Lists.tidy (hs : t.schema.WellFormed) {fields : List String} {text : String}
    (h : t.Lists fields text) : Tidy text.toList := by
  obtain ⟨columns, hne, -, -, rfl⟩ := h
  refine tidy_names ⟨by simpa using hne, ?_⟩
  exact List.forall_mem_map.mpr fun i _ => Phrase.isWord_of_isValid (hs.column_valid i)

/-- **A clause adds a tidy text after a blank.** -/
theorem Appends.tidy (hs : t.schema.WellFormed) {text : String} {params params' : List Parameter}
    (h : t.Appends clause text params params') : ∃ cs, text.toList = ' ' :: cs ∧ Tidy cs := by
  have hafter : ∀ {w : String} {cs : List Char}, Identifier.isWord w.toList = true → Tidy cs →
      Tidy (w.toList ++ ' ' :: cs) := fun hw hcs => (Tidy.word hw).gap hcs
  cases h with
  | filter hcompile =>
    exact ⟨_, by simp, hafter (w := "WHERE") (by decide) (Schema.tidy_compileIn hs hcompile)⟩
  | having hcompile =>
    exact ⟨_, by simp, hafter (w := "HAVING") (by decide) (Schema.tidy_compileIn hs hcompile)⟩
  | groupBy hlist =>
    exact ⟨_, by simp, hafter (w := "GROUP") (by decide)
      (hafter (w := "BY") (by decide) (hlist.tidy hs))⟩
  | ascending hlist =>
    exact ⟨_, by simp, hafter (w := "ORDER") (by decide)
      (hafter (w := "BY") (by decide) ((hlist.tidy hs).gap (.word (w := "ASC") (by decide))))⟩
  | descending hlist =>
    exact ⟨_, by simp, hafter (w := "ORDER") (by decide)
      (hafter (w := "BY") (by decide) ((hlist.tidy hs).gap (.word (w := "DESC") (by decide))))⟩
  | @limit count _ =>
    exact ⟨_, by simp, hafter (w := "LIMIT") (by decide) (tidy_natText count)⟩
  | @offset count offset =>
    exact ⟨_, by simp, hafter (w := "LIMIT") (by decide)
      ((tidy_natText count).gap (hafter (w := "OFFSET") (by decide) (tidy_natText offset)))⟩

/-! ### Beginnings -/

/-- A plain query is tidy, with or without duplicates. -/
theorem tidy_plain {table : String} {columns : Option (List String)}
    (htable : Identifier.isWord table.toList = true)
    (hcolumns : ∀ names ∈ columns, AreNames names) :
    Tidy (Query.plain table columns).text.toList ∧
      Tidy ({ Query.plain table columns with distinct := true } : Query).text.toList := by
  have hlist : Tidy (columns.elim "*" commaList).toList := by
    cases columns with
    | none => exact .symbol (s := "*") (by decide) (by decide)
    | some names => exact tidy_names (hcolumns names rfl)
  have hfrom := hlist.gap ((Tidy.word (w := "FROM") (by decide)).gap (.word htable))
  constructor
  · exact ((Tidy.word (w := "SELECT") (by decide)).gap hfrom).of_eq (by simp [Query.text_plain])
  · exact ((Tidy.word (w := "SELECT") (by decide)).gap
      ((Tidy.word (w := "DISTINCT") (by decide)).gap hfrom)).of_eq (by simp [Query.text_distinct])

/-- The texts of encoded columns are tidy, after names that are words. -/
theorem tidy_encodeColumns (hs : t.schema.WellFormed) {columns : List t.schema.Index}
    {values : List (String × String)} {params : List Parameter}
    (h : t.encodeColumns row columns = .ok (values, params)) :
    ∀ v ∈ values, Identifier.isWord v.1.toList = true ∧ Tidy v.2.toList := by
  obtain ⟨ps, rfl, hps, rfl, -⟩ := encodeColumns_eq_ok h
  refine List.forall_mem_map.mpr fun p hp => ?_
  have hname := Phrase.isWord_of_isValid (hs.column_valid p.1)
  obtain ⟨v, -, hform⟩ := encodeColumn_form (hps p hp)
  exact ⟨hname, hform.tidy hname⟩

/-- An insert is tidy if its columns are names and its values are tidy. -/
theorem tidy_insert {verb : InsertVerb} {table : String} {values : List (String × String)}
    (htable : Identifier.isWord table.toList = true)
    (hvalues : ∀ v ∈ values, Identifier.isWord v.1.toList = true ∧ Tidy v.2.toList) :
    Tidy (CommandBody.insert verb table values).sql.toList := by
  have hinto := (Tidy.word (w := verb.keyword) (by cases verb <;> decide)).gap
    ((Tidy.word (w := "INTO") (by decide)).gap (.word htable))
  cases values with
  | nil =>
    exact (hinto.gap ((Tidy.word (w := "DEFAULT") (by decide)).gap
      (.word (w := "VALUES") (by decide)))).of_eq (by simp [CommandBody.sql_insert_nil])
  | cons v values =>
    have hnames : Tidy (commaList ((v :: values).map Prod.fst)).toList :=
      tidy_names ⟨by simp, List.forall_mem_map.mpr fun v hv => (hvalues v hv).1⟩
    have htexts : Tidy (commaList ((v :: values).map Prod.snd)).toList := by
      rw [commaList, String.toList_intercalate, List.map_map]
      exact Tidy.commas (by simp) fun v hv => (hvalues v hv).2
    exact (hinto.gap (hnames.enclose.gap ((Tidy.word (w := "VALUES") (by decide)).gap
      htexts.enclose))).of_eq (by simp [CommandBody.sql_insert_cons])

theorem tidy_update {table : String} {values : List (String × String)} (hne : values ≠ [])
    (htable : Identifier.isWord table.toList = true)
    (hvalues : ∀ v ∈ values, Identifier.isWord v.1.toList = true ∧ Tidy v.2.toList) :
    Tidy (CommandBody.update table values none).sql.toList := by
  have hassignments : Tidy (commaList (values.map fun v => v.1 ++ " = " ++ v.2)).toList := by
    rw [commaList, String.toList_intercalate, List.map_map]
    refine Tidy.commas hne fun v hv => ?_
    have hequals : Tidy "=".toList := .symbol (by decide) (by decide)
    exact ((Tidy.word (hvalues v hv).1).gap (hequals.gap (hvalues v hv).2)).of_eq (by simp)
  exact ((Tidy.word (w := "UPDATE") (by decide)).gap ((Tidy.word htable).gap
    ((Tidy.word (w := "SET") (by decide)).gap hassignments))).of_eq
      (by simp [CommandBody.sql_update, conditionText_none])

/-- Every command is tidy when it is started. -/
theorem Starts.tidy (hs : t.schema.WellFormed) {entry : Entry} (h : t.Starts row entry c) :
    Tidy c.sql.toList := by
  have htable := Phrase.isWord_of_isValid hs.table_valid
  have hfrom := (Tidy.word (w := "FROM") (by decide)).gap (.word htable)
  cases h with
  | insert _ hvalues => exact tidy_insert htable (tidy_encodeColumns hs hvalues)
  | all => exact (@tidy_plain _ none htable nofun).1
  | select hnames =>
    refine (tidy_plain htable ?_).1
    rintro names ⟨⟩
    exact areNames_columnNames hs hnames
  | count =>
    have hstar : Tidy "COUNT(*)".toList :=
      ⟨.word "COUNT" :: Sql.enclose [.symbol "*"], .call (by decide) (.symbol (by decide)),
        (Balanced.word (by decide)).append_layout
          (Balanced.of_notMem (by decide) (by decide)).enclose_layout, by decide⟩
    exact ((Tidy.word (w := "SELECT") (by decide)).gap (hstar.gap hfrom)).of_eq
      (by simp [Command.sql_count])
  | update hne _ hvalues =>
    have hvalues' := tidy_encodeColumns hs hvalues
    obtain ⟨ps, rfl, -, rfl, -⟩ := encodeColumns_eq_ok hvalues
    exact tidy_update (by simpa using hne) htable hvalues'
  | delete =>
    exact ((Tidy.word (w := "DELETE") (by decide)).gap hfrom).of_eq (by simp [Command.sql_delete])

/-! ### Clauses -/

/-- **A clause keeps the text of a command tidy.** -/
theorem tidy_extend (hs : t.schema.WellFormed) (hreadable : c.body.Readable)
    (hc : Tidy c.sql.toList) (h : t.extend c clause = .ok c') : Tidy c'.sql.toList := by
  by_cases hdistinct : clause = .distinct
  · subst hdistinct
    have hsome := isSome_of_extend h
    cases extend_eq_ok h with
    | @distinct q params =>
      have hq : Query.Readable q := hreadable
      -- a query that becomes `DISTINCT` has no clauses
      rw [Command.sql_query, Query.of_next?_distinct hsome]
      exact (tidy_plain hq.table hq.columns).2
  · obtain ⟨text, happends, hsql⟩ := extend_appends hs hdistinct h
    obtain ⟨cs, htext, hcs⟩ := happends.tidy hs
    rw [hsql, String.toList_append, htext]
    exact hc.gap hcs

/-- **A chain of calls writes a tidy text**, by induction on its clauses. -/
theorem tidy_foldlM (hs : t.schema.WellFormed) {clauses : List Clause} (hsound : Sound row c)
    (hc : Tidy c.sql.toList) (h : clauses.foldlM t.extend c = .ok c') : Tidy c'.sql.toList := by
  induction clauses generalizing c with
  | nil =>
    cases h
    exact hc
  | cons clause clauses ih =>
    rw [List.foldlM_cons] at h
    obtain ⟨c₁, hstep, hrun⟩ := bind_eq_ok h
    exact ih ((extend_eq_ok hstep).sound hs hsound) (tidy_extend hs hsound.readable hc hstep) hrun

end Table

/-! ### Schemas -/

namespace Schema

variable {s : Schema}

/-- **Every text of a built schema is lexically sound**: that of any command in either mode, the
definition of the table and the command that drops it. -/
theorem lexicallySound_of_build {d : Declaration} (hbuild : d.build = .ok s) :
    (∀ (mode : BindMode) (row : Record s) (entry : Entry) (clauses : List Clause) (c : Command),
      (Table.mk s mode).build row entry clauses = .ok c → LexicallySound c.sql) ∧
    (∃ text, s.createText = .ok text ∧ LexicallySound text) ∧ LexicallySound s.dropText := by
  have hs := d.build_wellFormed hbuild
  refine ⟨fun mode row entry clauses c h => ?_, ⟨_, createText_eq hs, ?_⟩, ?_⟩
  · obtain ⟨c₀, hstart, hrun⟩ := Table.build_eq_ok h
    exact (Table.tidy_foldlM hs (hstart.sound hs) (hstart.tidy hs) hrun).lexicallySound
  · have hform := hs.writable_form
    refine Tidy.lexicallySound ⟨s.form.layout, hform.spaced, hform.balanced, ?_⟩
    rw [String.toList_ofList]
  · have htable := Phrase.isWord_of_isValid hs.table_valid
    have hdrop := (Tidy.word (w := "DROP") (by decide)).gap
      ((Tidy.word (w := "TABLE") (by decide)).gap ((Tidy.word (w := "IF") (by decide)).gap
        ((Tidy.word (w := "EXISTS") (by decide)).gap (.word htable))))
    have htext : s.dropText.toList = "DROP TABLE IF EXISTS ".toList ++ s.table.toList :=
      String.toList_append
    exact Tidy.lexicallySound (hdrop.of_eq (htext.trans rfl))

/-- A condition with what begins comments and ends statements in a text, and with a minus before a
negative constant. -/
def marked : Expr :=
  .binary .and (.binary .eq (.column "title") (.literal (.text "it's -- (/*;")))
    (.binary .lt (.unary .negate (.literal (.integer ⟨-5, by decide, by decide⟩)))
      (.column "weight"))

/-- The texts of notes. -/
theorem lexicallySound_of_build_notes :
    (∃ c, (Table.mk .notes .inline).build (.default .notes) (.select none) [.filter marked] =
        .ok c ∧
      c.sql = "SELECT * FROM notes WHERE (title = 'it''s -- (/*;') AND (-(-5) < weight)" ∧
      LexicallySound c.sql) ∧
    (∃ text, notes.createText = .ok text ∧ LexicallySound text) ∧
      LexicallySound notes.dropText := by
  obtain ⟨hcommands, hrest⟩ := lexicallySound_of_build build_notes
  let query : Query := ⟨false, none, "notes",
    some "(title = 'it''s -- (/*;') AND (-(-5) < weight)", none, none, none⟩
  have hbuild : (Table.mk .notes .inline).build (.default .notes) (.select none)
      [.filter marked] = .ok ⟨.query query, []⟩ := by
    decide +kernel
  exact ⟨⟨_, hbuild, by decide +kernel, hcommands _ _ _ _ _ hbuild⟩, hrest⟩

end Schema

end SqlRecord
