import SqlRecord.Proofs.Command.Sentence
import SqlRecord.Proofs.Command.Tokens
import SqlRecord.Proofs.Sql.Phrase
import SqlRecord.Proofs.Sql.Readers

/-!
# Orderings of queries

A term of an ordering is read with a direction of its own: that of the word behind it, and the
ascending one where there is none. The direction of an ordering stands once, behind the last of its
columns, and so is read as the direction of that column alone. Main statement:
`Table.extend_orderBy_reads`.
-/

namespace SqlRecord

/-- The term that sorts by a column in a direction: an expression, and whether it descends. -/
def sortTerm (direction : Direction) (column : String) : Sql.Term × Bool :=
  (.column column, direction == .desc)

theorem sortTerm_injective {column : String} {direction direction' : Direction}
    (h : sortTerm direction column = sortTerm direction' column) : direction = direction' := by
  cases direction <;> cases direction' <;> simp_all [sortTerm]

namespace Sql

namespace Reader

variable {ls : List Lexeme} {l m : Lexeme} {c last : String} {before : List String}
variable {direction : Direction}

/-! ### Terms -/

/-- No operator is read at a comma or a direction. -/
theorem run_operator_stop (hl : l.token ∈ [.symbol ",", .word "ASC", .word "DESC"]) :
    Operator.read.run (l :: ls) = none := by
  simp only [List.mem_cons, List.not_mem_nil, or_false] at hl
  have hkeyword : ∀ w ∈ ["OR", "AND", "IS"], (keyword w).run (l :: ls) = none := by
    intro w hw
    rw [keyword, run_one_cons]
    rcases hl with hl | hl | hl
    all_goals
      rw [hl]
      fin_cases hw <;> rfl
  rw [Operator.read, run_orElse_of_eq_none (run_bind_of_eq_none (hkeyword _ (by simp))),
    run_orElse_of_eq_none (run_bind_of_eq_none (hkeyword _ (by simp))),
    run_orElse_of_eq_none (run_bind_of_eq_none (hkeyword _ (by simp))), run_one_cons]
  rcases hl with hl | hl | hl
  all_goals
    rw [hl]
    rfl

/-- A comma says nothing about the direction, which is to ascend then. -/
theorem run_descends_comma (hl : l.token = .symbol ",") :
    descends.run (l :: ls) = some (false, l :: ls) := by
  rw [descends, run_orElse_of_eq_none (run_bind_of_eq_none (run_keyword_symbol hl)),
    run_orElse_of_eq_none (run_bind_of_eq_none (run_keyword_symbol hl))]
  rfl

/-- A direction is read as whether it descends. -/
theorem run_descends_direction (hl : l.token = .word direction.token) :
    descends.run (l :: ls) = some (direction == .desc, ls) := by
  cases direction with
  | asc =>
    have hdesc : (keyword "DESC").run (l :: ls) = none := by
      rw [run_keyword_word hl]
      rfl
    rw [descends, run_orElse_of_eq_none (run_bind_of_eq_none hdesc), run_orElse_of_eq_some]
    exact run_bind_of_eq_some (run_keyword_self hl)
  | desc =>
    rw [descends, run_orElse_of_eq_some]
    exact run_bind_of_eq_some (run_keyword_self hl)

/-- A column before a comma ascends. -/
theorem run_orderingTerm_comma (hl : l.token = .word c) (hc : Identifier.isKeyword c = false)
    (hm : m.token = .symbol ",") :
    orderingTerm.run (l :: m :: ls) = some (sortTerm .asc c, m :: ls) := by
  have hterm : term.run (l :: m :: ls) = some (.column c, m :: ls) :=
    run_term_column hl hc (run_operator_stop (by simp [hm]))
  rw [orderingTerm, run_bind_of_eq_some hterm, run_bind_of_eq_some (run_descends_comma hm)]
  rfl

/-- A column before a direction is sorted in it. -/
theorem run_orderingTerm_direction (hl : l.token = .word c) (hc : Identifier.isKeyword c = false)
    (hm : m.token = .word direction.token) :
    orderingTerm.run (l :: m :: ls) = some (sortTerm direction c, ls) := by
  have hterm : term.run (l :: m :: ls) = some (.column c, m :: ls) :=
    run_term_column hl hc (run_operator_stop (by cases direction <;> simp [hm, Direction.token]))
  rw [orderingTerm, run_bind_of_eq_some hterm, run_bind_of_eq_some (run_descends_direction hm)]
  rfl

/-! ### Lists of terms -/

/-- **Of columns with one direction behind them, the last is sorted in it and the others
ascend.** -/
theorem run_commaListFuel_ordering (hbefore : ∀ c ∈ before, Identifier.isKeyword c = false)
    (hlast : Identifier.isKeyword last = false)
    (hls : ls.map Lexeme.token = nameTokens (before ++ [last]) ++ [.word direction.token])
    {fuel : Nat} (hfuel : before.length < fuel) :
    (commaListFuel orderingTerm fuel).run ls =
      some (before.map (sortTerm .asc) ++ [sortTerm direction last], []) := by
  induction before generalizing ls fuel with
  | nil =>
    obtain ⟨fuel, rfl⟩ := Nat.exists_eq_add_one.mpr hfuel
    obtain ⟨l, rest, rfl, hl, hrest⟩ := List.map_eq_cons_iff.mp hls
    obtain ⟨m, rest, rfl, hm, hrest⟩ := List.map_eq_cons_iff.mp hrest
    obtain rfl := List.map_eq_nil_iff.mp hrest
    rw [commaListFuel, run_bind_of_eq_some (run_orderingTerm_direction hl hlast hm)]
    rfl
  | cons c before ih =>
    obtain ⟨fuel, rfl⟩ := Nat.exists_eq_add_one_of_ne_zero (Nat.ne_zero_of_lt hfuel)
    rw [List.cons_append, nameTokens_cons (by simp)] at hls
    obtain ⟨l, rest, rfl, hl, hrest⟩ := List.map_eq_cons_iff.mp hls
    obtain ⟨m, rest, rfl, hm, hrest⟩ := List.map_eq_cons_iff.mp hrest
    obtain ⟨hc, hbefore⟩ := List.forall_mem_cons.mp hbefore
    have hmore := ih hbefore hrest (Nat.lt_of_succ_lt_succ hfuel)
    rw [commaListFuel, run_bind_of_eq_some (run_orderingTerm_comma hl hc hm),
      run_bind_of_eq_some (run_succeeds (run_symbol_self hm)), if_pos rfl,
      run_bind_of_eq_some hmore]
    rfl

/-- Reads the ordering of a query. -/
def ordering : Reader (List (Term × Bool)) := do
  keywords ["ORDER", "BY"]
  commaList orderingTerm

/-- The terms of an ordering are read as columns that ascend and a last one with the direction. -/
theorem run_ordering (hbefore : ∀ c ∈ before, Identifier.isKeyword c = false)
    (hlast : Identifier.isKeyword last = false)
    (hls : ls.map Lexeme.token = Query.orderingTokens (before ++ [last], direction)) :
    ordering.run ls = some (before.map (sortTerm .asc) ++ [sortTerm direction last], []) := by
  obtain ⟨l, rest, rfl, hl, hrest⟩ := List.map_eq_cons_iff.mp hls
  obtain ⟨m, rest, rfl, hm, hrest⟩ := List.map_eq_cons_iff.mp hrest
  have hkeywords : (keywords ["ORDER", "BY"]).run (l :: m :: rest) = some ((), rest) := by
    rw [keywords, List.forM_eq_forM, List.forM_cons, run_bind_of_eq_some (run_keyword_self hl),
      List.forM_cons, run_bind_of_eq_some (run_keyword_self hm)]
    rfl
  have hlength : before.length < rest.length + 1 := by
    have hnames := length_le_nameTokens (before ++ [last])
    have hlength := congrArg List.length hrest
    rw [List.length_map, List.length_append] at hlength
    rw [List.length_append, List.length_singleton] at hnames
    exact (Nat.lt_of_succ_le hnames).trans (by simp [hlength])
  rw [ordering, run_bind_of_eq_some hkeywords]
  exact run_commaListFuel_ordering hbefore hlast hrest hlength

end Reader

end Sql

/-! ### Texts -/

theorem notMem_intercalate {α : Type} {a : α} {sep : List α} {items : List (List α)}
    (hsep : a ∉ sep) (hitems : ∀ as ∈ items, a ∉ as) : a ∉ sep.intercalate items := by
  induction items with
  | nil => exact List.not_mem_nil
  | cons as items ih =>
    obtain ⟨has, hitems⟩ := List.forall_mem_cons.mp hitems
    cases items with
    | nil => simpa using has
    | cons bs items =>
      rw [List.intercalate_cons_cons, List.append_assoc]
      simp only [List.mem_append, not_or]
      exact ⟨has, hsep, ih hitems⟩

namespace Query

variable {o : List String × Direction}

theorem semicolon_notMem_orderingTokens : .symbol ";" ∉ orderingTokens o := by
  have hnames : .symbol ";" ∉ nameTokens o.1 := by
    refine notMem_intercalate (by decide) ?_
    simp
  simpa [orderingTokens] using hnames

/-- An ordering has no character that cuts the statement short. -/
theorem nul_notMem_orderingText (h : AreNames o.1) :
    Char.ofNat 0 ∉ (orderingText o).toList := by
  have hnames : Char.ofNat 0 ∉ (commaList o.1).toList := by
    rw [commaList, String.toList_intercalate]
    refine notMem_intercalate (by decide) ?_
    rw [List.forall_mem_map]
    intro name hname hnul
    obtain ⟨-, -, -, -, hpart⟩ := Identifier.isWord_iff.mp (h.2 name hname)
    exact absurd (hpart _ hnul) (by decide)
  have hdirection : Char.ofNat 0 ∉ o.2.token.toList := by
    cases o.2 <;> decide
  have hkeywords : Char.ofNat 0 ∉ " ORDER BY ".toList := by decide
  have hblank : Char.ofNat 0 ∉ " ".toList := by decide
  simp only [orderingText, String.toList_append, List.mem_append, not_or]
  exact ⟨⟨⟨hkeywords, hnames⟩, hblank⟩, hdirection⟩

end Query

/-- The terms that a text is read as if it is the ordering of a query, each with whether it
descends. -/
def Sql.orderingOf? (text : String) : Option (List (Sql.Term × Bool)) :=
  match lexemes? text.toList with
  | some (ls, []) => match Reader.ordering.run ls with
    | some (terms, []) => some terms
    | _ => none
  | _ => none

/-- **An ordering is read as its columns in their order, the last of them in the direction and the
others ascending.** -/
theorem Query.orderingOf?_orderingText {before : List String} {last : String}
    (h : ∀ c ∈ before ++ [last], Identifier.isValid c = true) (direction : Direction) :
    Sql.orderingOf? (orderingText (before ++ [last], direction)) =
      some (before.map (sortTerm .asc) ++ [sortTerm direction last]) := by
  have hwords : AreNames (before ++ [last]) :=
    ⟨by simp, fun c hc => Sql.Phrase.isWord_of_isValid (h c hc)⟩
  have hkeyword : ∀ c ∈ before ++ [last], Identifier.isKeyword c = false :=
    fun c hc => Sql.Phrase.isKeyword_of_isValid (h c hc)
  have htokens : Sql.tokens? (orderingText (before ++ [last], direction)).toList =
      some (orderingTokens (before ++ [last], direction)) := (readsAfter_ordering hwords).tokens?
  obtain ⟨ls, hls, hmap⟩ := Sql.lexemes?_of_tokens? htokens semicolon_notMem_orderingTokens
    (nul_notMem_orderingText hwords)
  rw [Sql.orderingOf?, hls]
  dsimp only
  rw [Sql.Reader.run_ordering (fun c hc => hkeyword c (by simp [hc])) (hkeyword last (by simp))
    hmap]

/-! ### Queries -/

namespace Table

variable {t : Table} {c : Command}

/-- An ordering that the stage allows is added to the end of a command. -/
theorem extend_orderBy (hstage : (c.stage.next? .orderBy).isSome) {fields names : List String}
    (hnames : t.columnNames fields = .ok names) (direction : Direction) :
    ∃ c', t.extend c (.orderBy fields direction) = .ok c' ∧
      c'.sql = c.sql ++ Query.orderingText (names, direction) ∧ c'.params = c.params := by
  have hkind : ClauseKind.orderBy ≠ .filter := by decide
  obtain ⟨q, hbody, hstage⟩ := Command.exists_query hkind hstage
  obtain ⟨body, params⟩ := c
  cases hbody
  obtain ⟨hwindow, hordering⟩ := Query.of_next? hstage
  obtain ⟨stage, hnext⟩ := Option.isSome_iff_exists.mp hstage
  refine ⟨⟨.query { q with ordering := some (names, direction) }, params⟩, ?_, ?_, rfl⟩
  · rw [extend, Clause.kind, hnext]
    dsimp only
    rw [add, hnames]
    rfl
  · simp only [Command.sql_query, Query.text_eq, hwindow, hordering (by decide), Query.clauseText,
      String.append_empty]

/-- **The direction of an ordering is that of its last column; the columns before it ascend.** So
every column is sorted in the direction exactly if it is the ascending one or there is one
column. -/
theorem extend_orderBy_reads {d : Declaration} {s : Schema} (hbuild : d.build = .ok s)
    (mode : BindMode) {c : Command} (hstage : (c.stage.next? .orderBy).isSome)
    {fields : List String} {columns : List s.Index} (hfields : s.resolve fields = .ok columns)
    (direction : Direction) :
    columns.map (fun i => (s.column i).field) = fields ∧
      ∃ c' text before last,
        (Table.mk s mode).extend c (.orderBy fields direction) = .ok c' ∧
        c'.sql = c.sql ++ text ∧ c'.params = c.params ∧
        columns.map (fun i => (s.column i).name) = before ++ [last] ∧
        Sql.orderingOf? text = some (before.map (sortTerm .asc) ++ [sortTerm direction last]) ∧
        (Sql.orderingOf? text =
            some (columns.map fun i => sortTerm direction (s.column i).name) ↔
          direction = .asc ∨ columns.length = 1) := by
  have hs := d.build_wellFormed hbuild
  obtain ⟨-, hne, hmap⟩ := Schema.resolve_spec hfields
  obtain ⟨before, last, rfl⟩ : ∃ before last, columns = before ++ [last] :=
    ⟨_, _, (List.dropLast_append_getLast hne).symm⟩
  let name (i : s.Index) : String := (s.column i).name
  have hnames : (Table.mk s mode).columnNames fields = .ok (before.map name ++ [name last]) := by
    rw [columnNames, hfields]
    exact congrArg Except.ok List.map_append
  obtain ⟨c', hextend, hsql, hparams⟩ := extend_orderBy hstage hnames direction
  have hvalid : ∀ c ∈ before.map name ++ [name last], Identifier.isValid c = true := by
    rw [← List.map_singleton, ← List.map_append, List.forall_mem_map]
    exact fun i _ => hs.column_valid i
  have hreads := Query.orderingOf?_orderingText hvalid direction
  refine ⟨hmap, c', _, _, _, hextend, hsql, hparams, List.map_append, hreads, ?_⟩
  rw [hreads, Option.some_inj, List.map_append, List.map_singleton, List.append_left_inj,
    List.map_map]
  constructor
  · intro h
    cases before with
    | nil => exact .inr rfl
    | cons i before => exact .inl (sortTerm_injective (List.cons.inj h).1).symm
  · rintro (rfl | hlength)
    · rfl
    · have hbefore : before = [] := by simpa using hlength
      rw [hbefore]
      rfl

/-- All notes, before they are ordered. -/
def allNotes : Command := ⟨.query (.plain "notes" none), []⟩

/-- Notes by title, and by falling weight where titles are the same. -/
theorem extend_orderBy_reads_notes :
    ∃ c' text, (Table.mk .notes .inline).extend allNotes (.orderBy ["title", "weight"] .desc) =
        .ok c' ∧ c'.sql = allNotes.sql ++ text ∧
      Sql.orderingOf? text = some [(.column "title", false), (.column "weight", true)] := by
  have hfields : Schema.notes.resolve ["title", "weight"] =
      .ok [⟨1, by decide⟩, ⟨2, by decide⟩] := by
    decide +kernel
  obtain ⟨-, c', text, before, last, hextend, hsql, -, hcolumns, hreads, -⟩ :=
    extend_orderBy_reads Schema.build_notes .inline (c := allNotes) (by decide) hfields .desc
  have hnames : ["title"] ++ ["weight"] = before ++ [last] := hcolumns
  obtain ⟨rfl, hlast⟩ := List.append_inj' hnames rfl
  cases hlast
  exact ⟨c', text, hextend, hsql, hreads⟩

/-- Titles ascend although notes are ordered by title and weight in the descending direction. -/
theorem extend_orderBy_desc_ascends :
    ∃ c', (Table.mk .notes .inline).extend allNotes (.orderBy ["title", "weight"] .desc) = .ok c' ∧
      c'.sql = allNotes.sql ++ " ORDER BY title, weight DESC" ∧
      Sql.orderingOf? " ORDER BY title, weight DESC" ≠
        some [(.column "title", true), (.column "weight", true)] := by
  refine ⟨⟨.query { Query.plain "notes" none with
    ordering := some (["title", "weight"], .desc) }, []⟩, ?_, ?_, ?_⟩
  · decide +kernel
  · decide +kernel
  · decide +kernel

end Table

end SqlRecord
