import SqlRecord.Proofs.Command.Chain
import SqlRecord.Proofs.Schema.Columns

/-!
# Commands as sentences

A command that is built is one sentence of a small grammar (`Table.Sentence`), in which every
clause stands for one call of the chain, and stands in its place. The stage decides which clauses
may follow and each of them only adds to the end of the text (`Table.extend_appends`), so that a
chain of calls writes a path through the stages (`Table.Continues`); read off stage by stage, such a
path is the clauses of a sentence in their order. Main statement: `Table.build_sentence`.
-/

namespace SqlRecord

instance : Fintype ClauseKind where
  elems := {.distinct, .filter, .groupBy, .having, .orderBy, .limit}
  complete kind := by cases kind <;> decide

namespace Table

variable (t : Table)

/-! ### The grammar -/

/-- Whether a text lists the columns of fields in their order: columns of the schema, one at least
and all different. -/
def Lists (fields : List String) (text : String) : Prop :=
  ∃ columns : List t.schema.Index, columns ≠ [] ∧
    columns.map (fun i => (t.schema.column i).field) = fields ∧
    (columns.map fun i => (t.schema.column i).name).Nodup ∧
    text = ", ".intercalate (columns.map fun i => (t.schema.column i).name)

/-- The text after `SELECT`: every column, or those of the fields. -/
inductive Projection : Option (List String) → String → Prop
  | all : Projection none "*"
  | columns {fields : List String} {text : String} (hlist : t.Lists fields text) :
      Projection (some fields) text

/-- What a clause adds to the end of a command and to its parameters. -/
inductive Appends : Clause → String → List Parameter → List Parameter → Prop
  | filter {e : Expr} {text : String} {params params' : List Parameter}
      (hcompile : t.schema.compileIn t.mode e params = (.ok text, params')) :
      Appends (.filter e) (" WHERE " ++ text) params params'
  | groupBy {fields : List String} {text : String} {params : List Parameter}
      (hlist : t.Lists fields text) :
      Appends (.groupBy fields) (" GROUP BY " ++ text) params params
  | having {e : Expr} {text : String} {params params' : List Parameter}
      (hcompile : t.schema.compileIn t.mode e params = (.ok text, params')) :
      Appends (.having e) (" HAVING " ++ text) params params'
  | ascending {fields : List String} {text : String} {params : List Parameter}
      (hlist : t.Lists fields text) :
      Appends (.orderBy fields .asc) (" ORDER BY " ++ text ++ " ASC") params params
  | descending {fields : List String} {text : String} {params : List Parameter}
      (hlist : t.Lists fields text) :
      Appends (.orderBy fields .desc) (" ORDER BY " ++ text ++ " DESC") params params
  | limit {count : Nat} {params : List Parameter} :
      Appends (.limit count 0) (" LIMIT " ++ natText count) params params
  | offset {count offset : Nat} {params : List Parameter} (hoffset : 0 < offset) :
      Appends (.limit count offset) (" LIMIT " ++ natText count ++ " OFFSET " ++ natText offset)
        params params

/-- A clause of a kind, or none. -/
inductive Optionally (kind : ClauseKind) :
    List Clause → String → List Parameter → List Parameter → Prop
  | none {params : List Parameter} : Optionally kind [] "" params params
  | some {clause : Clause} {text : String} {params params' : List Parameter}
      (hkind : clause.kind = kind) (happends : t.Appends clause text params params') :
      Optionally kind [clause] text params params'

/-- What an insert or update assigns: columns of the schema that are not generated, all different,
with the texts of their values. They are those of the fields in their order, or all there are. -/
structure Assigns (row : Record t.schema) (fields : Option (List String))
    (columns : List t.schema.Index) (values : List (String × String)) (params : List Parameter) :
    Prop where
  all : fields = none →
    columns = t.schema.indices.filter fun i => !(t.schema.column i).isAutoincrement
  fields : ∀ names, fields = some names →
    columns ≠ [] ∧ columns.map (fun i => (t.schema.column i).field) = names
  writable : ∀ i ∈ columns, (t.schema.column i).isAutoincrement = false
  names : values.map Prod.fst = columns.map fun i => (t.schema.column i).name
  nodup : (values.map Prod.fst).Nodup
  values : t.encodeColumns row columns = .ok (values, params)

/-- The clauses of a query in their order, with what they add. Groups are filtered only if there
are any. -/
inductive QueryClauses : List Clause → String → List Parameter → List Parameter → Prop
  | intro {filter groupBy havings orderBy limit : List Clause}
      {condition groups having order window : String}
      {params params₁ params₂ params₃ params₄ params' : List Parameter}
      (hfilter : t.Optionally .filter filter condition params params₁)
      (hgroupBy : t.Optionally .groupBy groupBy groups params₁ params₂)
      (hhaving : t.Optionally .having havings having params₂ params₃)
      (hgrouped : havings ≠ [] → groupBy ≠ [])
      (horderBy : t.Optionally .orderBy orderBy order params₃ params₄)
      (hlimit : t.Optionally .limit limit window params₄ params') :
      QueryClauses (filter ++ groupBy ++ havings ++ orderBy ++ limit)
        (condition ++ groups ++ having ++ order ++ window) params params'

/-- The sentences of commands, with the calls they stand for and the parameters they add. -/
inductive Sentence (row : Record t.schema) :
    Entry → List Clause → String → List Parameter → Prop
  | select {fields : Option (List String)} {projection text : String} {clauses : List Clause}
      {params : List Parameter} (hprojection : t.Projection fields projection)
      (hclauses : t.QueryClauses clauses text [] params) :
      Sentence row (.select fields) clauses
        ("SELECT " ++ projection ++ " FROM " ++ t.schema.table ++ text) params
  | selectDistinct {fields : Option (List String)} {projection text : String}
      {clauses : List Clause} {params : List Parameter}
      (hprojection : t.Projection fields projection)
      (hclauses : t.QueryClauses clauses text [] params) :
      Sentence row (.select fields) (.distinct :: clauses)
        ("SELECT DISTINCT " ++ projection ++ " FROM " ++ t.schema.table ++ text) params
  | count {filter : List Clause} {condition : String} {params : List Parameter}
      (hfilter : t.Optionally .filter filter condition [] params) :
      Sentence row .count filter ("SELECT COUNT(*) FROM " ++ t.schema.table ++ condition) params
  | insert {verb : InsertVerb} {fields : Option (List String)} {columns : List t.schema.Index}
      {values : List (String × String)} {params : List Parameter}
      (hassigns : t.Assigns row fields columns values params) (hne : columns ≠ []) :
      Sentence row (.insert verb fields) []
        (verb.keyword ++ " INTO " ++ t.schema.table ++ " (" ++
          ", ".intercalate (values.map Prod.fst) ++ ") VALUES (" ++
          ", ".intercalate (values.map Prod.snd) ++ ")") params
  | insertDefault {verb : InsertVerb} {fields : Option (List String)}
      (hassigns : t.Assigns row fields [] [] []) :
      Sentence row (.insert verb fields) []
        (verb.keyword ++ " INTO " ++ t.schema.table ++ " DEFAULT VALUES") []
  | update {fields : Option (List String)} {columns : List t.schema.Index}
      {values : List (String × String)} {filter : List Clause} {condition : String}
      {params params' : List Parameter} (hassigns : t.Assigns row fields columns values params)
      (hne : columns ≠ []) (hfilter : t.Optionally .filter filter condition params params') :
      Sentence row (.update fields) filter
        ("UPDATE " ++ t.schema.table ++ " SET " ++
          ", ".intercalate (values.map fun v => v.1 ++ " = " ++ v.2) ++ condition) params'
  | delete {filter : List Clause} {condition : String} {params : List Parameter}
      (hfilter : t.Optionally .filter filter condition [] params) :
      Sentence row .delete filter ("DELETE FROM " ++ t.schema.table ++ condition) params

/-! ### Paths through the stages -/

/-- The clauses that may follow at a stage, one after the other, with what they add. -/
inductive Continues : Stage → List Clause → String → List Parameter → List Parameter → Prop
  | done {stage : Stage} {params : List Parameter} : Continues stage [] "" params params
  | step {stage stage' : Stage} {clause : Clause} {clauses : List Clause} {text rest : String}
      {params params₁ params' : List Parameter} (hnext : stage.next? clause.kind = some stage')
      (happends : t.Appends clause text params params₁)
      (hrest : Continues stage' clauses rest params₁ params') :
      Continues stage (clause :: clauses) (text ++ rest) params params'

variable {t}
variable {clauses : List Clause} {text : String} {params params' : List Parameter}
variable {stage : Stage}

/-- What follows at a stage does not begin with a clause of a kind, or it does. -/
theorem Continues.peel (h : t.Continues stage clauses text params params') (kind : ClauseKind)
    (skip hit : Stage) (hskip : ∀ k ≠ kind, stage.next? k = skip.next? k)
    (hhit : stage.next? kind = some hit) :
    t.Continues skip clauses text params params' ∨
      ∃ clause rest first last params₁, clauses = clause :: rest ∧ text = first ++ last ∧
        clause.kind = kind ∧ t.Appends clause first params params₁ ∧
        t.Continues hit rest last params₁ params' := by
  cases h with
  | done => exact .inl .done
  | @step _ _ clause _ _ _ _ _ _ hnext happends hrest =>
    by_cases hkind : clause.kind = kind
    · rw [hkind, hhit] at hnext
      cases hnext
      exact .inr ⟨_, _, _, _, _, rfl, rfl, hkind, happends, hrest⟩
    · rw [hskip _ hkind] at hnext
      exact .inl (.step hnext happends hrest)

/-- What follows at a stage is perhaps a clause of a kind, and then what follows at the next. -/
theorem Continues.optionally (h : t.Continues stage clauses text params params')
    (kind : ClauseKind) (hit : Stage) (hskip : ∀ k ≠ kind, stage.next? k = hit.next? k)
    (hhit : stage.next? kind = some hit) :
    ∃ first rest before after params₁, clauses = first ++ rest ∧ text = before ++ after ∧
      t.Optionally kind first before params params₁ ∧
      t.Continues hit rest after params₁ params' := by
  rcases h.peel kind hit hit hskip hhit with
    h | ⟨clause, rest, before, after, params₁, rfl, rfl, hkind, ha, hr⟩
  · exact ⟨[], clauses, "", text, params, rfl, (String.empty_append).symm, .none, h⟩
  · exact ⟨[clause], rest, before, after, params₁, rfl, rfl, .some hkind ha, hr⟩

/-- Nothing follows at a stage that allows no clause. -/
theorem Continues.nil (h : t.Continues stage clauses text params params')
    (hstop : ∀ k, stage.next? k = none) : clauses = [] ∧ text = "" ∧ params' = params := by
  cases h with
  | done => exact ⟨rfl, rfl, rfl⟩
  | step hnext _ _ =>
    rw [hstop] at hnext
    cases hnext

/-- What follows at a stage that allows a clause of one kind and then nothing. -/
theorem Continues.single (h : t.Continues stage clauses text params params')
    (kind : ClauseKind) (hit : Stage) (hskip : ∀ k ≠ kind, stage.next? k = hit.next? k)
    (hhit : stage.next? kind = some hit)
    (hstop : ∀ k, hit.next? k = none) : t.Optionally kind clauses text params params' := by
  obtain ⟨first, rest, before, after, _, rfl, rfl, hfirst, hrest⟩ :=
    h.optionally kind hit hskip hhit
  obtain ⟨rfl, rfl, rfl⟩ := hrest.nil hstop
  rwa [List.append_nil, String.append_empty]

/-- `DISTINCT` adds nothing to the end of a command. -/
theorem Appends.ne_distinct {clause : Clause} (h : t.Appends clause text params params') :
    clause.kind ≠ .distinct := by
  cases h <;> exact nofun

/-- What follows after `SELECT` may follow after `SELECT DISTINCT`. -/
theorem Continues.of_select (h : t.Continues .select clauses text params params') :
    t.Continues .distinct clauses text params params' := by
  rcases h.peel .distinct .distinct .distinct (by decide) rfl with
    h | ⟨clause, _, _, _, _, -, -, hkind, happends, -⟩
  · exact h
  · exact absurd hkind happends.ne_distinct

/-- **What follows after `SELECT` and its columns are the clauses of a query**, in their order. -/
theorem Continues.queryClauses (h : t.Continues .distinct clauses text params params') :
    t.QueryClauses clauses text params params' := by
  -- the end of a query is the same whether it is grouped or not
  have hend : ∀ {clauses text params}, t.Continues .having clauses text params params' →
      ∃ orderBy limit order window params₁, clauses = orderBy ++ limit ∧ text = order ++ window ∧
        t.Optionally .orderBy orderBy order params params₁ ∧
        t.Optionally .limit limit window params₁ params' := by
    intro clauses text params h
    obtain ⟨orderBy, limit, order, window, _, rfl, rfl, horder, h⟩ :=
      h.optionally .orderBy .orderBy (by decide) rfl
    exact ⟨orderBy, limit, order, window, _, rfl, rfl, horder,
      h.single .limit .limit (by decide) rfl (by decide)⟩
  obtain ⟨filter, rest, condition, after, _, rfl, rfl, hfilter, h⟩ :=
    h.optionally .filter .queryFiltered (by decide) rfl
  rcases h.peel .groupBy .having .groupBy (by decide) rfl with
    h | ⟨clause, rest, groups, after, _, rfl, rfl, hkind, hgroupBy, h⟩
  · obtain ⟨orderBy, limit, order, window, _, rfl, rfl, horder, hlimit⟩ := hend h
    have hclauses := QueryClauses.intro hfilter .none .none (fun h => h) horder hlimit
    simpa [String.append_assoc] using hclauses
  · obtain ⟨havings, rest, having, after, _, rfl, rfl, hhaving, h⟩ :=
      h.optionally .having .having (by decide) rfl
    obtain ⟨orderBy, limit, order, window, _, rfl, rfl, horder, hlimit⟩ := hend h
    have hclauses := QueryClauses.intro hfilter (.some hkind hgroupBy) hhaving
      (fun _ => List.cons_ne_nil _ _) horder hlimit
    simpa [String.append_assoc] using hclauses

end Table

/-! ### Texts of clauses -/

theorem conditionText_none (keyword : String) : conditionText keyword none = "" := rfl

theorem conditionText_where (text : String) :
    conditionText "WHERE" (some text) = " WHERE " ++ text :=
  congrArg (· ++ text) (by decide : " " ++ "WHERE" ++ " " = " WHERE ")

theorem conditionText_having (text : String) :
    conditionText "HAVING" (some text) = " HAVING " ++ text :=
  congrArg (· ++ text) (by decide : " " ++ "HAVING" ++ " " = " HAVING ")

theorem append_where (before text : String) :
    before ++ conditionText "WHERE" (some text) =
      before ++ conditionText "WHERE" none ++ (" WHERE " ++ text) := by
  rw [conditionText_where, conditionText_none, String.append_empty]

namespace Query

/-- The text of a query before its clauses. -/
def headText (distinct : Bool) (columns : Option (List String)) (table : String) : String :=
  "SELECT " ++ (if distinct then "DISTINCT " else "") ++ (columns.elim "*" commaList) ++
    " FROM " ++ table

/-- The text of a query, part by part in the order of the grammar. -/
theorem text_eq (q : Query) :
    q.text = headText q.distinct q.columns q.table ++ conditionText "WHERE" q.condition ++
      clauseText Grouping.text q.grouping ++ clauseText orderingText q.ordering ++
      clauseText windowText q.window := rfl

theorem text_plain (table : String) (columns : Option (List String)) :
    (plain table columns).text = "SELECT " ++ columns.elim "*" commaList ++ " FROM " ++ table := by
  rw [text_eq]
  simp only [plain, conditionText_none, clauseText, String.append_empty]
  rw [headText, if_neg Bool.false_ne_true, String.append_empty]

theorem text_distinct (table : String) (columns : Option (List String)) :
    ({ plain table columns with distinct := true } : Query).text =
      "SELECT DISTINCT " ++ columns.elim "*" commaList ++ " FROM " ++ table := by
  have hdistinct : "SELECT " ++ "DISTINCT " = "SELECT DISTINCT " := by decide
  rw [text_eq]
  simp only [plain, conditionText_none, clauseText, String.append_empty]
  rw [headText, if_pos rfl, hdistinct]

theorem orderingText_asc (columns : List String) :
    orderingText (columns, .asc) = " ORDER BY " ++ commaList columns ++ " ASC" := by
  rw [orderingText, String.append_assoc]
  exact congrArg _ (by decide : " " ++ "ASC" = " ASC")

theorem orderingText_desc (columns : List String) :
    orderingText (columns, .desc) = " ORDER BY " ++ commaList columns ++ " DESC" := by
  rw [orderingText, String.append_assoc]
  exact congrArg _ (by decide : " " ++ "DESC" = " DESC")

theorem windowText_zero (count : Nat) : windowText (count, 0) = " LIMIT " ++ natText count :=
  String.append_empty

theorem windowText_pos {count offset : Nat} (h : 0 < offset) :
    windowText (count, offset) =
      " LIMIT " ++ natText count ++ " OFFSET " ++ natText offset := by
  rw [windowText, if_neg h.ne', ← String.append_assoc]

end Query

namespace Command

variable {table : String} {params : List Parameter}

theorem sql_query (q : Query) : (Command.mk (.query q) params).sql = q.text := rfl

theorem sql_count :
    (Command.mk (.count table none) params).sql = "SELECT COUNT(*) FROM " ++ table :=
  String.append_empty

theorem sql_delete :
    (Command.mk (.delete table none) params).sql = "DELETE FROM " ++ table :=
  String.append_empty

theorem sql_update (values : List (String × String)) :
    (Command.mk (.update table values none) params).sql =
      "UPDATE " ++ table ++ " SET " ++
        ", ".intercalate (values.map fun v => v.1 ++ " = " ++ v.2) :=
  String.append_empty

/-- The text of an insert with columns. -/
theorem sql_insert (verb : InsertVerb) {values : List (String × String)} (h : values ≠ []) :
    (Command.mk (.insert verb table values) params).sql =
      verb.keyword ++ " INTO " ++ table ++ " (" ++ ", ".intercalate (values.map Prod.fst) ++
        ") VALUES (" ++ ", ".intercalate (values.map Prod.snd) ++ ")" := by
  cases values with
  | nil => exact absurd rfl h
  | cons v values => rfl

end Command

/-! ### Steps -/

/-- The stage of a query after a clause. -/
def ClauseKind.queryStage : ClauseKind → Stage
  | distinct => .distinct
  | filter => .queryFiltered
  | groupBy => .groupBy
  | having => .having
  | orderBy => .orderBy
  | limit => .limit

namespace Stage

/-- Only the first stage of a query allows `DISTINCT`. -/
theorem eq_select_of_next? {stage stage' : Stage} (h : stage.next? .distinct = some stage') :
    stage = .select := by
  cases stage <;> first | rfl | cases h

/-- No clause leads back to the first stage of a query. -/
theorem ne_select_of_next? {stage stage' : Stage} {kind : ClauseKind}
    (h : stage.next? kind = some stage') : stage' ≠ .select := by
  rintro rfl
  cases stage <;> cases kind <;> cases h

end Stage

namespace Query

variable {q : Query} {kind : ClauseKind}

theorem isQuery_stage (q : Query) : q.stage.isQuery = true := by
  rcases q.stage_cases with hs | hs | ⟨hs, -⟩ | ⟨hs, -⟩ | ⟨hs, -⟩ | ⟨hs | hs, -⟩ <;> rw [hs] <;> rfl

/-- The clause that a query allows decides the stage after it. -/
theorem next?_eq (h : (q.stage.next? kind).isSome) :
    q.stage.next? kind = some kind.queryStage := by
  have hquery := q.isQuery_stage
  revert h hquery
  generalize q.stage = stage
  cases stage <;> cases kind <;> simp [Stage.next?, Stage.isQuery, ClauseKind.queryStage]

/-- A query that allows a clause has no window, and an ordering only if the clause is a window. -/
theorem of_next? (h : (q.stage.next? kind).isSome) :
    q.window = none ∧ (kind ≠ .limit → q.ordering = none) := by
  rw [stage.eq_def] at h
  cases hwindow : q.window with
  | some w =>
    rw [hwindow] at h
    cases kind <;> cases h
  | none =>
    refine ⟨rfl, fun hkind => ?_⟩
    cases hordering : q.ordering with
    | some o =>
      rw [hwindow, hordering] at h
      cases kind <;> first | exact absurd rfl hkind | cases h
    | none => rfl

/-- Only a query without any clause becomes `DISTINCT`. -/
theorem of_next?_distinct (h : (q.stage.next? .distinct).isSome) :
    q = .plain q.table q.columns := by
  have hselect : q.stage = .select := Stage.eq_select_of_next? (next?_eq h)
  obtain ⟨hwindow, hordering⟩ := of_next? h
  rcases q.stage_cases with hs | hs | ⟨hs, -⟩ | ⟨hs, -⟩ | ⟨hs, -⟩ | ⟨-, hgrouping, hnone⟩
  case inr.inr.inr.inr.inr =>
    rcases q with ⟨_ | _, columns, table, condition, grouping, ordering, window⟩
    · cases hwindow; cases hordering nofun; cases hgrouping; cases hnone
      rfl
    · cases hwindow; cases hordering nofun; cases hgrouping; cases hnone
      cases hselect
  all_goals rw [hs] at hselect; cases hselect

end Query

namespace Table

variable {t : Table} {c c' : Command} {clause : Clause}

/-- A clause extends a command only where the stages let it. -/
theorem isSome_of_extend (h : t.extend c clause = .ok c') :
    (c.stage.next? clause.kind).isSome := by
  rw [extend] at h
  split at h
  next => cases h
  next hnext =>
    rw [hnext]
    rfl

/-- **A clause leads to the next stage.** -/
theorem stage_extend (h : t.extend c clause = .ok c') :
    c.stage.next? clause.kind = some c'.stage := by
  have hsome := isSome_of_extend h
  cases extend_eq_ok h with
  | filterCount | filterUpdate | filterDelete => rfl
  | distinct =>
    rw [Query.of_next?_distinct hsome]
    rfl
  | filterQuery _ _ hgrouping =>
    obtain ⟨hwindow, hordering⟩ := Query.of_next? hsome
    refine (Query.next?_eq hsome).trans ?_
    simp only [Command.stage, Query.stage, hwindow, hordering nofun, hgrouping]
    rfl
  | groupBy _ hgrouping =>
    obtain ⟨hwindow, hordering⟩ := Query.of_next? hsome
    refine (Query.next?_eq hsome).trans ?_
    simp only [Command.stage, Query.stage, hwindow, hordering nofun]
    rfl
  | having _ hgrouping =>
    obtain ⟨hwindow, hordering⟩ := Query.of_next? hsome
    refine (Query.next?_eq hsome).trans ?_
    simp only [Command.stage, Query.stage, hwindow, hordering nofun]
    rfl
  | orderBy =>
    obtain ⟨hwindow, -⟩ := Query.of_next? hsome
    refine (Query.next?_eq hsome).trans ?_
    simp only [Command.stage, Query.stage, hwindow]
    rfl
  | limit => exact Query.next?_eq hsome

/-- The names of the columns of fields list them. -/
theorem lists_of_columnNames (hs : t.schema.WellFormed) {fields names : List String}
    (h : t.columnNames fields = .ok names) : t.Lists fields (commaList names) := by
  obtain ⟨columns, hcolumns, rfl⟩ := columnNames_eq_ok h
  obtain ⟨hnodup, hne, hfields⟩ := Schema.resolve_spec hcolumns
  exact ⟨columns, hne, hfields, hnodup.map hs.name_injective, rfl⟩

/-- **A clause only adds to the end of a command**, unless it is `DISTINCT`. -/
theorem extend_appends (hs : t.schema.WellFormed) (hclause : clause ≠ .distinct)
    (h : t.extend c clause = .ok c') :
    ∃ text, t.Appends clause text c.params c'.params ∧ c'.sql = c.sql ++ text := by
  have hsome := isSome_of_extend h
  cases extend_eq_ok h with
  | distinct => exact absurd rfl hclause
  | filterCount hcondition | filterUpdate hcondition | filterDelete hcondition =>
    exact ⟨_, .filter (condition_eq_ok hcondition), append_where _ _⟩
  | filterQuery hcondition hnone hgrouping =>
    obtain ⟨hwindow, hordering⟩ := Query.of_next? hsome
    refine ⟨_, .filter (condition_eq_ok hcondition), ?_⟩
    simp only [Command.sql_query, Query.text_eq, hnone, hgrouping, hwindow, hordering nofun,
      conditionText_where, conditionText_none, Query.clauseText, String.append_empty]
  | groupBy hnames hgrouping =>
    obtain ⟨hwindow, hordering⟩ := Query.of_next? hsome
    refine ⟨_, .groupBy (lists_of_columnNames hs hnames), ?_⟩
    simp only [Command.sql_query, Query.text_eq, hgrouping, hwindow, hordering nofun,
      Grouping.text, conditionText_none, Query.clauseText, String.append_empty]
  | having hcondition hgrouping =>
    obtain ⟨hwindow, hordering⟩ := Query.of_next? hsome
    refine ⟨_, .having (condition_eq_ok hcondition), ?_⟩
    simp only [Command.sql_query, Query.text_eq, hgrouping, hwindow, hordering nofun,
      Grouping.text, conditionText_having, conditionText_none, Query.clauseText,
      String.append_empty, String.append_assoc]
  | @orderBy _ _ direction _ _ hnames =>
    obtain ⟨hwindow, hordering⟩ := Query.of_next? hsome
    have hlist := lists_of_columnNames hs hnames
    cases direction
    case asc =>
      refine ⟨_, .ascending hlist, ?_⟩
      simp only [Command.sql_query, Query.text_eq, hwindow, hordering nofun, Query.clauseText,
        Query.orderingText_asc, String.append_empty]
    case desc =>
      refine ⟨_, .descending hlist, ?_⟩
      simp only [Command.sql_query, Query.text_eq, hwindow, hordering nofun, Query.clauseText,
        Query.orderingText_desc, String.append_empty]
  | @limit count offset _ _ =>
    obtain ⟨hwindow, -⟩ := Query.of_next? hsome
    rcases Nat.eq_zero_or_pos offset with rfl | hoffset
    · refine ⟨_, .limit, ?_⟩
      simp only [Command.sql_query, Query.text_eq, hwindow, Query.clauseText,
        Query.windowText_zero, String.append_empty]
    · refine ⟨_, .offset hoffset, ?_⟩
      simp only [Command.sql_query, Query.text_eq, hwindow, Query.clauseText,
        Query.windowText_pos hoffset, String.append_empty]

/-! ### Runs -/

/-- **Clauses write a path through the stages**, if none of them is `DISTINCT`, which only the first
can be. -/
theorem continues_of_foldlM (hs : t.schema.WellFormed) {clauses : List Clause}
    (hfirst : c.stage = .select → clauses.head? ≠ some .distinct)
    (h : clauses.foldlM t.extend c = .ok c') :
    ∃ text, t.Continues c.stage clauses text c.params c'.params ∧ c'.sql = c.sql ++ text := by
  induction clauses generalizing c with
  | nil =>
    cases h
    exact ⟨"", .done, String.append_empty.symm⟩
  | cons clause clauses ih =>
    rw [List.foldlM_cons] at h
    obtain ⟨c₁, hstep, hrun⟩ := bind_eq_ok h
    have hnext := stage_extend hstep
    have hclause : clause ≠ .distinct := by
      rintro rfl
      exact hfirst (Stage.eq_select_of_next? hnext) rfl
    obtain ⟨first, happends, hsql⟩ := extend_appends hs hclause hstep
    obtain ⟨rest, hcontinues, hrest⟩ :=
      ih (fun hselect => absurd hselect (Stage.ne_select_of_next? hnext)) hrun
    exact ⟨first ++ rest, .step hnext happends hcontinues, by
      rw [hrest, hsql, String.append_assoc]⟩

/-- What a beginning encodes is an assignment. -/
theorem assigns_of_encodeColumns (hs : t.schema.WellFormed) {row : Record t.schema}
    {fields : Option (List String)} {columns : List t.schema.Index}
    {values : List (String × String)} {params : List Parameter}
    (hcolumns : t.schema.writable fields = .ok columns)
    (hvalues : t.encodeColumns row columns = .ok (values, params)) :
    t.Assigns row fields columns values params := by
  obtain ⟨hnodup, hwritable, hall, hfields⟩ := Schema.writable_spec hcolumns
  have hnames : values.map Prod.fst = columns.map fun i => (t.schema.column i).name := by
    obtain ⟨ps, rfl, -, rfl, -⟩ := encodeColumns_eq_ok hvalues
    simp
  refine ⟨hall, hfields, hwritable, hnames, ?_, hvalues⟩
  rw [hnames]
  exact hnodup.map hs.name_injective

/-- A query begins with the text of its columns. -/
theorem Starts.projection (hs : t.schema.WellFormed) {row : Record t.schema}
    {fields : Option (List String)} {c : Command} (h : t.Starts row (.select fields) c) :
    ∃ columns, c = ⟨.query (.plain t.schema.table columns), []⟩ ∧
      t.Projection fields (columns.elim "*" commaList) := by
  cases h with
  | all => exact ⟨none, rfl, .all⟩
  | select hnames => exact ⟨_, rfl, .columns (lists_of_columnNames hs hnames)⟩

/-- A command that takes one filter and nothing else goes on with a filter or ends. -/
theorem filtered_of_foldlM (hs : t.schema.WellFormed) {clauses : List Clause} (stage hit : Stage)
    (hstage : c.stage = stage) (hselect : stage ≠ .select)
    (hskip : ∀ k ≠ .filter, stage.next? k = hit.next? k)
    (hhit : stage.next? .filter = some hit) (hstop : ∀ k, hit.next? k = none)
    (h : clauses.foldlM t.extend c = .ok c') :
    ∃ text, t.Optionally .filter clauses text c.params c'.params ∧ c'.sql = c.sql ++ text := by
  subst hstage
  obtain ⟨text, hcontinues, hsql⟩ := continues_of_foldlM hs (fun h => absurd h hselect) h
  exact ⟨text, hcontinues.single .filter hit hskip hhit hstop, hsql⟩

/-- A query and its clauses make the sentence of a query: the run from its first text. -/
theorem Starts.sentence_select (hs : t.schema.WellFormed) {row : Record t.schema}
    {fields : Option (List String)} {clauses : List Clause}
    (hstart : t.Starts row (.select fields) c) (hrun : clauses.foldlM t.extend c = .ok c') :
    t.Sentence row (.select fields) clauses c'.sql c'.params := by
  obtain ⟨columns, rfl, hprojection⟩ := hstart.projection hs
  by_cases hdistinct : clauses.head? = some .distinct
  · obtain ⟨clauses, rfl⟩ : ∃ rest, clauses = .distinct :: rest :=
      ⟨clauses.tail, (List.cons_head?_tail hdistinct).symm⟩
    obtain ⟨text, hcontinues, hsql⟩ := continues_of_foldlM hs
      (c := ⟨.query { Query.plain t.schema.table columns with distinct := true }, []⟩)
      (fun h => by cases h) hrun
    rw [hsql, Command.sql_query, Query.text_distinct]
    exact .selectDistinct hprojection (Continues.queryClauses hcontinues)
  · obtain ⟨text, hcontinues, hsql⟩ := continues_of_foldlM hs (fun _ => hdistinct) hrun
    rw [hsql, Command.sql_query, Query.text_plain]
    exact .select hprojection hcontinues.of_select.queryClauses

/-- An insert is a sentence as it stands, since no clause extends it. -/
theorem Starts.sentence_insert (hs : t.schema.WellFormed) {row : Record t.schema}
    {verb : InsertVerb} {fields : Option (List String)} {clauses : List Clause}
    (hstart : t.Starts row (.insert verb fields) c) (hrun : clauses.foldlM t.extend c = .ok c') :
    t.Sentence row (.insert verb fields) clauses c'.sql c'.params := by
  cases hstart with
  | @insert _ _ columns values _ hcolumns hvalues =>
  have hassigns := assigns_of_encodeColumns hs hcolumns hvalues
  obtain ⟨text, hcontinues, hsql⟩ := continues_of_foldlM hs (fun h => by cases h) hrun
  replace hcontinues : t.Continues .insert clauses text _ c'.params := hcontinues
  obtain ⟨rfl, rfl, hparams⟩ := hcontinues.nil (by decide)
  rw [hsql, hparams, String.append_empty]
  cases columns with
  | nil =>
    cases hvalues
    exact .insertDefault hassigns
  | cons i columns =>
    have hne : values ≠ [] := by
      rintro rfl
      cases hassigns.names
    rw [Command.sql_insert verb hne]
    exact .insert hassigns (List.cons_ne_nil _ _)

/-- **A command that is built is one sentence of the grammar**, with a clause for each call, in its
place, and with the columns and conditions that the calls were given. -/
theorem build_sentence {d : Declaration} {s : Schema} {mode : BindMode} {row : Record s}
    {entry : Entry} {clauses : List Clause} {c : Command} (hbuild : d.build = .ok s)
    (h : (Table.mk s mode).build row entry clauses = .ok c) :
    (Table.mk s mode).Sentence row entry clauses c.sql c.params := by
  have hs := d.build_wellFormed hbuild
  obtain ⟨c₀, hstart, hrun⟩ := build_eq_ok h
  cases entry with
  | select fields => exact hstart.sentence_select hs hrun
  | insert verb fields => exact hstart.sentence_insert hs hrun
  | count =>
    cases hstart
    obtain ⟨text, hfilter, hsql⟩ :=
      filtered_of_foldlM hs .count .countFiltered rfl nofun (by decide) rfl (by decide) hrun
    rw [hsql, Command.sql_count]
    exact .count hfilter
  | delete =>
    cases hstart
    obtain ⟨text, hfilter, hsql⟩ :=
      filtered_of_foldlM hs .delete .changeFiltered rfl nofun (by decide) rfl (by decide) hrun
    rw [hsql, Command.sql_delete]
    exact .delete hfilter
  | update fields =>
    cases hstart with
    | update hne hcolumns hvalues =>
    obtain ⟨text, hfilter, hsql⟩ :=
      filtered_of_foldlM hs .update .changeFiltered rfl nofun (by decide) rfl (by decide) hrun
    rw [hsql, Command.sql_update]
    exact .update (assigns_of_encodeColumns hs hcolumns hvalues) hne hfilter

/-- A chain with every clause there is for a query of notes. -/
def everyClause : List Clause :=
  [.distinct, .filter (.binary .gt (.column "key") (.literal (.integer ⟨5, by decide, by decide⟩))),
    .groupBy ["title"],
    .having (.binary .gt (.aggregate .count none) (.literal (.integer ⟨2, by decide, by decide⟩))),
    .orderBy ["title"] .desc, .limit 10 20]

/-- A query with every clause there is. -/
theorem build_sentence_notes :
    ∃ params, (Table.mk .notes .parameters).Sentence (.default .notes)
      (.select (some ["title", "weight"])) everyClause
      ("SELECT DISTINCT title, weight FROM notes WHERE id > :p1 GROUP BY title" ++
        " HAVING COUNT(*) > :p2 ORDER BY title DESC LIMIT 10 OFFSET 20") params := by
  let query : Query := ⟨true, some ["title", "weight"], "notes", some "id > :p1",
    some ⟨["title"], some "COUNT(*) > :p2"⟩, some (["title"], .desc), some (10, 20)⟩
  have hbuild : (Table.mk .notes .parameters).build (.default .notes)
      (.select (some ["title", "weight"])) everyClause =
      .ok ⟨.query query, [⟨":p1", .integer ⟨5, by decide, by decide⟩⟩,
        ⟨":p2", .integer ⟨2, by decide, by decide⟩⟩]⟩ := by
    decide +kernel
  have hsql : query.text = "SELECT DISTINCT title, weight FROM notes WHERE id > :p1 GROUP BY title"
      ++ " HAVING COUNT(*) > :p2 ORDER BY title DESC LIMIT 10 OFFSET 20" := by
    decide +kernel
  have hsentence := build_sentence Schema.build_notes hbuild
  rw [Command.sql_query, hsql] at hsentence
  exact ⟨_, hsentence⟩

end Table

end SqlRecord
