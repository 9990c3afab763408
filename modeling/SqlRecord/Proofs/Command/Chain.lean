import SqlRecord.Command.Build
import Mathlib

/-!
# Chains of builder calls

What beginning a command can give (`Table.Starts`) and what a clause does to one
(`Table.Extends`), for the calls that succeed. A property that a beginning has and that clauses
keep is one of every command that is built (`Table.build_induction`), and likewise for two commands
built by related calls (`Table.build_induction₂`).
-/

namespace SqlRecord

namespace Table

variable (t : Table)

/-! ### Beginning -/

/-- What a beginning that succeeds gives. -/
inductive Starts (row : Record t.schema) : Entry → Command → Prop
  | insert {verb : InsertVerb} {fields : Option (List String)} {columns : List t.schema.Index}
      {values : List (String × String)} {params : List Parameter}
      (hcolumns : t.schema.writable fields = .ok columns)
      (hvalues : t.encodeColumns row columns = .ok (values, params)) :
      Starts row (.insert verb fields) ⟨.insert verb t.schema.table values, params⟩
  | all : Starts row (.select none) ⟨.query (.plain t.schema.table none), []⟩
  | select {fields names : List String} (hnames : t.columnNames fields = .ok names) :
      Starts row (.select (some fields)) ⟨.query (.plain t.schema.table (some names)), []⟩
  | count : Starts row .count ⟨.count t.schema.table none, []⟩
  | update {fields : Option (List String)} {columns : List t.schema.Index}
      {values : List (String × String)} {params : List Parameter} (hne : columns ≠ [])
      (hcolumns : t.schema.writable fields = .ok columns)
      (hvalues : t.encodeColumns row columns = .ok (values, params)) :
      Starts row (.update fields) ⟨.update t.schema.table values none, params⟩
  | delete : Starts row .delete ⟨.delete t.schema.table none, []⟩

variable {t}

theorem assignable_eq_ok {fields : Option (List String)} {columns : List t.schema.Index}
    (h : t.assignable fields = .ok columns) : t.schema.writable fields = .ok columns := by
  rw [assignable] at h
  split at h
  next hcolumns => cases h; exact hcolumns
  next => cases h

/-- The names that a query lists are those of the columns its fields resolve to. -/
theorem columnNames_eq_ok {fields names : List String} (h : t.columnNames fields = .ok names) :
    ∃ columns, t.schema.resolve fields = .ok columns ∧
      names = columns.map fun i => (t.schema.column i).name := by
  rw [columnNames] at h
  split at h
  next columns hcolumns => cases h; exact ⟨columns, hcolumns, rfl⟩
  next => cases h

/-- A composition that succeeds has two steps that succeed. -/
theorem bind_eq_ok {ε α β : Type} {m : Except ε α} {f : α → Except ε β} {b : β}
    (h : m >>= f = .ok b) : ∃ a, m = .ok a ∧ f a = .ok b := by
  cases m with
  | error e => cases h
  | ok a => exact ⟨a, rfl, h⟩

/-- **A beginning that succeeds is one of those listed.** -/
theorem start_eq_ok {row : Record t.schema} {entry : Entry} {c : Command}
    (h : t.start row entry = .ok c) : t.Starts row entry c := by
  cases entry with
  | insert verb fields =>
    obtain ⟨columns, hcolumns, h⟩ := bind_eq_ok h
    obtain ⟨⟨values, params⟩, hvalues, h⟩ := bind_eq_ok h
    cases h
    exact .insert (assignable_eq_ok hcolumns) hvalues
  | select fields =>
    cases fields with
    | none => cases h; exact .all
    | some fields =>
      obtain ⟨names, hnames, h⟩ := bind_eq_ok h
      cases h
      exact .select hnames
  | count => cases h; exact .count
  | update fields =>
    obtain ⟨columns, hcolumns, h⟩ := bind_eq_ok h
    cases columns with
    | nil => cases h
    | cons i columns =>
      obtain ⟨⟨values, params⟩, hvalues, h⟩ := bind_eq_ok h
      cases h
      exact .update (List.cons_ne_nil _ _) (assignable_eq_ok hcolumns) hvalues
  | delete => cases h; exact .delete

/-- The columns of an assignment with their encoded values. -/
theorem encodeColumns_eq_ok {row : Record t.schema} {columns : List t.schema.Index}
    {values : List (String × String)} {params : List Parameter}
    (h : t.encodeColumns row columns = .ok (values, params)) :
    ∃ ps : List (t.schema.Index × Encoded), ps.map Prod.fst = columns ∧
      (∀ p ∈ ps, t.encodeColumn row p.1 = .ok p.2) ∧
      values = ps.map (fun p => ((t.schema.column p.1).name, p.2.sql)) ∧
      params = ps.flatMap fun p => p.2.param.toList.map fun v => ⟨p.2.sql, v⟩ := by
  induction columns generalizing values params with
  | nil =>
    cases h
    exact ⟨[], rfl, by simp, rfl, rfl⟩
  | cons i columns ih =>
    obtain ⟨e, he, h⟩ := bind_eq_ok h
    obtain ⟨⟨values, params⟩, hrest, h⟩ := bind_eq_ok h
    cases h
    obtain ⟨ps, hfst, hps, rfl, rfl⟩ := ih hrest
    exact ⟨(i, e) :: ps, congrArg (i :: ·) hfst, List.forall_mem_cons.mpr ⟨he, hps⟩, rfl, rfl⟩

/-! ### Clauses -/

variable (t) in
/-- What a clause that is allowed and succeeds does to a command. -/
inductive Extends : Clause → Command → Command → Prop
  | distinct {q : Query} {params : List Parameter} :
      Extends .distinct ⟨.query q, params⟩ ⟨.query { q with distinct := true }, params⟩
  | filterQuery {e : Expr} {text : String} {q : Query} {params params' : List Parameter}
      (hcondition : t.condition e params = .ok (text, params')) (hnone : q.condition = none)
      (hgrouping : q.grouping = none) :
      Extends (.filter e) ⟨.query q, params⟩ ⟨.query { q with condition := some text }, params'⟩
  | filterCount {e : Expr} {text table : String} {params params' : List Parameter}
      (hcondition : t.condition e params = .ok (text, params')) :
      Extends (.filter e) ⟨.count table none, params⟩ ⟨.count table (some text), params'⟩
  | filterUpdate {e : Expr} {text table : String} {values : List (String × String)}
      {params params' : List Parameter}
      (hcondition : t.condition e params = .ok (text, params')) :
      Extends (.filter e) ⟨.update table values none, params⟩
        ⟨.update table values (some text), params'⟩
  | filterDelete {e : Expr} {text table : String} {params params' : List Parameter}
      (hcondition : t.condition e params = .ok (text, params')) :
      Extends (.filter e) ⟨.delete table none, params⟩ ⟨.delete table (some text), params'⟩
  | groupBy {fields names : List String} {q : Query} {params : List Parameter}
      (hnames : t.columnNames fields = .ok names) (hgrouping : q.grouping = none) :
      Extends (.groupBy fields) ⟨.query q, params⟩
        ⟨.query { q with grouping := some ⟨names, none⟩ }, params⟩
  | having {e : Expr} {text : String} {q : Query} {columns : List String}
      {params params' : List Parameter}
      (hcondition : t.condition e params = .ok (text, params'))
      (hgrouping : q.grouping = some ⟨columns, none⟩) :
      Extends (.having e) ⟨.query q, params⟩
        ⟨.query { q with grouping := some ⟨columns, some text⟩ }, params'⟩
  | orderBy {fields names : List String} {direction : Direction} {q : Query}
      {params : List Parameter} (hnames : t.columnNames fields = .ok names) :
      Extends (.orderBy fields direction) ⟨.query q, params⟩
        ⟨.query { q with ordering := some (names, direction) }, params⟩
  | limit {count offset : Nat} {q : Query} {params : List Parameter} :
      Extends (.limit count offset) ⟨.query q, params⟩
        ⟨.query { q with window := some (count, offset) }, params⟩

end Table

/-! ### Stages -/

/-- What the stage of a query tells of its parts. -/
theorem Query.stage_cases (q : Query) :
    q.stage = .limit ∨ q.stage = .orderBy ∨
      (q.stage = .having ∧ ∃ names text, q.grouping = some ⟨names, some text⟩) ∨
      (q.stage = .groupBy ∧ ∃ names, q.grouping = some ⟨names, none⟩) ∨
      (q.stage = .queryFiltered ∧ q.grouping = none) ∨
      ((q.stage = .distinct ∨ q.stage = .select) ∧ q.grouping = none ∧ q.condition = none) := by
  rw [stage.eq_def]
  by_cases hwindow : q.window.isSome
  · exact .inl (if_pos hwindow)
  by_cases hordering : q.ordering.isSome
  · exact .inr (.inl (by rw [if_neg hwindow, if_pos hordering]))
  rw [if_neg hwindow, if_neg hordering]
  refine .inr (.inr ?_)
  cases q.grouping with
  | some g =>
    rcases g with ⟨names, _ | text⟩
    · exact .inr (.inl ⟨rfl, names, rfl⟩)
    · exact .inl ⟨rfl, names, text, rfl⟩
  | none =>
    refine .inr (.inr ?_)
    cases q.condition with
    | some text => exact .inl ⟨rfl, rfl⟩
    | none => cases q.distinct <;> simp

namespace Query

variable {q : Query}

/-- A query that may still be filtered has no condition and no grouping. -/
theorem of_next?_filter (h : (q.stage.next? .filter).isSome) :
    q.condition = none ∧ q.grouping = none := by
  rcases q.stage_cases with hs | hs | ⟨hs, -⟩ | ⟨hs, -⟩ | ⟨hs, -⟩ | ⟨-, hgrouping, hnone⟩
  case inr.inr.inr.inr.inr => exact ⟨hnone, hgrouping⟩
  all_goals rw [hs] at h; cases h

/-- A query can be grouped only once. -/
theorem of_next?_groupBy (h : (q.stage.next? .groupBy).isSome) : q.grouping = none := by
  rcases q.stage_cases with hs | hs | ⟨hs, -⟩ | ⟨hs, -⟩ | ⟨-, hgrouping⟩ | ⟨-, hgrouping, -⟩
  case inr.inr.inr.inr.inl | inr.inr.inr.inr.inr => exact hgrouping
  all_goals rw [hs] at h; cases h

/-- A query whose groups may still be filtered has a grouping without a condition. -/
theorem of_next?_having (h : (q.stage.next? .having).isSome) :
    ∃ names, q.grouping = some ⟨names, none⟩ := by
  rcases q.stage_cases with hs | hs | ⟨hs, -⟩ | ⟨-, hgrouping⟩ | ⟨hs, -⟩ | ⟨hs | hs, -⟩
  case inr.inr.inr.inl => exact hgrouping
  all_goals rw [hs] at h; cases h

end Query

/-- Only queries have clauses besides a condition. -/
theorem Command.exists_query {c : Command} {kind : ClauseKind} (hkind : kind ≠ .filter)
    (h : (c.stage.next? kind).isSome) :
    ∃ q, c.body = .query q ∧ (q.stage.next? kind).isSome := by
  rcases c with ⟨_ | q | ⟨table, _ | _⟩ | ⟨table, values, _ | _⟩ | ⟨table, _ | _⟩, params⟩
  case query => exact ⟨q, rfl, h⟩
  all_goals cases kind <;> first | exact absurd rfl hkind | cases h

/-! ### Building -/

namespace Table

variable {t : Table}

/-- The text of a condition is that of its expression, compiled with the command's parameters. -/
theorem condition_eq_ok {e : Expr} {params params' : List Parameter} {text : String}
    (h : t.condition e params = .ok (text, params')) :
    t.schema.compileIn t.mode e params = (.ok text, params') := by
  rw [condition] at h
  split at h
  next hcompile => cases h; exact hcompile
  next => cases h

/-- **A clause that is allowed and succeeds is one of those listed.** -/
theorem extend_eq_ok {c c' : Command} {clause : Clause} (h : t.extend c clause = .ok c') :
    t.Extends clause c c' := by
  rw [extend] at h
  split at h
  next => cases h
  next stage hnext =>
    -- that the stage allows the clause tells which statement this is, and which parts it has
    have hsome : (c.stage.next? clause.kind).isSome := by rw [hnext]; rfl
    have hadd : t.add c clause = .ok c' := by
      cases hadd : t.add c clause with
      | error e => rw [hadd] at h; cases h
      | ok c'' => rw [hadd] at h; cases h; rfl
    clear h hnext
    rcases c with ⟨body, params⟩
    cases clause with
    | distinct =>
      obtain ⟨q, rfl, -⟩ := Command.exists_query (by simp [Clause.kind]) hsome
      cases hadd
      exact .distinct
    | filter e =>
      obtain ⟨⟨text, params'⟩, hcondition, hadd⟩ := bind_eq_ok hadd
      cases hadd
      rcases body with _ | q | ⟨table, _ | _⟩ | ⟨table, values, _ | _⟩ | ⟨table, _ | _⟩
      case query =>
        obtain ⟨hnone, hgrouping⟩ := Query.of_next?_filter hsome
        exact .filterQuery hcondition hnone hgrouping
      case count.none => exact .filterCount hcondition
      case update.none => exact .filterUpdate hcondition
      case delete.none => exact .filterDelete hcondition
      all_goals cases hsome
    | groupBy fields =>
      obtain ⟨q, rfl, hq⟩ := Command.exists_query (by simp [Clause.kind]) hsome
      obtain ⟨names, hnames, hadd⟩ := bind_eq_ok hadd
      cases hadd
      exact .groupBy hnames (Query.of_next?_groupBy hq)
    | having e =>
      obtain ⟨q, rfl, hq⟩ := Command.exists_query (by simp [Clause.kind]) hsome
      obtain ⟨⟨text, params'⟩, hcondition, hadd⟩ := bind_eq_ok hadd
      obtain ⟨names, hgrouping⟩ := Query.of_next?_having hq
      cases hadd
      rw [mapQuery, hgrouping]
      exact .having hcondition hgrouping
    | orderBy fields direction =>
      obtain ⟨q, rfl, -⟩ := Command.exists_query (by simp [Clause.kind]) hsome
      obtain ⟨names, hnames, hadd⟩ := bind_eq_ok hadd
      cases hadd
      exact .orderBy hnames
    | limit count offset =>
      obtain ⟨q, rfl, -⟩ := Command.exists_query (by simp [Clause.kind]) hsome
      cases hadd
      exact .limit

/-- A command is built by an entry that starts it and clauses that extend it one by one. -/
theorem build_eq_ok {row : Record t.schema} {entry : Entry} {clauses : List Clause} {c : Command}
    (h : t.build row entry clauses = .ok c) :
    ∃ c₀, t.Starts row entry c₀ ∧ clauses.foldlM t.extend c₀ = .ok c := by
  obtain ⟨c₀, hstart, h⟩ := bind_eq_ok h
  refine ⟨c₀, start_eq_ok ?_, h⟩
  cases hrun : t.start row entry with
  | error e => rw [hrun] at hstart; cases hstart
  | ok c' => rw [hrun] at hstart; cases hstart; rfl

/-- **What every beginning has and every clause keeps, every command has.** -/
theorem build_induction {row : Record t.schema} {P : Command → Prop}
    (hstart : ∀ {entry c}, t.Starts row entry c → P c)
    (hextend : ∀ {clause c c'}, t.Extends clause c c' → P c → P c')
    {entry : Entry} {clauses : List Clause} {c : Command}
    (h : t.build row entry clauses = .ok c) : P c := by
  obtain ⟨c₀, hc₀, hrun⟩ := build_eq_ok h
  have hP := hstart hc₀
  -- induction on the clauses, for any command before them
  clear hc₀ h
  induction clauses generalizing c₀ with
  | nil => cases hrun; exact hP
  | cons clause clauses ih =>
    rw [List.foldlM_cons] at hrun
    obtain ⟨c₁, hstep, hrun⟩ := bind_eq_ok hrun
    exact ih c₁ hrun (hextend (extend_eq_ok hstep) hP)

/-- What related beginnings have and related clauses keep, two commands built alike have. -/
theorem build_induction₂ {row row' : Record t.schema} {S : Clause → Clause → Prop}
    {P : Command → Command → Prop}
    (hstart : ∀ {entry c c'}, t.Starts row entry c → t.Starts row' entry c' → P c c')
    (hextend : ∀ {clause clause' c c₁ c' c₁'}, S clause clause' → t.Extends clause c c₁ →
      t.Extends clause' c' c₁' → P c c' → P c₁ c₁')
    {entry : Entry} {clauses clauses' : List Clause} {c c' : Command}
    (hclauses : List.Forall₂ S clauses clauses') (h : t.build row entry clauses = .ok c)
    (h' : t.build row' entry clauses' = .ok c') : P c c' := by
  obtain ⟨c₀, hc₀, hrun⟩ := build_eq_ok h
  obtain ⟨c₀', hc₀', hrun'⟩ := build_eq_ok h'
  have hP := hstart hc₀ hc₀'
  -- induction on the pairs of clauses, for any related commands before them
  clear hc₀ hc₀' h h'
  induction hclauses generalizing c₀ c₀' with
  | nil => cases hrun; cases hrun'; exact hP
  | cons hclause _ ih =>
    rw [List.foldlM_cons] at hrun hrun'
    obtain ⟨c₁, hstep, hrun⟩ := bind_eq_ok hrun
    obtain ⟨c₁', hstep', hrun'⟩ := bind_eq_ok hrun'
    exact ih c₁ hrun c₁' hrun' (hextend hclause (extend_eq_ok hstep) (extend_eq_ok hstep') hP)

end Table

end SqlRecord
