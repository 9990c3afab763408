import SqlRecord.Proofs.Command.Sound
import SqlRecord.Proofs.Expr.Alike

/-!
# Commands that differ in texts

Two runs of a chain of builder calls that see related texts (`Table.Observes`) end in statements
that are the same but for these texts (`Table.build_alike`). Equal texts make equal statements
(`CommandBody.Alike.eq`), and texts that read alike statements that read alike
(`CommandBody.Alike.map_mask_tokens`).
-/

namespace SqlRecord

open Sql

/-! ### Statements that differ in texts -/

/-- Whether two lists of assigned columns are the same but for the texts of the values, which are
related in pairs. -/
def AssignedAlike (T : String → String → Prop) : List (String × String) → List (String × String) →
    Prop :=
  List.Forall₂ fun v w => v.1 = w.1 ∧ T v.2 w.2

/-- Whether two queries are the same but for the texts of their conditions, which are related. -/
structure Query.Alike (T : String → String → Prop) (q q' : Query) : Prop where
  distinct : q.distinct = q'.distinct
  columns : q.columns = q'.columns
  table : q.table = q'.table
  condition : q.condition.Rel T q'.condition
  grouping : q.grouping.Rel (fun g g' => g.columns = g'.columns ∧ g.condition.Rel T g'.condition)
    q'.grouping
  ordering : q.ordering = q'.ordering
  window : q.window = q'.window

theorem Query.Alike.plain {T : String → String → Prop} {table : String}
    {columns : Option (List String)} :
    (Query.plain table columns).Alike T (.plain table columns) :=
  ⟨rfl, rfl, rfl, .none, .none, rfl, rfl⟩

/-- Whether two statements are the same but for the texts of their values and conditions, which are
related in pairs. -/
inductive CommandBody.Alike (T : String → String → Prop) : CommandBody → CommandBody → Prop
  | insert {verb : InsertVerb} {table : String} {values values' : List (String × String)}
      (hvalues : AssignedAlike T values values') :
      Alike T (.insert verb table values) (.insert verb table values')
  | query {q q' : Query} (h : q.Alike T q') : Alike T (.query q) (.query q')
  | count {table : String} {condition condition' : Option String}
      (hcondition : condition.Rel T condition') :
      Alike T (.count table condition) (.count table condition')
  | update {table : String} {values values' : List (String × String)}
      {condition condition' : Option String} (hvalues : AssignedAlike T values values')
      (hcondition : condition.Rel T condition') :
      Alike T (.update table values condition) (.update table values' condition')
  | delete {table : String} {condition condition' : Option String}
      (hcondition : condition.Rel T condition') :
      Alike T (.delete table condition) (.delete table condition')

/-- Assignments with equal texts are equal. -/
theorem AssignedAlike.eq {values values' : List (String × String)}
    (h : AssignedAlike Eq values values') : values = values' := by
  induction h with
  | nil => rfl
  | cons hv _ ih => rw [ih, Prod.ext hv.1 hv.2]

theorem eq_of_rel {α : Type} {S : α → α → Prop} (hS : ∀ {a b}, S a b → a = b) {o o' : Option α}
    (h : o.Rel S o') : o = o' := by
  cases h with
  | some h => rw [hS h]
  | none => rfl

/-- Queries with equal texts are equal. -/
theorem Query.Alike.eq {q q' : Query} (h : q.Alike Eq q') : q = q' := by
  have hgrouping : q.grouping = q'.grouping :=
    eq_of_rel (fun {g g'} hg => by
      rcases g with ⟨names, having⟩
      rcases g' with ⟨names', having'⟩
      rw [Grouping.mk.injEq]
      exact ⟨hg.1, eq_of_rel id hg.2⟩) h.grouping
  rcases q with ⟨⟩
  rcases q' with ⟨⟩
  rw [Query.mk.injEq]
  exact ⟨h.distinct, h.columns, h.table, eq_of_rel id h.condition, hgrouping, h.ordering, h.window⟩

/-- Statements whose texts are equal are equal. -/
theorem CommandBody.Alike.eq {b b' : CommandBody} (h : b.Alike Eq b') : b = b' := by
  cases h with
  | insert hvalues => rw [hvalues.eq]
  | query h => rw [h.eq]
  | count hcondition => rw [eq_of_rel id hcondition]
  | update hvalues hcondition => rw [hvalues.eq, eq_of_rel id hcondition]
  | delete hcondition => rw [eq_of_rel id hcondition]

/-! ### Tokens without the content of texts -/

/-- The tokens of a text without the content of texts. -/
def maskedTokens (text : String) : List Token := (textTokens text).map Token.mask

/-- Whether two texts read as the same tokens but for the content of texts. -/
def SameMasked (text text' : String) : Prop := maskedTokens text = maskedTokens text'

/-- Lists whose items have the same tokens up to literals have the same tokens up to literals with
their commas. -/
theorem map_mask_commas {α : Type} {S : α → α → Prop} {g : α → List Token}
    (hg : ∀ {a b}, S a b → (g a).map Token.mask = (g b).map Token.mask) {items items' : List α}
    (h : List.Forall₂ S items items') :
    ([Token.symbol ","].intercalate (items.map g)).map Token.mask =
      ([Token.symbol ","].intercalate (items'.map g)).map Token.mask := by
  induction h with
  | nil => rfl
  | cons hab htail ih =>
    cases htail with
    | nil => simpa using hg hab
    | cons _ _ =>
      simp only [List.map_cons, List.intercalate_cons_cons, List.map_append] at ih ⊢
      rw [hg hab, ih]

/-- Conditions with the same tokens up to literals have that with their keyword too. -/
theorem map_mask_conditionTokens {keyword : String} {condition condition' : Option String}
    (h : condition.Rel SameMasked condition') :
    (conditionTokens keyword condition).map Token.mask =
      (conditionTokens keyword condition').map Token.mask := by
  cases h with
  | some h => exact congrArg (Token.mask (.word keyword) :: ·) h
  | none => rfl

/-- The values of an insert have the same tokens up to literals if each of them does. -/
theorem map_mask_valueTokens {values values' : List (String × String)}
    (h : AssignedAlike SameMasked values values') :
    (CommandBody.valueTokens values).map Token.mask =
      (CommandBody.valueTokens values').map Token.mask :=
  map_mask_commas (fun h => h.2) h

/-- The assignments of an update have the same tokens up to literals if each of them does. -/
theorem map_mask_assignmentTokens {values values' : List (String × String)}
    (h : AssignedAlike SameMasked values values') :
    (CommandBody.assignmentTokens values).map Token.mask =
      (CommandBody.assignmentTokens values').map Token.mask := by
  refine map_mask_commas (fun {v w} hvw => ?_) h
  rw [List.map_cons, List.map_cons, hvw.1]
  exact congrArg (fun ts => Token.mask (.word w.1) :: Token.mask (.symbol "=") :: ts) hvw.2

/-- Assignments that are alike are to the same columns. -/
theorem AssignedAlike.map_fst {T : String → String → Prop} {values values' : List (String × String)}
    (h : AssignedAlike T values values') : values.map (·.1) = values'.map (·.1) := by
  induction h with
  | nil => rfl
  | cons hvw _ ih => rw [List.map_cons, List.map_cons, hvw.1, ih]

/-- Queries with the same texts up to literals have the same tokens up to literals. -/
theorem Query.Alike.map_mask_tokens {q q' : Query} (h : q.Alike SameMasked q') :
    q.tokens.map Token.mask = q'.tokens.map Token.mask := by
  have hgrouping : (q.grouping.elim [] Grouping.tokens).map Token.mask =
      (q'.grouping.elim [] Grouping.tokens).map Token.mask := by
    generalize q.grouping = grouping, q'.grouping = grouping', h.grouping = hg
    cases hg with
    | none => rfl
    | some hg =>
      simp only [Option.elim_some, Grouping.tokens, List.map_cons, List.map_append, hg.1,
        map_mask_conditionTokens hg.2]
  simp only [tokens, frontTokens, List.map_append, List.map_cons, h.distinct, h.columns, h.table,
    map_mask_conditionTokens h.condition, hgrouping, h.ordering, h.window]

/-- Statements whose texts read alike read alike. -/
theorem CommandBody.Alike.map_mask_tokens {b b' : CommandBody} (h : b.Alike SameMasked b') :
    b.tokens.map Token.mask = b'.tokens.map Token.mask := by
  cases h with
  | insert hvalues =>
    have hnames := hvalues.map_fst
    have htexts := map_mask_valueTokens hvalues
    cases hvalues with
    | nil => rfl
    | cons _ _ =>
      simp only [tokens, List.isEmpty_cons, Bool.false_eq_true, if_false, List.map_append,
        List.map_cons (f := Token.mask), hnames, htexts]
  | query h => exact h.map_mask_tokens
  | count hcondition =>
    simp only [tokens, List.map_cons, map_mask_conditionTokens hcondition]
  | update hvalues hcondition =>
    simp only [tokens, List.map_cons, List.map_append, map_mask_assignmentTokens hvalues,
      map_mask_conditionTokens hcondition]
  | delete hcondition =>
    simp only [tokens, List.map_cons, map_mask_conditionTokens hcondition]

/-! ### Two runs -/

/-- Whether two clauses are the same but for the constants of their conditions, which are related
in pairs. -/
inductive Clause.Alike (R : Value → Value → Prop) : Clause → Clause → Prop
  | distinct : Alike R .distinct .distinct
  | filter {e e' : Expr} (h : e.Alike R e') : Alike R (.filter e) (.filter e')
  | groupBy (fields : List String) : Alike R (.groupBy fields) (.groupBy fields)
  | having {e e' : Expr} (h : e.Alike R e') : Alike R (.having e) (.having e')
  | orderBy (fields : List String) (direction : Direction) :
      Alike R (.orderBy fields direction) (.orderBy fields direction)
  | limit (count offset : Nat) : Alike R (.limit count offset) (.limit count offset)

/-- A clause is like itself under a reflexive relation of constants. -/
theorem Clause.Alike.refl {R : Value → Value → Prop} (h : ∀ v, R v v) (clause : Clause) :
    clause.Alike R clause := by
  cases clause with
  | distinct => exact .distinct
  | filter e => exact .filter (.refl h e)
  | groupBy fields => exact .groupBy fields
  | having e => exact .having (.refl h e)
  | orderBy fields direction => exact .orderBy fields direction
  | limit count offset => exact .limit count offset

namespace Table

variable {t : Table} {row row' : Record t.schema} {T : String → String → Prop}
  {R : Value → Value → Prop}

variable (t T R) in
/-- Whether two runs see related texts: those of the columns of their records, and those of
conditions that are alike and compiled after equally many parameters. -/
structure Observes (row row' : Record t.schema) : Prop where
  column : ∀ {i e e'}, t.encodeColumn row i = .ok e → t.encodeColumn row' i = .ok e' →
    T e.sql e'.sql ∧ e.param.isSome = e'.param.isSome
  condition : ∀ {e e' params params' ps ps' text text'}, Expr.Alike R e e' →
    params.length = params'.length → t.condition e params = .ok (text, ps) →
    t.condition e' params' = .ok (text', ps') → T text text' ∧ ps.length = ps'.length

/-- Two runs that see related texts write columns alike, with as many parameters. -/
theorem Observes.encodeColumns (h : t.Observes T R row row') {columns : List t.schema.Index}
    {values values' : List (String × String)} {params params' : List Parameter}
    (hrun : t.encodeColumns row columns = .ok (values, params))
    (hrun' : t.encodeColumns row' columns = .ok (values', params')) :
    AssignedAlike T values values' ∧ params.length = params'.length := by
  induction columns generalizing values values' params params' with
  | nil =>
    cases hrun
    cases hrun'
    exact ⟨.nil, rfl⟩
  | cons i columns ih =>
    obtain ⟨e, he, hrun⟩ := bind_eq_ok hrun
    obtain ⟨e', he', hrun'⟩ := bind_eq_ok hrun'
    obtain ⟨⟨values, params⟩, hrest, hrun⟩ := bind_eq_ok hrun
    obtain ⟨⟨values', params'⟩, hrest', hrun'⟩ := bind_eq_ok hrun'
    cases hrun
    cases hrun'
    obtain ⟨hsql, hparam⟩ := h.column he he'
    obtain ⟨hvalues, hlength⟩ := ih hrest hrest'
    refine ⟨.cons ⟨rfl, hsql⟩ hvalues, ?_⟩
    simp only [List.length_append, List.length_map, Option.length_toList, hparam, hlength]

variable (T) in
/-- Whether two commands are the same but for texts, with equally many parameters. -/
def CommandAlike (c c' : Command) : Prop :=
  c.body.Alike T c'.body ∧ c.params.length = c'.params.length

/-- Two runs of one entry start with alike commands. -/
theorem Observes.starts (h : t.Observes T R row row') {entry : Entry} {c c' : Command}
    (hc : t.Starts row entry c) (hc' : t.Starts row' entry c') : CommandAlike T c c' := by
  cases hc with
  | insert hcolumns hvalues =>
    cases hc' with
    | insert hcolumns' hvalues' =>
      cases hcolumns.symm.trans hcolumns'
      obtain ⟨hvalues, hlength⟩ := h.encodeColumns hvalues hvalues'
      exact ⟨.insert hvalues, hlength⟩
  | all =>
    cases hc'
    exact ⟨.query .plain, rfl⟩
  | select hnames =>
    cases hc' with
    | select hnames' =>
      cases hnames.symm.trans hnames'
      exact ⟨.query .plain, rfl⟩
  | count =>
    cases hc'
    exact ⟨.count .none, rfl⟩
  | update _ hcolumns hvalues =>
    cases hc' with
    | update _ hcolumns' hvalues' =>
      cases hcolumns.symm.trans hcolumns'
      obtain ⟨hvalues, hlength⟩ := h.encodeColumns hvalues hvalues'
      exact ⟨.update hvalues .none, hlength⟩
  | delete =>
    cases hc'
    exact ⟨.delete .none, rfl⟩

/-- Alike clauses take alike commands to alike commands: the step of two runs side by side. -/
theorem Observes.extends (h : t.Observes T R row row') {clause clause' : Clause}
    {c c₁ c' c₁' : Command} (hclause : clause.Alike R clause') (hstep : t.Extends clause c c₁)
    (hstep' : t.Extends clause' c' c₁') (hc : CommandAlike T c c') : CommandAlike T c₁ c₁' := by
  obtain ⟨hbody, hlength⟩ := hc
  cases hclause with
  | distinct =>
    cases hstep
    cases hstep'
    cases hbody with
    | query hq => exact ⟨.query { hq with distinct := rfl }, hlength⟩
  | filter he =>
    -- statements that are alike are of one kind, so both get the condition in the same place
    cases hstep with
    | filterQuery hcondition =>
      cases hstep' with
      | filterQuery hcondition' =>
        obtain ⟨htext, hps⟩ := h.condition he hlength hcondition hcondition'
        cases hbody with
        | query hq => exact ⟨.query { hq with condition := .some htext }, hps⟩
      | _ => cases hbody
    | filterCount hcondition =>
      cases hstep' with
      | filterCount hcondition' =>
        obtain ⟨htext, hps⟩ := h.condition he hlength hcondition hcondition'
        cases hbody
        exact ⟨.count (.some htext), hps⟩
      | _ => cases hbody
    | filterUpdate hcondition =>
      cases hstep' with
      | filterUpdate hcondition' =>
        obtain ⟨htext, hps⟩ := h.condition he hlength hcondition hcondition'
        cases hbody with
        | update hvalues => exact ⟨.update hvalues (.some htext), hps⟩
      | _ => cases hbody
    | filterDelete hcondition =>
      cases hstep' with
      | filterDelete hcondition' =>
        obtain ⟨htext, hps⟩ := h.condition he hlength hcondition hcondition'
        cases hbody
        exact ⟨.delete (.some htext), hps⟩
      | _ => cases hbody
  | groupBy fields =>
    cases hstep with
    | groupBy hnames =>
      cases hstep' with
      | groupBy hnames' =>
        -- fields resolve to the same columns in both runs
        cases hnames.symm.trans hnames'
        cases hbody with
        | query hq => exact ⟨.query { hq with grouping := .some ⟨rfl, .none⟩ }, hlength⟩
  | having he =>
    cases hstep with
    | having hcondition hgrouping =>
      cases hstep' with
      | having hcondition' hgrouping' =>
        obtain ⟨htext, hps⟩ := h.condition he hlength hcondition hcondition'
        cases hbody with
        | query hq =>
          have hnames := hq.grouping
          rw [hgrouping, hgrouping'] at hnames
          cases hnames with
          | some hnames =>
            exact ⟨.query { hq with grouping := .some ⟨hnames.1, .some htext⟩ }, hps⟩
  | orderBy fields direction =>
    cases hstep with
    | orderBy hnames =>
      cases hstep' with
      | orderBy hnames' =>
        cases hnames.symm.trans hnames'
        cases hbody with
        | query hq => exact ⟨.query { hq with ordering := rfl }, hlength⟩
  | limit count offset =>
    cases hstep
    cases hstep'
    cases hbody with
    | query hq => exact ⟨.query { hq with window := rfl }, hlength⟩

/-- **Runs that see related texts end in statements that are the same but for these.** -/
theorem build_alike (h : t.Observes T R row row') {entry : Entry} {clauses clauses' : List Clause}
    {c c' : Command} (hclauses : List.Forall₂ (Clause.Alike R) clauses clauses')
    (hrun : t.build row entry clauses = .ok c) (hrun' : t.build row' entry clauses' = .ok c') :
    c.body.Alike T c'.body :=
  (build_induction₂ (P := CommandAlike T) h.starts h.extends hclauses hrun hrun').1

end Table

end SqlRecord
