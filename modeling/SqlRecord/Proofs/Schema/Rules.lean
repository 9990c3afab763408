import SqlRecord.Proofs.Expr.Failure
import SqlRecord.Proofs.Schema.Build

/-!
# Rules for declarations

A declaration is held against a list of rules in declaration order (`Declaration.rules`). One loop
checks them all, and skips some after a bad name; the skips never hide the first rule that is
broken. What all rules together ask for is `Schema.Lawful`. Main statement: `Declaration.build_iff`.
-/

namespace SqlRecord

/-- What is asked of a declaration, and the error of one that does not comply. -/
structure Rule where
  holds : Prop
  error : SchemaError

namespace Rule

/-- Whether the first rule of a list that does not hold has an error. -/
def FirstBroken (rules : List Rule) (e : SchemaError) : Prop :=
  ∃ before r after, rules = before ++ r :: after ∧ (∀ q ∈ before, q.holds) ∧ ¬r.holds ∧ r.error = e

/-- Whether a list of rules has a verdict: the error of the first that is broken, or none. -/
def Verdict (rules : List Rule) : Option SchemaError → Prop
  | none => ∀ r ∈ rules, r.holds
  | some e => FirstBroken rules e

namespace Verdict

variable {r : Rule} {rules others : List Rule} {e? f? : Option SchemaError}

theorem nil : Verdict [] none := nofun

theorem broken (h : ¬r.holds) : Verdict (r :: rules) (some r.error) :=
  ⟨[], r, rules, rfl, nofun, h, rfl⟩

theorem cons (h : r.holds) (hrules : Verdict rules e?) : Verdict (r :: rules) e? := by
  cases e? with
  | none => exact List.forall_mem_cons.mpr ⟨h, hrules⟩
  | some e =>
    obtain ⟨before, q, after, rfl, hbefore, hq, he⟩ := hrules
    exact ⟨r :: before, q, after, rfl, List.forall_mem_cons.mpr ⟨h, hbefore⟩, hq, he⟩

/-- The verdict of rules and others is the first's, if they have one. -/
theorem append (h : Verdict rules e?) (h' : Verdict others f?) :
    Verdict (rules ++ others) (e?.or f?) := by
  cases e? with
  | none =>
    rw [Option.none_or]
    induction rules with
    | nil => exact h'
    | cons r rules ih =>
      obtain ⟨hr, hrules⟩ := List.forall_mem_cons.mp h
      exact .cons hr (ih hrules)
  | some e =>
    obtain ⟨before, q, after, rfl, hbefore, hq, he⟩ := h
    exact ⟨before, q, after ++ others, by simp, hbefore, hq, he⟩

/-- One rule, checked by a decision. -/
theorem single {p : Prop} [Decidable p] (hr : r.holds ↔ p) :
    Verdict [r] (if p then none else some r.error) := by
  split_ifs with hp
  · exact .cons (hr.mpr hp) nil
  · exact .broken (mt hr.mp hp)

/-- The verdict of rules for each element is that of the first element with one. -/
theorem flatMap {α : Type} {f : α → List Rule} {g : α → Option SchemaError} {as : List α}
    (h : ∀ a ∈ as, Verdict (f a) (g a)) : Verdict (as.flatMap f) (as.findSome? g) := by
  induction as with
  | nil => exact nil
  | cons a as ih =>
    obtain ⟨ha, has⟩ := List.forall_mem_cons.mp h
    have happend := ha.append (ih has)
    rw [List.flatMap_cons, List.findSome?_cons]
    cases hg : g a with
    | none => rwa [hg, Option.none_or] at happend
    | some e => rwa [hg, Option.some_or] at happend

/-- A list of rules has one verdict. -/
theorem unique (h : Verdict rules e?) (h' : Verdict rules f?) : e? = f? := by
  -- a rule that is broken is not among rules that hold
  have hnone : ∀ {rules : List Rule} {e : SchemaError}, Verdict rules none →
      ¬Verdict rules (some e) := by
    rintro rules e hall ⟨before, r, after, rfl, -, hr, -⟩
    exact hr (hall r (by simp))
  cases e? with
  | none =>
    cases f? with
    | none => rfl
    | some f => exact absurd h' (hnone h)
  | some e =>
    cases f? with
    | none => exact absurd h (hnone h')
    | some f =>
      induction rules with
      | nil =>
        obtain ⟨before, r, after, hnil, -⟩ := h
        simp at hnil
      | cons q rules ih =>
        obtain ⟨before, r, after, heq, hbefore, hr, rfl⟩ := h
        obtain ⟨before', r', after', heq', hbefore', hr', rfl⟩ := h'
        rcases before with _ | ⟨b, before⟩ <;> rcases before' with _ | ⟨b', before'⟩ <;>
          obtain ⟨rfl, rfl⟩ := List.cons.inj heq <;> obtain ⟨rfl, hrest⟩ := List.cons.inj heq'
        · rfl
        · exact absurd (hbefore' _ List.mem_cons_self) hr
        · exact absurd (hbefore _ List.mem_cons_self) hr'
        · exact ih ⟨before, r, after, rfl, (List.forall_mem_cons.mp hbefore).2, hr, rfl⟩
            ⟨before', r', after', hrest, (List.forall_mem_cons.mp hbefore').2, hr', rfl⟩

end Verdict

end Rule

open Rule

/-! ### The rules -/

namespace Schema

variable (s : Schema)

/-- The error of a constraint of a column. -/
def refusal (c : Column) (reason : String) : SchemaError := .invalidConstraint s.table c.name reason

/-- The error of a condition that does not compile. A field without a column is blamed as such. -/
def checkError (c : Column) : Error → SchemaError
  | .schema e => e
  | e => s.refusal c ("CHECK " ++ e.message)

/-- Why a default cannot be written. -/
def defaultError (c : Column) (v : Value) : SchemaError :=
  s.refusal c ("DEFAULT " ++ CodecError.message (.unsupported (match v with
    | .real x => .nonFinite x
    | _ => .blobLiteral)))

/-- Why a constant of a condition cannot be written. -/
def constantError (c : Column) (v : Value) : SchemaError :=
  s.checkError c (match v with
    | .real x => .codec (.unsupported (.nonFinite x))
    | _ => .compile (.unsupportedLiteral SqlType.blob.name))

/-- What is asked of a part of a condition. -/
def nodeRules (c : Column) : Expr → List Rule
  | .column field => [⟨s.Maps field, .unmappedField s.table field⟩]
  | .literal v => [⟨v.HasLiteral, s.constantError c v⟩]
  | .binary op _ _ =>
    [⟨op ≠ .bitXor ∧ op ≠ .power, s.checkError c (.compile (.unsupportedOperator op.name))⟩]
  | _ => []

/-- What is asked of a constraint. -/
def constraintRules (c : Column) : Constraint → List Rule
  | .default v => [⟨v.HasLiteral, s.defaultError c v⟩]
  | .check e =>
    ⟨e.hasAggregate = false, s.refusal c "CHECK cannot contain aggregates"⟩ ::
      e.nodes.flatMap (s.nodeRules c)
  | _ => []

/-- What is asked of a column after earlier ones. -/
def columnRules (earlier : List Column) (c : Column) : List Rule :=
  ⟨Identifier.isValid c.name = true, .invalidIdentifier c.name⟩ ::
  ⟨∀ b ∈ earlier, sameName b.name c.name = false, .duplicateColumn s.table c.name⟩ ::
  ⟨∀ b ∈ earlier, ¬(b.isPrimaryKey = true ∧ c.isPrimaryKey = true),
    s.refusal c "table already has a PRIMARY KEY"⟩ ::
  ⟨c.isAutoincrement = true →
      c.sqlType = .integer ∧ [.primaryKey, .autoincrement] <:+: c.constraints,
    s.refusal c "AUTOINCREMENT requires an INTEGER PRIMARY KEY"⟩ ::
  c.constraints.flatMap (s.constraintRules c)

/-- What is asked of columns after earlier ones. -/
def columnsRules (earlier : List Column) : List Column → List Rule
  | [] => []
  | c :: cs => s.columnRules earlier c ++ columnsRules (c :: earlier) cs

/-- What is asked of a schema, in declaration order. -/
def rules : List Rule :=
  ⟨Identifier.isValid s.table = true, .invalidIdentifier s.table⟩ ::
  ⟨s.columns ≠ [], .noColumns s.table⟩ ::
  s.columnsRules [] s.columns

end Schema

/-- What is asked of a declaration, in its order. -/
def Declaration.rules (d : Declaration) : List Rule :=
  ⟨d.table.isSome = true, .missingTableName d.record⟩ ::
    d.table.elim [] fun table => (Schema.mk d.record table d.columns).rules

/-! ### Lawful schemas -/

/-- Whether an expression without aggregates can be written over a schema: its fields are mapped,
its operators are spelled and its constants have literals. -/
structure Schema.Covers (s : Schema) (e : Expr) : Prop where
  fields : ∀ field, .column field ∈ e.nodes → s.Maps field
  operators : ∀ op left right, .binary op left right ∈ e.nodes → op ≠ .bitXor ∧ op ≠ .power
  constants : ∀ v, .literal v ∈ e.nodes → v.HasLiteral

/-- The schemas that comply with all rules. -/
structure Schema.Lawful (s : Schema) : Prop where
  table_valid : Identifier.isValid s.table = true
  columns_ne_nil : s.columns ≠ []
  names_valid : ∀ c ∈ s.columns, Identifier.isValid c.name = true
  names_distinct : s.columns.Pairwise fun b c => sameName b.name c.name = false
  one_key : (s.columns.filter Column.isPrimaryKey).length ≤ 1
  generated : ∀ c ∈ s.columns, c.isAutoincrement = true →
    c.sqlType = .integer ∧ [.primaryKey, .autoincrement] <:+: c.constraints
  defaults : ∀ c ∈ s.columns, ∀ v, .default v ∈ c.constraints → v.HasLiteral
  checks : ∀ c ∈ s.columns, ∀ e, .check e ∈ c.constraints → e.hasAggregate = false ∧ s.Covers e

/-! ### The verdict of checking -/

namespace Schema

variable (s : Schema) (c : Column)

theorem isSome_token?_iff {op : BinaryOp} :
    op ≠ .bitXor ∧ op ≠ .power ↔ op.token?.isSome = true := by
  cases op <;> decide

/-- The check of a part of a condition gives the verdict of its rules. -/
theorem verdict_nodeRules {node : Expr} (h : node.hasAggregate = false) :
    Verdict (s.nodeRules c node) ((s.nodeError? .inline node).map (s.checkError c)) := by
  cases node with
  | column field =>
    rw [nodeError?, fieldError?, apply_ite (Option.map _)]
    exact .single Iff.rfl
  | literal v =>
    cases v with
    | blob bytes => exact .broken id
    | real x =>
      rw [nodeError?, literalError?]
      cases hx : x.isFinite with
      | true => exact .cons hx .nil
      | false => exact .broken (by simp [Value.HasLiteral, hx])
    | _ => exact .cons trivial .nil
  | binary op left right =>
    rw [nodeError?, apply_ite (Option.map _)]
    exact .single isSome_token?_iff
  | unary op operand => exact .nil
  | aggregate func field => cases h

/-- The first part of a condition that is refused gives the verdict. -/
theorem verdict_nodes {e : Expr} (h : e.hasAggregate = false) :
    Verdict (e.nodes.flatMap (s.nodeRules c))
      ((e.nodes.findSome? (s.nodeError? .inline)).map (s.checkError c)) := by
  rw [List.map_findSome?]
  exact .flatMap fun node hnode => s.verdict_nodeRules c (Expr.hasAggregate_of_mem_nodes h hnode)

/-- The problem of a condition without aggregates is that of its first part that has no text. -/
theorem head?_checkProblems {e : Expr} (h : e.hasAggregate = false) :
    (s.constraintProblems c (.check e)).head? =
      (e.nodes.findSome? (s.nodeError? .inline)).map (s.checkError c) := by
  rw [constraintProblems, if_neg (by simp [h])]
  cases hfind : e.nodes.findSome? (s.nodeError? .inline) with
  | some error =>
    rw [s.compile_eq_error_iff.mpr hfind]
    cases error <;> rfl
  | none =>
    cases hcompile : s.compile e with
    | ok text => rfl
    | error error =>
      rw [s.compile_eq_error_iff.mp hcompile] at hfind
      cases hfind

/-- The check of a constraint gives the verdict of its rules. -/
theorem verdict_constraintRules (k : Constraint) :
    Verdict (s.constraintRules c k) (s.constraintProblems c k).head? := by
  cases k with
  | default v =>
    cases v with
    | blob bytes => exact .broken id
    | real x =>
      rw [constraintProblems]
      cases hx : x.isFinite with
      | true =>
        simp only [Literal.ofValue, Literal.ofReal, hx, if_true]
        exact .cons hx .nil
      | false =>
        simp only [Literal.ofValue, Literal.ofReal, hx]
        exact .broken (by simp [Value.HasLiteral, hx])
    | _ => exact .cons trivial .nil
  | check e =>
    by_cases h : e.hasAggregate = true
    · rw [constraintProblems, if_pos h]
      exact .broken (by simp [h])
    · rw [Bool.not_eq_true] at h
      rw [s.head?_checkProblems c h]
      exact .cons h (s.verdict_nodes c h)
  | _ => exact .nil

end Schema

/-- Neighbours in a list are pairs of the list and its tail. -/
theorem mem_zip_tail_iff {α : Type} {a b : α} {l : List α} :
    (a, b) ∈ l.zip l.tail ↔ [a, b] <:+: l := by
  induction l with
  | nil => simp
  | cons x l ih =>
    cases l with
    | nil => simp [List.infix_cons_iff]
    | cons y l =>
      rw [List.infix_cons_iff, ← ih]
      simp

/-- A generated key is declared by two constraints side by side. -/
theorem Column.hasGeneratedKey_iff {constraints : List Constraint} :
    hasGeneratedKey constraints = true ↔ [.primaryKey, .autoincrement] <:+: constraints := by
  rw [hasGeneratedKey, List.any_eq_true, ← mem_zip_tail_iff]
  simp

namespace Schema

variable (s : Schema)

/-- What is checked of a column with a good name comes to the last three of its rules. -/
theorem verdict_columnProblems {earlier : List Column} {c : Column} {keyed : Bool}
    (hvalid : Identifier.isValid c.name = true)
    (hnew : ∀ b ∈ earlier, sameName b.name c.name = false)
    (hkeyed : keyed = true ↔ ∃ b ∈ earlier, b.isPrimaryKey = true) :
    Verdict (s.columnRules earlier c) (s.columnProblems keyed c).head? := by
  have hkey : (∀ b ∈ earlier, ¬(b.isPrimaryKey = true ∧ c.isPrimaryKey = true)) ↔
      ¬(c.isPrimaryKey && keyed) = true := by
    rw [Bool.and_eq_true, hkeyed]
    constructor
    · rintro hall ⟨hc, b, hb, hbkey⟩
      exact hall b hb ⟨hbkey, hc⟩
    · rintro hnot b hb ⟨hbkey, hc⟩
      exact hnot ⟨hc, b, hb, hbkey⟩
  have hgenerated : (c.isAutoincrement = true →
        c.sqlType = .integer ∧ [.primaryKey, .autoincrement] <:+: c.constraints) ↔
      ¬(c.isAutoincrement &&
        !(c.sqlType == .integer && Column.hasGeneratedKey c.constraints)) = true := by
    rw [← Column.hasGeneratedKey_iff]
    simp
  have hconstraints : Verdict (c.constraints.flatMap (s.constraintRules c))
      (c.constraints.flatMap (s.constraintProblems c)).head? := by
    rw [List.head?_flatMap]
    exact .flatMap fun k _ => s.verdict_constraintRules c k
  have hone : ∀ {p : Prop} [Decidable p] {e : SchemaError},
      (if p then [e] else []).head? = if ¬p then none else some e := by
    intro p _ e
    split_ifs <;> rfl
  refine .cons hvalid (.cons hnew ?_)
  rw [columnProblems, List.append_assoc, List.head?_append, List.head?_append, hone, hone]
  exact (Verdict.single hkey).append ((Verdict.single hgenerated).append hconstraints)

/-- **Checking columns after earlier ones finds the first rule that is broken**, by induction on the
columns. As long as none is broken, the names seen are those of the earlier columns, and a key was
met exactly if one of them is one. -/
theorem verdict_columnsProblems {seen : List (List Char)} {keyed : Bool} {earlier cs : List Column}
    (hseen : ∀ name, foldCase name ∈ seen ↔ ∃ b ∈ earlier, sameName b.name name = true)
    (hkeyed : keyed = true ↔ ∃ b ∈ earlier, b.isPrimaryKey = true) :
    Verdict (s.columnsRules earlier cs) (s.columnsProblems seen keyed cs).head? := by
  induction cs generalizing seen keyed earlier with
  | nil => exact .nil
  | cons c cs ih =>
    rw [columnsRules, columnsProblems]
    split_ifs with hvalid hduplicate
    · exact .broken (by simpa using hvalid)
    · rw [Bool.not_eq_true, Bool.not_eq_false'] at hvalid
      obtain ⟨b, hb, hsame⟩ := (hseen c.name).mp (by simpa using hduplicate)
      refine .cons hvalid (.broken fun hnew => ?_)
      rw [hnew b hb] at hsame
      cases hsame
    · rw [Bool.not_eq_true, Bool.not_eq_false'] at hvalid
      have hnew : ∀ b ∈ earlier, sameName b.name c.name = false := by
        intro b hb
        by_contra hsame
        rw [Bool.not_eq_false] at hsame
        exact hduplicate (by simpa using (hseen c.name).mpr ⟨b, hb, hsame⟩)
      rw [List.head?_append]
      refine (s.verdict_columnProblems hvalid hnew hkeyed).append (ih ?_ ?_)
      · intro name
        rw [List.mem_cons, hseen name, List.exists_mem_cons_iff, sameName, beq_iff_eq,
          eq_comm (a := foldCase name)]
      · rw [Bool.or_eq_true, hkeyed, List.exists_mem_cons_iff, or_comm]

/-- The checks of a schema give the verdict of its rules. -/
theorem verdict_problems : Verdict s.rules s.problems.head? := by
  rw [problems]
  split_ifs with htable hcolumns
  · exact .broken (by simpa using htable)
  · exact .cons (by simpa using htable) (.broken (by simpa using hcolumns))
  · refine .cons (by simpa using htable) (.cons (by simpa using hcolumns) ?_)
    exact s.verdict_columnsProblems (by simp) (by simp)

/-! ### All rules -/

/-- The rules of a condition hold exactly if the schema covers it. -/
theorem forall_nodeRules_iff {c : Column} {e : Expr} :
    (∀ r ∈ e.nodes.flatMap (s.nodeRules c), r.holds) ↔ s.Covers e := by
  rw [List.forall_mem_flatMap]
  constructor
  · intro h
    exact {
      fields := fun field hnode => h _ hnode _ (List.mem_singleton_self _)
      operators := fun op left right hnode => h _ hnode _ (List.mem_singleton_self _)
      constants := fun v hnode => h _ hnode _ (List.mem_singleton_self _) }
  · intro h node hnode r hr
    cases node with
    | column field =>
      obtain rfl := List.mem_singleton.mp hr
      exact h.fields field hnode
    | literal v =>
      obtain rfl := List.mem_singleton.mp hr
      exact h.constants v hnode
    | binary op left right =>
      obtain rfl := List.mem_singleton.mp hr
      exact h.operators op left right hnode
    | unary | aggregate => cases hr

/-- An expression without aggregates compiles exactly if it can be written over the schema. -/
theorem compiles_iff_covers {e : Expr} (h : e.hasAggregate = false) :
    (∃ text, s.compile e = .ok text) ↔ s.Covers e := by
  -- a condition compiles exactly if none of its rules is broken, for any column it may stand at
  have hverdict := s.verdict_nodes ⟨"", "", .plain .string, []⟩ h
  rw [← s.forall_nodeRules_iff]
  constructor
  · rintro ⟨text, htext⟩
    cases hfind : e.nodes.findSome? (s.nodeError? .inline) with
    | none => rwa [hfind] at hverdict
    | some error =>
      rw [s.compile_eq_error_iff.mpr hfind] at htext
      cases htext
  · intro hall
    have hnone := hverdict.unique (show Verdict _ none from hall)
    cases hcompile : s.compile e with
    | ok text => exact ⟨text, rfl⟩
    | error error =>
      rw [s.compile_eq_error_iff.mp hcompile] at hnone
      cases hnone

/-- What is asked of a column apart from all others. -/
structure Complies (c : Column) : Prop where
  name : Identifier.isValid c.name = true
  generated : c.isAutoincrement = true →
    c.sqlType = .integer ∧ [.primaryKey, .autoincrement] <:+: c.constraints
  defaults : ∀ v, .default v ∈ c.constraints → v.HasLiteral
  checks : ∀ e, .check e ∈ c.constraints → e.hasAggregate = false ∧ s.Covers e

/-- What is asked of a column and one before it. -/
structure Compatible (b c : Column) : Prop where
  name : sameName b.name c.name = false
  key : ¬(b.isPrimaryKey = true ∧ c.isPrimaryKey = true)

/-- The rules of constraints hold exactly if defaults have literals and conditions are covered. -/
theorem forall_constraintRules_iff {c : Column} :
    (∀ r ∈ c.constraints.flatMap (s.constraintRules c), r.holds) ↔
      (∀ v, .default v ∈ c.constraints → v.HasLiteral) ∧
        ∀ e, .check e ∈ c.constraints → e.hasAggregate = false ∧ s.Covers e := by
  rw [List.forall_mem_flatMap]
  constructor
  · intro h
    refine ⟨fun v hv => h _ hv _ (List.mem_singleton_self _), fun e he => ?_⟩
    obtain ⟨haggregate, hnodes⟩ := List.forall_mem_cons.mp (h _ he)
    exact ⟨haggregate, s.forall_nodeRules_iff.mp hnodes⟩
  · rintro ⟨hdefaults, hchecks⟩ k hk r hr
    cases k with
    | default v =>
      obtain rfl := List.mem_singleton.mp hr
      exact hdefaults v hk
    | check e =>
      obtain ⟨haggregate, hcovers⟩ := hchecks e hk
      rcases List.mem_cons.mp hr with rfl | hr
      · exact haggregate
      · exact s.forall_nodeRules_iff.mpr hcovers r hr
    | _ => cases hr

/-- The rules of a column hold exactly if it complies by itself and with the columns before it. -/
theorem forall_columnRules_iff {earlier : List Column} {c : Column} :
    (∀ r ∈ s.columnRules earlier c, r.holds) ↔
      s.Complies c ∧ ∀ b ∈ earlier, Compatible b c := by
  simp only [columnRules, List.forall_mem_cons, forall_constraintRules_iff]
  constructor
  · rintro ⟨hname, hnew, hkey, hgenerated, hdefaults, hchecks⟩
    exact ⟨⟨hname, hgenerated, hdefaults, hchecks⟩, fun b hb => ⟨hnew b hb, hkey b hb⟩⟩
  · rintro ⟨hc, hearlier⟩
    exact ⟨hc.name, fun b hb => (hearlier b hb).name, fun b hb => (hearlier b hb).key,
      hc.generated, hc.defaults, hc.checks⟩

/-- The rules of columns hold exactly if each complies by itself, with those before it and with the
earlier ones. -/
theorem forall_columnsRules_iff {earlier cs : List Column} :
    (∀ r ∈ s.columnsRules earlier cs, r.holds) ↔
      (∀ c ∈ cs, s.Complies c) ∧ cs.Pairwise Compatible ∧
        ∀ b ∈ earlier, ∀ c ∈ cs, Compatible b c := by
  induction cs generalizing earlier with
  | nil => simp [columnsRules]
  | cons c cs ih =>
    rw [columnsRules, List.forall_mem_append, s.forall_columnRules_iff, ih]
    simp only [List.forall_mem_cons, List.pairwise_cons, forall₂_and]
    tauto

end Schema

/-- At most one element of a list has a property exactly if no two have it. -/
theorem length_filter_le_one_iff {α : Type} {p : α → Bool} {l : List α} :
    (l.filter p).length ≤ 1 ↔ l.Pairwise fun a b => ¬(p a = true ∧ p b = true) := by
  have hfalse : ∀ l : List α, l.length ≤ 1 ↔ l.Pairwise fun _ _ => False := by
    rintro (_ | ⟨a, _ | ⟨b, l⟩⟩)
    · simp
    · simp
    · refine ⟨fun h => by simp at h, fun h => ?_⟩
      exact ((List.pairwise_cons.mp h).1 b List.mem_cons_self).elim
  rw [hfalse, List.pairwise_filter]
  simp only [not_and, imp_false]

namespace Schema

variable {s : Schema}

/-- A schema is lawful exactly if its rules hold. -/
theorem lawful_iff : s.Lawful ↔ ∀ r ∈ s.rules, r.holds := by
  have hpairs : s.columns.Pairwise Compatible ↔
      s.columns.Pairwise (fun b c => sameName b.name c.name = false) ∧
        (s.columns.filter Column.isPrimaryKey).length ≤ 1 := by
    rw [length_filter_le_one_iff, ← List.pairwise_and_iff]
    exact List.Pairwise.iff fun b c => ⟨fun h => ⟨h.name, h.key⟩, fun h => ⟨h.1, h.2⟩⟩
  rw [rules, List.forall_mem_cons, List.forall_mem_cons, s.forall_columnsRules_iff, hpairs]
  constructor
  · intro h
    exact ⟨h.table_valid, h.columns_ne_nil,
      fun c hc => ⟨h.names_valid c hc, h.generated c hc, h.defaults c hc, h.checks c hc⟩,
      ⟨h.names_distinct, h.one_key⟩, nofun⟩
  · rintro ⟨htable, hcolumns, hall, ⟨hdistinct, hkey⟩, -⟩
    exact ⟨htable, hcolumns, fun c hc => (hall c hc).name, hdistinct, hkey,
      fun c hc => (hall c hc).generated, fun c hc => (hall c hc).defaults,
      fun c hc => (hall c hc).checks⟩

end Schema

/-! ### Building -/

namespace Declaration

variable {d : Declaration}

/-- Checking a declaration finds the first rule that is broken. -/
theorem verdict_build (d : Declaration) :
    Verdict d.rules (match d.build with
      | .ok _ => none
      | .error e => some e) := by
  rcases d with ⟨record, _ | table, columns⟩
  · exact .broken (by simp)
  · have hproblems := (Schema.mk record table columns).verdict_problems
    refine .cons rfl ?_
    rw [build]
    dsimp only at hproblems ⊢
    cases h : (Schema.mk record table columns).problems with
    | nil => rwa [h] at hproblems
    | cons e es => rwa [h] at hproblems

/-- A declaration builds exactly if it names a table and its schema is lawful. -/
theorem build_eq_ok_iff {s : Schema} :
    d.build = .ok s ↔ d = ⟨s.record, some s.table, s.columns⟩ ∧ s.Lawful := by
  constructor
  · intro h
    have hrules := d.verdict_build
    rw [h] at hrules
    rcases d with ⟨record, _ | table, columns⟩
    · cases h
    · obtain rfl : s = ⟨record, table, columns⟩ := by
        rw [build] at h
        dsimp only at h
        split at h
        · cases h
          rfl
        · cases h
      exact ⟨rfl, Schema.lawful_iff.mpr (List.forall_mem_cons.mp hrules).2⟩
  · rintro ⟨rfl, hlawful⟩
    refine build_of_problems ?_
    have hrules : Verdict _ none := Schema.lawful_iff.mp hlawful
    exact List.head?_eq_none_iff.mp (s.verdict_problems.unique hrules)

/-- **A declaration builds exactly if all rules hold, and otherwise fails with the error of the
first that does not**, in declaration order. A condition complies exactly if it has no aggregate and
compiles. -/
theorem build_iff (d : Declaration) :
    (∀ s, d.build = .ok s ↔ d = ⟨s.record, some s.table, s.columns⟩ ∧ s.Lawful) ∧
    (∀ e, d.build = .error e ↔ FirstBroken d.rules e) ∧
    ∀ (s : Schema) (e : Expr), e.hasAggregate = false →
      ((∃ text, s.compile e = .ok text) ↔ s.Covers e) := by
  refine ⟨fun s => build_eq_ok_iff, fun e => ?_, fun s e => s.compiles_iff_covers⟩
  have hverdict := d.verdict_build
  constructor
  · intro h
    rw [h] at hverdict
    exact hverdict
  · intro h
    have hunique := hverdict.unique (show Verdict _ (some e) from h)
    cases hbuild : d.build with
    | ok s =>
      rw [hbuild] at hunique
      cases hunique
    | error e' =>
      rw [hbuild] at hunique
      cases hunique
      rfl

/-- A schema with one name for two columns, of which the first is generated but no key and has a
payload for its default. -/
def twins : Schema :=
  ⟨"Twin", "twins",
    [⟨"id", "id", .plain .string, [.autoincrement, .default (.blob [])]⟩,
      ⟨"ID", "id", .plain .string, []⟩]⟩

/-- The notes comply with all rules, and twins are blamed for the first that they break. -/
theorem build_iff_notes :
    Schema.notes.Lawful ∧
      FirstBroken (rules ⟨"Twin", some "twins", twins.columns⟩)
        (.invalidConstraint "twins" "id" "AUTOINCREMENT requires an INTEGER PRIMARY KEY") := by
  have hproblems : (Schema.mk "Twin" "twins" twins.columns).problems.head? =
      some (.invalidConstraint "twins" "id" "AUTOINCREMENT requires an INTEGER PRIMARY KEY") := by
    decide +kernel
  obtain ⟨problems, htwins⟩ := List.head?_eq_some_iff.mp hproblems
  constructor
  · exact (((build_iff _).1 _).mp Schema.build_notes).2
  · refine ((build_iff _).2.1 _).mp ?_
    rw [build]
    dsimp only
    rw [htwins]

end Declaration

end SqlRecord
