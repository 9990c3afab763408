import SqlRecord.Proofs.Schema.Rules

/-!
# Which part of an expression is at fault

The parts that have no text are few: a field without a column, `bitXor` and `power`, a payload or a
non-finite real among the constants, and an aggregate without a field that does not count. Each of
them is an error of its own kind (`Schema.Offends`), and an expression fails with the error of the
first. Main statement: `Schema.compile_iff`.
-/

namespace SqlRecord

namespace Schema

/-- The parts of expressions that have no text in a mode, each with its error. -/
inductive Offends (s : Schema) (mode : BindMode) : Expr → Error → Prop
  | column {field : String} (h : ¬s.Maps field) :
    Offends s mode (.column field) (.schema (.unmappedField s.table field))
  | argument {func : Aggregate} {field : String} (h : ¬s.Maps field) :
    Offends s mode (.aggregate func (some field)) (.schema (.unmappedField s.table field))
  | star {func : Aggregate} (h : func ≠ .count) :
    Offends s mode (.aggregate func none) (.compile (.unsupportedOperator func.name))
  | operator {op : BinaryOp} {left right : Expr} (h : op = .bitXor ∨ op = .power) :
    Offends s mode (.binary op left right) (.compile (.unsupportedOperator op.name))
  | payload {bytes : List UInt8} :
    Offends s mode (.literal (.blob bytes)) (.compile (.unsupportedLiteral SqlType.blob.name))
  | nonFinite {x : Binary64} (hmode : mode = .inline) (h : x.isFinite = false) :
    Offends s mode (.literal (.real x)) (.codec (.unsupported (.nonFinite x)))

/-- Whether an expression can be written over a schema: an expression that is covered, whose
aggregates count or have a field that is mapped. -/
structure Writes (s : Schema) (e : Expr) : Prop extends s.Covers e where
  arguments : ∀ func field, .aggregate func (some field) ∈ e.nodes → s.Maps field
  stars : ∀ func, .aggregate func none ∈ e.nodes → func = .count

variable {s : Schema} {mode : BindMode} {e node : Expr} {error : Error}

/-! ### One part -/

/-- A field is refused exactly if no column maps it. -/
theorem fieldError?_eq_some_iff {field : String} :
    s.fieldError? field = some error ↔
      ¬s.Maps field ∧ error = .schema (.unmappedField s.table field) := by
  rw [fieldError?]
  split_ifs with h <;> simp [h, eq_comm]

/-- A constant without a text offends with the error it is refused with. -/
theorem offends_of_literalError? {v : Value} (h : literalError? mode v = some error) :
    s.Offends mode (.literal v) error := by
  cases v with
  | blob bytes =>
    cases h
    exact .payload
  | real x =>
    rw [literalError?] at h
    split_ifs at h with hx
    cases h
    exact .nonFinite hx.1 hx.2
  | _ => cases h

/-- The check of a part finds exactly its offence, so that a part has one at most. -/
theorem nodeError?_eq_some_iff :
    s.nodeError? mode node = some error ↔ s.Offends mode node error := by
  constructor
  · intro h
    cases node with
    | column field =>
      obtain ⟨hfield, rfl⟩ := fieldError?_eq_some_iff.mp h
      exact .column hfield
    | literal v => exact offends_of_literalError? h
    | binary op left right =>
      rw [nodeError?] at h
      split_ifs at h with hop
      cases h
      rw [← isSome_token?_iff, ← not_or, not_not] at hop
      exact .operator hop
    | unary op operand => cases h
    | aggregate func field =>
      cases field with
      | some field =>
        obtain ⟨hfield, rfl⟩ := fieldError?_eq_some_iff.mp h
        exact .argument hfield
      | none =>
        rw [nodeError?] at h
        split_ifs at h with hfunc
        cases h
        exact .star hfunc
  · intro h
    cases h with
    | column hfield => exact fieldError?_eq_some_iff.mpr ⟨hfield, rfl⟩
    | argument hfield => exact fieldError?_eq_some_iff.mpr ⟨hfield, rfl⟩
    | star hfunc => exact if_neg hfunc
    | operator hop =>
      rw [nodeError?, if_neg]
      rwa [← isSome_token?_iff, ← not_or, not_not]
    | payload => rfl
    | nonFinite hmode hx => exact if_pos ⟨hmode, hx⟩

/-- The check of a part finds nothing exactly if the part does not offend. -/
theorem nodeError?_eq_none_iff :
    s.nodeError? mode node = none ↔ ∀ error, ¬s.Offends mode node error := by
  simp only [Option.eq_none_iff_forall_ne_some, ne_eq, nodeError?_eq_some_iff]

/-! ### All parts -/

/-- An expression fails with the error of its first part that offends, whatever the parameters
before it. -/
theorem emit_eq_error_iff {params : List Parameter} :
    ((s.emit mode e).run.run params).1 = .error error ↔
      ∃ before node after, e.nodes = before ++ node :: after ∧
        (∀ n ∈ before, ∀ error, ¬s.Offends mode n error) ∧ s.Offends mode node error := by
  rw [← failure?_eq_some_iff, s.failsWith_emit mode e params, List.findSome?_eq_some_iff]
  simp only [nodeError?_eq_some_iff, nodeError?_eq_none_iff, and_comm]

/-- An expression that has a text is one without parts that offend. -/
theorem emit_eq_ok_iff_forall {params : List Parameter} :
    (∃ text, ((s.emit mode e).run.run params).1 = .ok text) ↔
      ∀ node ∈ e.nodes, ∀ error, ¬s.Offends mode node error := by
  simp only [← nodeError?_eq_none_iff, ← List.findSome?_eq_none_iff,
    ← s.failsWith_emit mode e params, Emitter.failure?]
  rcases ((s.emit mode e).run.run params).1 with error | text <;> simp

/-- The expressions that can be written are those without an offence. -/
theorem writes_iff : s.Writes e ↔ ∀ node ∈ e.nodes, ∀ error, ¬s.Offends .inline node error := by
  constructor
  · intro h node hnode error hoffends
    cases hoffends with
    | column hfield => exact hfield (h.fields _ hnode)
    | argument hfield => exact hfield (h.arguments _ _ hnode)
    | star hfunc => exact hfunc (h.stars _ hnode)
    | operator hop =>
      obtain ⟨hxor, hpower⟩ := h.operators _ _ _ hnode
      exact hop.elim hxor hpower
    | payload => exact h.constants _ hnode
    | nonFinite _ hx => exact Bool.noConfusion (hx.symm.trans (h.constants _ hnode))
  · intro h
    exact {
      fields := fun field hnode => not_not.mp fun hfield => h _ hnode _ (.column hfield)
      operators := fun op left right hnode =>
        not_or.mp fun hop => h _ hnode _ (.operator hop)
      constants := fun v hnode => by
        cases v with
        | blob bytes => exact h _ hnode _ .payload
        | real x => exact Bool.of_not_eq_false fun hx => h _ hnode _ (.nonFinite rfl hx)
        | _ => trivial
      arguments := fun func field hnode =>
        not_not.mp fun hfield => h _ hnode _ (.argument hfield)
      stars := fun func hnode => not_not.mp fun hfunc => h _ hnode _ (.star hfunc) }

/-- **What an expression compiles to.** It has a text if and only if its fields, those of its
aggregates included, are mapped, it has neither of the operators without a spelling, its constants
have literals, and only `COUNT` is without a field. Otherwise it fails, and its error is the one of
its first part that offends, where a part comes before its operands and the left operand before the
right one. -/
theorem compile_iff (s : Schema) (e : Expr) :
    ((∃ text, s.compile e = .ok text) ↔ s.Writes e) ∧
    ∀ error, s.compile e = .error error ↔
      ∃ before node after, e.nodes = before ++ node :: after ∧
        (∀ n ∈ before, ∀ error, ¬s.Offends .inline n error) ∧ s.Offends .inline node error :=
  ⟨emit_eq_ok_iff_forall.trans writes_iff.symm, fun _ => emit_eq_error_iff⟩

/-- An operator without a spelling is at fault before the unmapped field and the payload below
it. -/
example : Schema.notes.compile (.binary .power (.column "x") (.literal (.blob []))) =
    .error (.compile (.unsupportedOperator "power")) := by
  decide +kernel

end Schema

end SqlRecord
