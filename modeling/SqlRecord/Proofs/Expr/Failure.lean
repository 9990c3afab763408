import SqlRecord.Proofs.Expr.Modes
import SqlRecord.Proofs.Schema.Resolve

/-!
# Failures of expressions

Writing an expression fails at the first of its parts that has no text, where an operator comes
before its operands and the left operand before the right one. Main statement:
`Schema.failsWith_emit`.
-/

namespace SqlRecord

namespace Expr

/-- The parts of an expression: the expression itself, then the parts of its operands. -/
def nodes : Expr → List Expr
  | column field => [column field]
  | literal v => [literal v]
  | binary op left right => binary op left right :: (left.nodes ++ right.nodes)
  | unary op operand => unary op operand :: operand.nodes
  | aggregate func field => [aggregate func field]

/-- No part of an expression without aggregates is one. -/
theorem hasAggregate_of_mem_nodes {e node : Expr} (he : e.hasAggregate = false)
    (h : node ∈ e.nodes) : node.hasAggregate = false := by
  induction e with
  | column | literal =>
    rw [nodes, List.mem_singleton] at h
    rw [h, he]
  | aggregate => cases he
  | binary op left right ihl ihr =>
    obtain ⟨hl, hr⟩ := Bool.or_eq_false_iff.mp he
    rcases List.mem_cons.mp h with rfl | h
    · exact he
    · exact (List.mem_append.mp h).elim (ihl hl) (ihr hr)
  | unary op operand ih =>
    rcases List.mem_cons.mp h with rfl | h
    · exact he
    · exact ih he h

end Expr

/-- Whether a value has a literal: a payload and a non-finite real have none. -/
def Value.HasLiteral : Value → Prop
  | .blob _ => False
  | .real x => x.isFinite = true
  | _ => True

/-- Why a constant has no text. With parameters only a payload has none. -/
def literalError? (mode : BindMode) : Value → Option Error
  | .blob _ => some (.compile (.unsupportedLiteral SqlType.blob.name))
  | .real x =>
    if mode = .inline ∧ x.isFinite = false then some (.codec (.unsupported (.nonFinite x)))
    else none
  | _ => none

/-- A constant fails to be emitted exactly for want of a text. -/
theorem failsWith_literal (mode : BindMode) (v : Value) :
    (emitLiteral mode v).FailsWith (literalError? mode v) := by
  cases v with
  | blob bytes => exact Emitter.failsWith_throw _
  | null => exact Emitter.failsWith_pure _
  | integer i =>
    intro params
    cases mode <;> rfl
  | text s =>
    intro params
    cases mode <;> rfl
  | real x =>
    intro params
    cases mode with
    | parameters => rfl
    | inline =>
      cases hx : x.isFinite <;>
        simp [emitLiteral, Literal.ofValue, Literal.ofReal, literalError?, hx] <;> rfl

/-- What is done with a result does not make an emitter fail. -/
theorem Emitter.FailsWith.bind_pure {α β : Type} {m : Emitter α} {e? : Option Error}
    (hm : m.FailsWith e?) (f : α → β) : (m >>= fun a => pure (f a)).FailsWith e? := by
  simpa using hm.bind fun a => failsWith_pure (f a)

namespace Schema

variable (s : Schema)

/-- Why a field has no column. -/
def fieldError? (field : String) : Option Error :=
  if s.Maps field then none else some (.schema (.unmappedField s.table field))

/-- Why a part of an expression has no text, apart from its operands. -/
def nodeError? (mode : BindMode) : Expr → Option Error
  | .column field => s.fieldError? field
  | .literal v => literalError? mode v
  | .binary op _ _ =>
    if op.token?.isSome then none else some (.compile (.unsupportedOperator op.name))
  | .unary _ _ => none
  | .aggregate _ (some field) => s.fieldError? field
  | .aggregate func none =>
    if func = .count then none else some (.compile (.unsupportedOperator func.name))

theorem failsWith_column (field : String) :
    (s.emitColumn field).FailsWith (s.fieldError? field) := by
  rw [emitColumn, fieldError?]
  by_cases hfield : s.Maps field
  · obtain ⟨i, rfl, hi⟩ := hfield.exists_isFirst
    rw [indexOf_of_isFirst hi, if_pos hfield]
    exact Emitter.failsWith_pure _
  · rw [indexOf_of_not_maps hfield, if_neg hfield]
    exact Emitter.failsWith_throw _

/-- **Writing an expression fails at its first part that has no text**, whatever the parameters
before it. -/
theorem failsWith_emit (mode : BindMode) (e : Expr) :
    (s.emit mode e).FailsWith (e.nodes.findSome? (s.nodeError? mode)) := by
  induction e with
  | column field => simpa [Expr.nodes, nodeError?, emit] using s.failsWith_column field
  | literal v => simpa [Expr.nodes, nodeError?, emit] using failsWith_literal mode v
  | binary op left right ihl ihr =>
    rw [emit, Expr.nodes, List.findSome?_cons, nodeError?]
    cases op.token? with
    | none => exact Emitter.failsWith_throw _
    | some token =>
      simp only [Option.isSome_some, if_true, List.findSome?_append]
      exact ihl.bind fun _ => ihr.bind_pure _
  | unary op operand ih =>
    rw [emit, Expr.nodes, List.findSome?_cons, nodeError?]
    exact ih.bind_pure _
  | aggregate func field =>
    rw [emit, Expr.nodes, List.findSome?_singleton]
    cases field with
    | some field => exact (s.failsWith_column field).bind_pure _
    | none =>
      rw [emitAggregate, nodeError?]
      split_ifs
      · exact Emitter.failsWith_pure _
      · exact Emitter.failsWith_throw _

/-- What an expression compiles to: the error of its first part that has none, or a text. -/
theorem compile_eq_error_iff {e : Expr} {error : Error} :
    s.compile e = .error error ↔ e.nodes.findSome? (s.nodeError? .inline) = some error := by
  rw [← s.failsWith_emit .inline e [], failure?_eq_some_iff]
  rfl

end Schema

end SqlRecord
