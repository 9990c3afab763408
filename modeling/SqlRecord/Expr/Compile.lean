import SqlRecord.Encoding
import SqlRecord.Schema.Basic

/-!
# SQL text of expressions

`Schema.emit` writes an expression as SQL text over a schema. Parentheses are fixed by the shape of
the expression: arithmetic stands in parentheses of its own, comparisons and `AND`/`OR` stand
bare, and an operand that is a comparison, a logical expression or a `NOT` is put in parentheses.
The text therefore never depends on the precedence of operators. Constants are written as
literals, or bound to placeholders `:p1`, `:p2`, … numbered by the length of the parameter list.
-/

namespace SqlRecord

/-- Computations that append to a parameter list and may fail; the list survives a failure. -/
abbrev Emitter := ExceptT Error (StateM (List Parameter))

namespace Expr

/-- Whether an expression is put in parentheses as an operand. -/
def needsParentheses : Expr → Bool
  | binary op _ _ => op.isComparison || op.isLogical
  | unary op _ => op == .not
  | _ => false

end Expr

/-- A text in parentheses. -/
def parenthesize (text : String) : String := "(" ++ text ++ ")"

/-- The text of an operand, given the text of its expression. -/
def operandText (e : Expr) (text : String) : String :=
  if e.needsParentheses then parenthesize text else text

/-- The spelling of an operator between two operands; equality with `NULL` is `IS`. -/
def binaryToken (op : BinaryOp) (token : String) (left right : Expr) : String :=
  if left.isNull || right.isNull then
    match op with
    | .eq => "IS"
    | .ne => "IS NOT"
    | _ => token
  else token

/-- The text of an operator with the texts of its operands. -/
def binaryText (op : BinaryOp) (token left right : String) : String :=
  let text := left ++ " " ++ token ++ " " ++ right
  if op.isComparison || op.isLogical then text else parenthesize text

/-- The text of an operator before an operand. Two minus signs in a row would start a comment, so
an operand that starts with one is put in parentheses. -/
def unaryText (op : UnaryOp) (operand : String) : String :=
  if op = .negate ∧ operand.toList.head? = some '-' then "-(" ++ operand ++ ")"
  else op.token ++ operand

/-- The text of a constant. -/
def emitLiteral (mode : BindMode) (v : Value) : Emitter String :=
  match v with
  | .blob _ => throw (.compile (.unsupportedLiteral SqlType.blob.name))
  | .null => return "NULL"
  | v => match mode with
    | .inline => match Literal.ofValue v with
      | .ok text => return text
      | .error e => throw (.codec e)
    | .parameters => do
      let params ← get
      let name := ":p" ++ natText (params.length + 1)
      set (params ++ [⟨name, v⟩])
      return name

namespace Schema

variable (s : Schema)

/-- The name of the column that maps a field. -/
def emitColumn (field : String) : Emitter String :=
  match s.indexOf field with
  | .ok i => return (s.column i).name
  | .error e => throw (.schema e)

/-- The text of an aggregate call; only `COUNT` can do without a field. -/
def emitAggregate (func : Aggregate) : Option String → Emitter String
  | some field => return func.name ++ parenthesize (← s.emitColumn field)
  | none =>
    if func = .count then return "COUNT(*)"
    else throw (.compile (.unsupportedOperator func.name))

/-- The text of an expression, in the given mode. -/
def emit (mode : BindMode) : Expr → Emitter String
  | .column field => s.emitColumn field
  | .literal v => emitLiteral mode v
  | .binary op left right =>
    match op.token? with
    | none => throw (.compile (.unsupportedOperator op.name))
    | some token => do
      let l ← emit mode left
      let r ← emit mode right
      return binaryText op (binaryToken op token left right) (operandText left l)
        (operandText right r)
  | .unary op e => do
    let text ← emit mode e
    return unaryText op (operandText e text)
  | .aggregate func field => s.emitAggregate func field

/-- The text of an expression with its constants written as literals. -/
def compile (e : Expr) : Except Error String := ((s.emit .inline e).run.run []).1

/-- The text of an expression with its constants bound: the text, or the error, and the parameter
list with the constants appended that were met. -/
def compileBound (e : Expr) (params : List Parameter) : Except Error String × List Parameter :=
  (s.emit .parameters e).run.run params

/-- The text of an expression in the given mode, with the parameter list after it. -/
def compileIn (mode : BindMode) (e : Expr) (params : List Parameter) :
    Except Error String × List Parameter :=
  match mode with
  | .inline => (s.compile e, params)
  | .parameters => s.compileBound e params

end Schema

end SqlRecord
