import SqlRecord.Value

/-!
# Expressions

The small language of predicates: fields, constants, operators and aggregate calls. An expression
names record fields, not columns; it becomes SQL text only together with a schema.
-/

namespace SqlRecord

/-- Operators between two operands. SQL has no spelling for `bitXor` and `power`. -/
inductive BinaryOp where
  | add
  | subtract
  | multiply
  | divide
  | modulo
  | eq
  | ne
  | gt
  | ge
  | lt
  | le
  | and
  | or
  | bitAnd
  | bitOr
  | shiftLeft
  | shiftRight
  | bitXor
  | power
  deriving DecidableEq

namespace BinaryOp

/-- The SQL spelling of an operator, if it has one. -/
def token? : BinaryOp → Option String
  | add => some "+"
  | subtract => some "-"
  | multiply => some "*"
  | divide => some "/"
  | modulo => some "%"
  | eq => some "="
  | ne => some "!="
  | gt => some ">"
  | ge => some ">="
  | lt => some "<"
  | le => some "<="
  | and => some "AND"
  | or => some "OR"
  | bitAnd => some "&"
  | bitOr => some "|"
  | shiftLeft => some "<<"
  | shiftRight => some ">>"
  | bitXor | power => none

/-- The name of an operator in messages. -/
def name : BinaryOp → String
  | add => "add"
  | subtract => "subtract"
  | multiply => "multiply"
  | divide => "divide"
  | modulo => "modulo"
  | eq => "equal"
  | ne => "not equal"
  | gt => "greater than"
  | ge => "greater than or equal"
  | lt => "less than"
  | le => "less than or equal"
  | and => "and"
  | or => "or"
  | bitAnd => "bitwise and"
  | bitOr => "bitwise or"
  | shiftLeft => "shift left"
  | shiftRight => "shift right"
  | bitXor => "exclusive or"
  | power => "power"

def isComparison : BinaryOp → Bool
  | eq | ne | gt | ge | lt | le => true
  | _ => false

def isLogical : BinaryOp → Bool
  | and | or => true
  | _ => false

end BinaryOp

/-- Operators before one operand. -/
inductive UnaryOp where
  | not
  | negate
  | bitNot
  deriving DecidableEq

namespace UnaryOp

/-- The SQL spelling of an operator, with the blank that a word needs after it. -/
def token : UnaryOp → String
  | not => "NOT "
  | negate => "-"
  | bitNot => "~"

end UnaryOp

/-- Aggregate functions. -/
inductive Aggregate where
  | count
  | sum
  | avg
  | min
  | max
  deriving DecidableEq

namespace Aggregate

def name : Aggregate → String
  | count => "COUNT"
  | sum => "SUM"
  | avg => "AVG"
  | min => "MIN"
  | max => "MAX"

end Aggregate

/-- Expressions over the fields of a record. An aggregate without a field is over all rows. -/
inductive Expr where
  | column (field : String)
  | literal (value : Value)
  | binary (op : BinaryOp) (left right : Expr)
  | unary (op : UnaryOp) (operand : Expr)
  | aggregate (func : Aggregate) (field : Option String)
  deriving DecidableEq

namespace Expr

/-- Whether an aggregate occurs anywhere. -/
def hasAggregate : Expr → Bool
  | column _ | literal _ => false
  | binary _ left right => left.hasAggregate || right.hasAggregate
  | unary _ operand => operand.hasAggregate
  | aggregate _ _ => true

/-- Whether an expression is the constant `NULL`. -/
def isNull : Expr → Bool
  | literal .null => true
  | _ => false

/-- Equality that compares the reals among the constants as numbers. -/
def numericEq : Expr → Expr → Bool
  | column f, column g => f == g
  | literal v, literal w => v.numericEq w
  | binary op l r, binary op' l' r' => op == op' && l.numericEq l' && r.numericEq r'
  | unary op e, unary op' e' => op == op' && e.numericEq e'
  | aggregate f x, aggregate f' x' => f == f' && x == x'
  | _, _ => false

end Expr

end SqlRecord
