import SqlRecord.Sql.Statement

/-!
# Evaluating terms

The cell that an expression denotes for a row. Comparisons with nothing are unknown, and so are
the connectives as far as an unknown side leaves them open; only `IS` always answers. A condition
is met when it is true, and a check is violated when it is false.
-/

namespace SqlRecord

namespace Store

/-- What names stand for: columns, with their affinities, and placeholders. -/
structure Scope where
  column : String → Option (Cell × Affinity)
  placeholder : String → Cell

namespace Scope

/-- The affinity of an expression, if it has one. -/
def affinity? (scope : Scope) : Sql.Term → Option Affinity
  | .column name => (scope.column name).map (·.2)
  | .asText _ => some .text
  | _ => none

/-- The conjunction of two truth values. -/
def conj : Option Bool → Option Bool → Option Bool
  | some false, _ => some false
  | _, some false => some false
  | some true, some true => some true
  | _, _ => none

/-- The disjunction of two truth values. -/
def disj : Option Bool → Option Bool → Option Bool
  | some true, _ => some true
  | _, some true => some true
  | some false, some false => some false
  | _, _ => none

/-- The cell that an expression denotes. -/
def eval (scope : Scope) : Sql.Term → Cell
  | .constant c => c
  | .placeholder name => scope.placeholder name
  | .column name => ((scope.column name).map (·.1)).getD .null
  | .asText e => (scope.eval e).asText
  | .compare op a b =>
    let x := scope.eval a
    let y := scope.eval b
    if x = .null ∨ y = .null then .null else .ofTruth (some (op.holds (order a b x y)))
  | .same negated a b =>
    let equal := order a b (scope.eval a) (scope.eval b) == .eq
    .ofTruth (some (equal != negated))
  | .not e => .ofTruth ((scope.eval e).truth.map Bool.not)
  | .and a b => .ofTruth (conj (scope.eval a).truth (scope.eval b).truth)
  | .or a b => .ofTruth (disj (scope.eval a).truth (scope.eval b).truth)
where
  order (a b : Sql.Term) (x y : Cell) : Ordering :=
    let own := scope.affinity? a
    let other := scope.affinity? b
    Cell.order ((Affinity.forComparison own other).apply x)
      ((Affinity.forComparison other own).apply y)

/-- Whether a condition is met; none is always met. -/
def meets (scope : Scope) (condition : Option Sql.Term) : Bool :=
  match condition with
  | none => true
  | some e => (scope.eval e).truth == some true

/-- The scope without columns. -/
def ofPlaceholders (placeholder : String → Cell) : Scope := ⟨fun _ => none, placeholder⟩

end Scope

end Store

end SqlRecord
