import SqlRecord.Expr.Compile

/-!
# Checking declarations

`Schema.problems` lists what is wrong with a schema, in declaration order, and
`Declaration.build` accepts a declaration exactly when it names a table and the list is empty.
What is checked is what a database would reject or silently misread: names, a second primary key,
a misplaced autoincrement, defaults and checks that cannot be written.
-/

namespace SqlRecord

namespace Column

/-- Whether autoincrement directly follows a primary key constraint. -/
def hasGeneratedKey (constraints : List Constraint) : Bool :=
  (constraints.zip constraints.tail).any (· == (.primaryKey, .autoincrement))

end Column

namespace Schema

variable (s : Schema)

/-- What is wrong with one constraint. -/
def constraintProblems (c : Column) : Constraint → List SchemaError
  | .default v =>
    match Literal.ofValue v with
    | .ok _ => []
    | .error e => [.invalidConstraint s.table c.name ("DEFAULT " ++ e.message)]
  | .check e =>
    if e.hasAggregate then
      [.invalidConstraint s.table c.name "CHECK cannot contain aggregates"]
    else match s.compile e with
      | .ok _ => []
      | .error (.schema e) => [e]
      | .error e => [.invalidConstraint s.table c.name ("CHECK " ++ e.message)]
  | _ => []

/-- What is wrong with a column whose name is in order; `keyed` tells that an earlier column is a
primary key. -/
def columnProblems (keyed : Bool) (c : Column) : List SchemaError :=
  (if c.isPrimaryKey && keyed then
    [.invalidConstraint s.table c.name "table already has a PRIMARY KEY"] else []) ++
  (if c.isAutoincrement && !(c.sqlType == .integer && Column.hasGeneratedKey c.constraints) then
    [.invalidConstraint s.table c.name "AUTOINCREMENT requires an INTEGER PRIMARY KEY"] else []) ++
  c.constraints.flatMap (s.constraintProblems c)

/-- What is wrong with columns, after columns with the names `seen`. A column with a bad or
repeated name is not looked at further. -/
def columnsProblems (seen : List (List Char)) (keyed : Bool) : List Column → List SchemaError
  | [] => []
  | c :: cs =>
    if !Identifier.isValid c.name then
      .invalidIdentifier c.name :: columnsProblems seen keyed cs
    else if seen.contains (foldCase c.name) then
      .duplicateColumn s.table c.name :: columnsProblems seen keyed cs
    else
      s.columnProblems keyed c ++
        columnsProblems (foldCase c.name :: seen) (keyed || c.isPrimaryKey) cs

/-- Everything that is wrong with a schema, in declaration order. -/
def problems : List SchemaError :=
  if !Identifier.isValid s.table then [.invalidIdentifier s.table]
  else if s.columns.isEmpty then [.noColumns s.table]
  else s.columnsProblems [] false s.columns

end Schema

namespace Declaration

/-- The schema of a declaration, or the first thing that is wrong with it. -/
def build (d : Declaration) : Except SchemaError Schema :=
  match d.table with
  | none => .error (.missingTableName d.record)
  | some table =>
    let s : Schema := ⟨d.record, table, d.columns⟩
    match s.problems with
    | [] => .ok s
    | e :: _ => .error e

end Declaration

end SqlRecord
