import SqlRecord.Store.Cell

/-!
# SQL statements

The statements that a store runs, as trees: definitions of tables, changes of rows and queries of
one table. Conditions compare columns, placeholders and constants, and join comparisons.
-/

namespace SqlRecord

namespace Sql

/-- The ways to compare by order. -/
inductive Comparison where
  | eq
  | ne
  | lt
  | le
  | gt
  | ge
  deriving DecidableEq

namespace Comparison

/-- Whether an order satisfies a comparison. -/
def holds : Comparison → Ordering → Bool
  | eq, o => o == .eq
  | ne, o => o != .eq
  | lt, o => o == .lt
  | le, o => o != .gt
  | gt, o => o == .gt
  | ge, o => o != .lt

end Comparison

/-- An expression over the cells of a row. `same` also compares with nothing. -/
inductive Term where
  | constant (c : Store.Cell)
  | placeholder (name : String)
  | column (name : String)
  | asText (e : Term)
  | compare (op : Comparison) (a b : Term)
  | same (negated : Bool) (a b : Term)
  | not (e : Term)
  | and (a b : Term)
  | or (a b : Term)
  deriving DecidableEq

namespace Term

/-- The names of the columns an expression refers to. -/
def columns : Term → List String
  | constant _ => []
  | placeholder _ => []
  | column name => [name]
  | asText e => e.columns
  | compare _ a b => a.columns ++ b.columns
  | same _ a b => a.columns ++ b.columns
  | not e => e.columns
  | and a b => a.columns ++ b.columns
  | or a b => a.columns ++ b.columns

end Term

/-! ### Definitions -/

/-- What a column definition asks of a column. -/
inductive ColumnRule where
  | primaryKey (descending autoincrement : Bool)
  | unique
  | notNull
  | default (value : Term)
  | check (condition : Term)

/-- A column of a table definition; its type is as it was written. -/
structure ColumnDefinition where
  name : String
  type : String
  rules : List ColumnRule

/-- What a table definition asks of several columns. -/
inductive TableRule where
  | primaryKey (columns : List String)
  | unique (columns : List String)
  | check (condition : Term)

/-- A table definition, and its text from the name of the table on. -/
structure TableDefinition where
  name : String
  text : String
  columns : List ColumnDefinition
  rules : List TableRule

/-! ### Statements -/

/-- What a query gives for each row: all columns, or expressions with their texts. A count gives
one row for all. -/
inductive Results where
  | all
  | count (text : String)
  | terms (items : List (Term × String))

/-- A query of at most one table. -/
structure Selection where
  distinct : Bool
  results : Results
  table : Option String
  condition : Option Term
  ordering : List (Term × Bool)
  limit : Option Term
  offset : Option Term

/-- A statement. Rows to insert are none for one row of defaults. -/
inductive Statement where
  | createTable (lenient : Bool) (definition : TableDefinition)
  | dropTable (lenient : Bool) (table : String)
  | insert (replaces : Bool) (table : String) (columns : Option (List String))
      (rows : Option (List (List Term)))
  | select (q : Selection)
  | update (table : String) (assignments : List (String × Term)) (condition : Option Term)
  | delete (table : String) (condition : Option Term)

end Sql

end SqlRecord
