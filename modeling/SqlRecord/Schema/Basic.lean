import SqlRecord.Error
import SqlRecord.Expr.Basic
import SqlRecord.Field.Basic
import SqlRecord.Identifier

/-!
# Schemas

A schema lays a record out as a table: a table name and columns, each for one field with its type
and constraints. Columns are referred to by their index. `indexOf` finds the column of a field,
`resolve` those of a list of fields, and `writable` those that a command may assign. Two columns
may map the same field name; a field then means the first of them.
-/

namespace SqlRecord

/-- Constraints of a column, written in the order they are declared. -/
inductive Constraint where
  | primaryKey
  | unique
  | notNull
  | default (value : Value)
  | check (predicate : Expr)
  | autoincrement
  deriving DecidableEq

/-- A column: its SQL name, the field it maps, the field's type and the constraints. -/
structure Column where
  name : String
  field : String
  type : FieldType
  constraints : List Constraint

namespace Column

def sqlType (c : Column) : SqlType := c.type.sqlType

def isPrimaryKey (c : Column) : Bool := c.constraints.contains .primaryKey

/-- Columns whose values the database generates; no command assigns them. -/
def isAutoincrement (c : Column) : Bool := c.constraints.contains .autoincrement

end Column

/-- A record type laid out as a table. -/
structure Schema where
  record : String
  table : String
  columns : List Column

namespace Schema

variable (s : Schema)

/-- Indices of the columns of a schema. -/
abbrev Index : Type := Fin s.columns.length

/-- The column at an index. -/
def column (i : s.Index) : Column := s.columns.get i

/-- The indices of all columns, in declaration order. -/
def indices : List s.Index := List.finRange s.columns.length

/-- The first column that maps a field. -/
def indexOf? (field : String) : Option s.Index := s.columns.findFinIdx? (·.field == field)

/-- The first column that maps a field, or the error that none does. -/
def indexOf (field : String) : Except SchemaError s.Index :=
  match s.indexOf? field with
  | some i => .ok i
  | none => .error (.unmappedField s.table field)

/-- The first column with an SQL name, ignoring case. -/
def positionOf (name : String) : Option s.Index := s.columns.findFinIdx? (sameName ·.name name)

/-- The first primary key column. -/
def primaryKey? : Option Column := s.columns.find? Column.isPrimaryKey

/-- Resolves fields one after the other; `done` holds the columns found so far, newest first. -/
def resolveAfter (done : List s.Index) : List String → Except SchemaError (List s.Index)
  | [] => .ok done.reverse
  | field :: fields =>
    match s.indexOf field with
    | .error e => .error e
    | .ok i =>
      if done.any fun j => (s.column j).field == (s.column i).field then
        .error (.duplicateColumn s.table (s.column i).name)
      else resolveAfter (i :: done) fields

/-- The columns of a list of fields, in its order. The list must not be empty, and every field must
be mapped and named once. -/
def resolve (fields : List String) : Except SchemaError (List s.Index) :=
  if fields.isEmpty then .error (.emptyFieldList s.table) else s.resolveAfter [] fields

/-- The columns that an insert or update may assign: those of the fields, none of them
autoincrement, or every other column where no fields are given. -/
def writable : Option (List String) → Except SchemaError (List s.Index)
  | none => .ok (s.indices.filter fun i => !(s.column i).isAutoincrement)
  | some fields =>
    match s.resolve fields with
    | .error e => .error e
    | .ok columns =>
      match columns.find? fun i => (s.column i).isAutoincrement with
      | some i => .error (.immutableColumn s.table (s.column i).name)
      | none => .ok columns

end Schema

/-- A record's declaration, before it is checked. -/
structure Declaration where
  record : String
  table : Option String
  columns : List Column

end SqlRecord
