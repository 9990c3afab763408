import SqlRecord.Schema.Basic

/-!
# Records

A record of a schema gives every column a value of its type. `Record.read` turns the value of a
column into the value a cell stores, and `Record.assign` replaces it by what a cell holds; a cell
that does not convert changes nothing.
-/

namespace SqlRecord

/-- A value for each column of a schema. -/
def Record (s : Schema) : Type := (i : s.Index) → (s.column i).type.Carrier

namespace Record

variable {s : Schema}

/-- The record in which no field was set. -/
def default (s : Schema) : Record s := fun i => (s.column i).type.default

/-- The same record with another value in one column. -/
def set (r : Record s) (i : s.Index) (v : (s.column i).type.Carrier) : Record s :=
  fun j => if h : j = i then h ▸ v else r j

/-- The cell of a column. -/
def read (r : Record s) (i : s.Index) : Except CodecError Value := (s.column i).type.toValue (r i)

/-- The record with what a cell holds in one column. -/
def assign (r : Record s) (i : s.Index) (cell : Value) : Except CodecError (Record s) :=
  match (s.column i).type.ofValue cell with
  | .ok v => .ok (r.set i v)
  | .error e => .error e

end Record

end SqlRecord
