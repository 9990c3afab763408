import SqlRecord.Cursor
import SqlRecord.Record.Basic

/-!
# Records of a result

`Rows` reads a cursor as records of a schema. Result columns are matched to schema columns by name
once, so their order does not matter and unknown ones are skipped; a `NULL` cell leaves its column
at the default. A row that does not decode is an error of its own and reading goes on, while the
end of the cursor or a failure of it finishes the sequence for good.
-/

namespace SqlRecord

/-- Error types that include the errors of this library. -/
class OfError (ε : Type) where
  ofError : Error → ε

instance : OfError Error := ⟨id⟩

/-- A sequence of records of `s` read from a cursor. -/
structure Rows (s : Schema) (ε : Type) where
  cursor : Cursor ε
  bindings : List (Option s.Index)
  finished : Bool

namespace Rows

variable {s : Schema} {ε : Type}

/-- The records of a cursor. -/
def ofCursor (s : Schema) (cursor : Cursor ε) : Rows s ε :=
  ⟨cursor, cursor.names.map s.positionOf, false⟩

/-- The fields that the result's columns map to, in the order of the result. -/
def mappedFields (rows : Rows s ε) : List String :=
  (rows.bindings.filterMap id).map fun i => (s.column i).field

/-- Assigns cells to the columns they are bound to, from left to right. -/
def assignCells (r : Record s) : List (Value × Option s.Index) → Except Error (Record s)
  | [] => .ok r
  | (_, none) :: cells => assignCells r cells
  | (cell, some i) :: cells =>
    if cell.isNull then assignCells r cells
    else match r.assign i cell with
      | .ok r => assignCells r cells
      | .error e => .error (.decode (s.column i).name e)

/-- The record of a row of cells. -/
def materialize (bindings : List (Option s.Index)) (cells : List Value) :
    Except Error (Record s) :=
  assignCells (Record.default s) (cells.zip bindings)

/-- The next record or error, if the sequence has not ended, and the sequence after it. -/
def next [OfError ε] (rows : Rows s ε) : Option (Except ε (Record s)) × Rows s ε :=
  if rows.finished then (none, rows)
  else match rows.cursor.poll with
    | (.row cells, cursor) =>
      (some ((materialize rows.bindings cells).mapError OfError.ofError), { rows with cursor })
    | (.failure e, cursor) => (some (.error e), { rows with cursor, finished := true })
    | (.done, cursor) => (none, { rows with cursor, finished := true })

/-- What the first `n` calls of `next` give. -/
def calls [OfError ε] : Nat → Rows s ε → List (Option (Except ε (Record s)))
  | 0, _ => []
  | n + 1, rows => rows.next.1 :: calls n rows.next.2

/-- At most `n` records, up to the end or the first error, and the sequence after them. -/
def take [OfError ε] : Nat → Rows s ε → Except ε (List (Record s)) × Rows s ε
  | 0, rows => (.ok [], rows)
  | n + 1, rows =>
    match rows.next with
    | (none, rows) => (.ok [], rows)
    | (some (.error e), rows) => (.error e, rows)
    | (some (.ok r), rows) =>
      let (more, rows) := take n rows
      (more.map (r :: ·), rows)

/-- All records, or the first error. A cursor has no more records than events. -/
def fetchAll [OfError ε] (rows : Rows s ε) : Except ε (List (Record s)) :=
  (rows.take (rows.cursor.events.length + 1)).1

end Rows

end SqlRecord
