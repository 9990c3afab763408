import SqlRecord.Store.Table
import SqlRecord.Sql.Parser

/-!
# Running statements

A store is a collection of tables. `Store.admits` tells whether the names of a statement can be
resolved in it, and `Store.run` runs one that it admits: the rows it gives, if it does not fail,
and the store after it. A statement that fails changes no table.
-/

namespace SqlRecord

/-- The tables of a database, and how many rows the last change of rows changed. -/
structure Store where
  tables : List Store.StoredTable
  changes : Nat

namespace Store

def empty : Store := ⟨[], 0⟩

instance : Inhabited Store := ⟨empty⟩

variable (s : Store)

/-- The table of a name. -/
def find? (name : String) : Option StoredTable := s.tables.find? (sameName ·.name name)

/-- The text that defined the table of a name. -/
def definition? (name : String) : Option String := (s.find? name).map (·.definition)

/-- The store with another state of one of its tables, after a change of some rows. -/
def change (t : StoredTable) (changes : Nat) : Store :=
  ⟨s.tables.map fun u => if sameName u.name t.name then t else u, changes⟩

/-! ### Names -/

/-- Whether an expression refers to no column but those of a table, if there is one. -/
def knows (t : Option StoredTable) (e : Sql.Term) : Bool :=
  e.columns.all fun name => (t.bind (·.position? name)).isSome

/-- Whether the parts of a query refer to what there is. -/
def admitsSelection (t : Option StoredTable) (q : Sql.Selection) : Bool :=
  let results := match q.results with
    | .all => t.isSome
    | .count _ => true
    | .terms items => items.all fun (e, _) => knows t e
  results && q.condition.all (knows t) && q.ordering.all (fun (e, _) => knows t e) &&
    q.limit.all (knows none) && q.offset.all (knows none)

/-- Whether every name in a statement stands for something, and every row to insert has as many
values as columns. -/
def admits : Sql.Statement → Bool
  | .createTable lenient d =>
    match s.find? d.name with
    | some _ => lenient
    | none => (StoredTable.ofDefinition? d).isSome
  | .dropTable lenient table => lenient || (s.find? table).isSome
  | .insert _ table columns rows =>
    match s.find? table with
    | none => false
    | some t =>
      let width := (columns.map List.length).getD t.columns.length
      (columns.getD []).all (fun name => (t.position? name).isSome) &&
        (rows.getD []).all fun row => row.length == width && row.all (knows none)
  | .select q =>
    match q.table with
    | none => admitsSelection none q
    | some table => match s.find? table with
      | none => false
      | some t => admitsSelection (some t) q
  | .update table assignments condition =>
    match s.find? table with
    | none => false
    | some t =>
      assignments.all (fun (column, e) => (t.position? column).isSome && knows (some t) e) &&
        condition.all (knows (some t))
  | .delete table condition =>
    match s.find? table with
    | none => false
    | some t => condition.all (knows (some t))

/-! ### Queries -/

/-- The names of the columns of a result: those of columns as declared, other expressions as they
are written. -/
def resultNames (t : Option StoredTable) : Sql.Results → List String
  | .all => (t.map fun t => t.columns.map (·.name)).getD []
  | .count text => [text]
  | .terms items => items.map fun (e, text) => match e, t with
    | .column name, some t =>
      (((t.position? name).bind (t.columns[·]?)).map (·.name)).getD text
    | _, _ => text

/-- The order of two rows by an ordering; the first term that tells them apart decides. -/
def compareRows (scope : List Cell → Scope) :
    List (Sql.Term × Bool) → List Cell → List Cell → Ordering
  | [], _, _ => .eq
  | (e, descending) :: terms, a, b =>
    let o := Cell.order ((scope a).eval e) ((scope b).eval e)
    (if descending then o.swap else o).then (compareRows scope terms a b)

/-- The rows without those that equal an earlier one. -/
def distinctRows (rows : List (List Cell)) : List (List Cell) :=
  let equal := fun a b : List Cell =>
    a.length == b.length && (a.zip b).all fun (x, y) => Cell.order x y == .eq
  (rows.foldl (fun kept row => if kept.any (equal row) then kept else row :: kept) []).reverse

/-- The whole number that a bound of a window denotes; a negative one stands for none. -/
def windowBound? (scope : Scope) (bound : Option Sql.Term) : Option (Option Nat) :=
  match bound with
  | none => some none
  | some e => do
    let i ← (← Affinity.number? (scope.eval e)).toInteger?
    return if i.val < 0 then none else some i.val.toNat

/-- The rows of a query over the rows of a table; without a table there is one row without
cells. -/
def select? (t : Option StoredTable) (placeholder : String → Cell) (q : Sql.Selection) :
    Option (List (List Cell)) := do
  let scope := fun cells => match t with
    | some t => t.scope placeholder cells
    | none => .ofPlaceholders placeholder
  let source : List (List Cell) := match t with
    | some t => t.rows.map (·.cells)
    | none => [[]]
  let limit ← windowBound? (.ofPlaceholders placeholder) q.limit
  let offset ← windowBound? (.ofPlaceholders placeholder) q.offset
  let met := source.filter fun cells => (scope cells).meets q.condition
  let sorted := met.mergeSort fun a b => compareRows scope q.ordering a b != .gt
  let rows := match q.results with
    | .all => sorted
    | .count _ => [[Cell.ofNumber (.ofText false (Digits.ofNat met.length))]]
    | .terms items => sorted.map fun cells => items.map fun (e, _) => (scope cells).eval e
  let rows := (if q.distinct then distinctRows rows else rows).drop (offset.getD 0)
  return (limit.map rows.take).getD rows

/-! ### Changes -/

/-- The cells of a row to insert, in the order of the table's columns. -/
def arrange (t : StoredTable) (columns : Option (List String)) (cells : List Cell) :
    List (Option Cell) :=
  match columns with
  | none => cells.map some
  | some names => t.columns.map fun c => (names.zip cells).findSome? fun (name, cell) =>
    if sameName name c.name then some cell else none

/-- The table with further rows, if all of them can be inserted. -/
def insertAll? (t : StoredTable) (replaces : Bool) (rows : List (List (Option Cell))) :
    Option StoredTable :=
  rows.foldlM (fun t row => t.insert? replaces row) t

/-- The cells of a row after assignments, all of which see the row as it was. -/
def assigned (t : StoredTable) (placeholder : String → Cell)
    (assignments : List (String × Sql.Term)) (cells : List Cell) : List Cell :=
  assignments.foldl (fun done (column, e) => match t.position? column with
    | some i => done.set i ((t.scope placeholder cells).eval e)
    | none => done) cells

/-- The table in which the rows that meet a condition are assigned one after the other, if all of
them can be. -/
def update? (t : StoredTable) (placeholder : String → Cell)
    (assignments : List (String × Sql.Term)) (met : List Row) : Option StoredTable :=
  met.foldlM (fun t row => t.change? row (assigned t placeholder assignments row.cells)) t

/-- The rows of a table that meet a condition. -/
def meeting (t : StoredTable) (placeholder : String → Cell) (condition : Option Sql.Term) :
    List Row :=
  t.rows.filter fun row => (t.scope placeholder row.cells).meets condition

/-- The store after a change of a table's rows; one that fails counts as no change. -/
def commit (t : Option StoredTable) (changes : Nat) : Option (List (List Cell)) × Store :=
  match t with
  | some t => (some [], s.change t changes)
  | none => (none, { s with changes := 0 })

/-- Runs a statement: the rows it gives, unless it fails, and the store after it. -/
def run (placeholder : String → Cell) : Sql.Statement → Option (List (List Cell)) × Store
  | .createTable _ d =>
    match s.find? d.name, StoredTable.ofDefinition? d with
    | some _, _ => (some [], s)
    | none, some t => (some [], { s with tables := s.tables ++ [t] })
    | none, none => (none, s)
  | .dropTable _ table =>
    (some [], { s with tables := s.tables.filter fun t => !sameName t.name table })
  | .insert replaces table columns rows =>
    match s.find? table with
    | none => (none, s)
    | some t =>
      let scope := Scope.ofPlaceholders placeholder
      let rows := match rows with
        | none => [t.columns.map fun _ => none]
        | some rows => rows.map fun row => arrange t columns (row.map scope.eval)
      s.commit (insertAll? t replaces rows) rows.length
  | .select q => (select? (q.table.bind s.find?) placeholder q, s)
  | .update table assignments condition =>
    match s.find? table with
    | none => (none, s)
    | some t =>
      let met := meeting t placeholder condition
      s.commit (update? t placeholder assignments met) met.length
  | .delete table condition =>
    match s.find? table with
    | none => (none, s)
    | some t =>
      let met := meeting t placeholder condition
      let kept := t.rows.filter fun r => !met.any (·.number == r.number)
      s.commit (some { t with rows := kept }) met.length

end Store

end SqlRecord
