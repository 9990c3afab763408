import SqlRecord.Identifier
import SqlRecord.Store.Term

/-!
# Stored tables

A stored table has columns, the rules that its rows keep, and the rows themselves, each with a
number of its own and in the order of these numbers. A column may give the number, and then holds
it; otherwise rows are counted on. Adding and changing rows checks every rule and leaves the table
as it was where one is violated.
-/

namespace SqlRecord

namespace Store

/-- A column of a stored table. -/
structure StoredColumn where
  name : String
  affinity : Affinity
  notNull : Bool
  default : Sql.Term

/-- A row and its number. -/
structure Row where
  number : CellInt
  cells : List Cell

/-- A stored table. `key` is the position of the column that holds the rows' numbers, and
`greatest` the greatest number ever given in a table whose numbers are never used again. -/
structure StoredTable where
  name : String
  definition : String
  columns : List StoredColumn
  key : Option Nat
  isCounted : Bool
  uniques : List (List Nat)
  checks : List Sql.Term
  greatest : Int
  rows : List Row

namespace StoredTable

variable (t : StoredTable)

/-- The position of a column by name. -/
def position? (name : String) : Option Nat := t.columns.findIdx? (sameName ·.name name)

/-- The scope of a row. -/
def scope (placeholder : String → Cell) (cells : List Cell) : Scope where
  column name := do
    let i ← t.position? name
    return (cells[i]?.getD .null, (t.columns[i]?.map (·.affinity)).getD .keep)
  placeholder := placeholder

/-! ### Definitions -/

/-- The positions of columns by name, if all are known. -/
def positions? (columns : List Sql.ColumnDefinition) (names : List String) : Option (List Nat) :=
  names.mapM fun name => columns.findIdx? (sameName ·.name name)

/-- The default that the rules of a column ask for, the last one if there are several. -/
def defaultOf (rules : List Sql.ColumnRule) : Sql.Term :=
  (rules.reverse.findSome? fun
    | .default e => some e
    | _ => none).getD (.constant .null)

/-- A primary key of one column may make the column the number of its rows: the type has to be
`INTEGER`, and the order not descending. -/
def keyPosition (d : Sql.TableDefinition) (keys : List (List Nat × Bool)) : Option Nat :=
  match keys with
  | [([i], false)] => match d.columns[i]? with
    | some c => if sameName c.type "INTEGER" then some i else none
    | none => none
  | _ => none

/-- The primary keys that a definition asks for, as positions and whether they descend. -/
def primaryKeys (d : Sql.TableDefinition) : Option (List (List Nat × Bool)) := do
  let ofColumns := d.columns.zipIdx.flatMap fun (c, i) => c.rules.filterMap fun
    | .primaryKey descending _ => some ([i], descending)
    | _ => none
  let ofTable ← d.rules.filterMapM fun
    | .primaryKey names => (positions? d.columns names).map fun is => some (is, false)
    | _ => some none
  return ofColumns ++ ofTable

/-- The sets of columns that must be unique, besides primary keys. -/
def uniqueSets (d : Sql.TableDefinition) : Option (List (List Nat)) := do
  let ofColumns := d.columns.zipIdx.flatMap fun (c, i) => c.rules.filterMap fun
    | .unique => some [i]
    | _ => none
  let ofTable ← d.rules.filterMapM fun
    | .unique names => (positions? d.columns names).map some
    | _ => some none
  return ofColumns ++ ofTable

/-- The conditions that every row must meet. -/
def checksOf (d : Sql.TableDefinition) : List Sql.Term :=
  (d.columns.flatMap fun c => c.rules.filterMap fun
    | .check e => some e
    | _ => none) ++
  d.rules.filterMap fun
    | .check e => some e
    | _ => none

/-- Whether some column counts its rows on without ever using a number again. -/
def asksCounting (d : Sql.TableDefinition) : Bool :=
  d.columns.any fun c => c.rules.any fun
    | .primaryKey _ autoincrement => autoincrement
    | _ => false

/-- Whether every name in a list occurs once. -/
def areDistinct : List String → Bool
  | [] => true
  | name :: names => !names.any (sameName name) && areDistinct names

/-- The empty table of a definition, unless the definition contradicts itself. -/
def ofDefinition? (d : Sql.TableDefinition) : Option StoredTable := do
  let keys ← primaryKeys d
  let key := keyPosition d keys
  let uniques ← uniqueSets d
  let checks := checksOf d
  let isKnown := fun name => d.columns.any (sameName ·.name name)
  let isReserved := "sqlite_".toList.isPrefixOf (foldCase d.name)
  if isReserved || d.columns.isEmpty || !areDistinct (d.columns.map (·.name)) ||
      1 < keys.length || (asksCounting d && key.isNone) ||
      !checks.all (fun e => e.columns.all isKnown) then none
  else
    let columns := d.columns.map fun c =>
      let notNull := c.rules.any fun
        | .notNull => true
        | _ => false
      (⟨c.name, Affinity.ofType c.type, notNull, defaultOf c.rules⟩ : StoredColumn)
    return ⟨d.name, "CREATE TABLE " ++ d.text, columns, key, asksCounting d,
      uniques ++ if key.isSome then [] else keys.map (·.1), checks, 0, []⟩

/-! ### Rules -/

/-- The number for a row that brings none, if there is one left: one more than the greatest in the
table, or ever in it where numbers are not used again. -/
def nextNumber? : Option CellInt :=
  let last := (t.rows.getLast?.map (·.number.val)).getD 0
  BoundedInt.ofInt? _ _ ((if t.isCounted then max last t.greatest else last) + 1)

/-- Cells after the affinities of their columns. -/
def settle (cells : List Cell) : List Cell :=
  t.columns.zipWith (fun c cell => c.affinity.apply cell) cells

/-- The row of settled cells: the key column gives the number, if it holds a whole number, or takes
the next one, if it is empty. -/
def rowOf? (cells : List Cell) : Option Row := do
  match t.key with
  | none => return ⟨← t.nextNumber?, cells⟩
  | some i => match cells[i]? with
    | some (.integer n) => return ⟨n, cells⟩
    | some .null =>
      let n ← t.nextNumber?
      return ⟨n, cells.set i (.integer n)⟩
    | _ => none

/-- The columns with the cells of a row. -/
def cellsOf (row : Row) : List (StoredColumn × Cell) := t.columns.zip row.cells

/-- Whether a row fills every column that must be filled. The key column always is. -/
def isFilled (row : Row) : Bool := (t.cellsOf row).all fun (c, cell) => !c.notNull || cell != .null

/-- Whether a row violates no check. -/
def passesChecks (row : Row) : Bool :=
  t.checks.all fun e => ((t.scope (fun _ => .null) row.cells).eval e).truth != some false

/-- Whether two rows agree in some columns, all of them filled. -/
def agree (a b : Row) (columns : List Nat) : Bool :=
  columns.all fun i => match a.cells[i]?, b.cells[i]? with
    | some x, some y => x != .null && Cell.order x y == .eq
    | _, _ => false

/-- Whether two rows cannot be in the table together. -/
def clash (a b : Row) : Bool := a.number == b.number || t.uniques.any (agree a b)

/-- The rows with one more, in the order of the numbers. -/
def place (row : Row) : List Row → List Row
  | [] => [row]
  | r :: rows => if row.number.val < r.number.val then row :: r :: rows else r :: place row rows

/-! ### Changes -/

/-- The cells of a row where the given ones are missing: the defaults. -/
def withDefaults (cells : List (Option Cell)) : List Cell :=
  t.columns.zipWith (fun c cell => cell.getD ((Scope.ofPlaceholders fun _ => .null).eval c.default))
    cells

/-- Cells in which the columns that must be filled, and are not, take their defaults. -/
def fill (cells : List Cell) : List Cell :=
  t.columns.zipWith (fun c cell =>
    if c.notNull && cell == .null then (Scope.ofPlaceholders fun _ => .null).eval c.default
    else cell) cells

/-- The table with one more row, if that breaks no rule. A row that replaces others takes the place
of all that it clashes with, and the defaults where it must not be empty. -/
def insert? (replaces : Bool) (cells : List (Option Cell)) : Option StoredTable := do
  let cells := t.withDefaults cells
  let row ← t.rowOf? (t.settle (if replaces then t.fill cells else cells))
  let others := t.rows.filter fun r => !t.clash row r
  if !t.isFilled row || !t.passesChecks row then none
  else if others.length = t.rows.length || replaces then
    return { t with rows := place row others, greatest := max t.greatest row.number.val }
  else none

/-- The table with one row changed, if that breaks no rule. -/
def change? (old : Row) (cells : List Cell) : Option StoredTable := do
  let others := t.rows.filter fun r => r.number != old.number
  let cells := t.settle cells
  let number ← match t.key with
    | none => some old.number
    | some i => match cells[i]? with
      | some (.integer n) => some n
      | _ => none
  let row : Row := ⟨number, cells⟩
  if !t.isFilled row || !t.passesChecks row || others.any (t.clash row) then none
  else return { t with rows := place row others }

end StoredTable

end Store

end SqlRecord
