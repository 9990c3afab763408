import SqlRecord.Command.Basic
import SqlRecord.Expr.Compile
import SqlRecord.Record.Basic

/-!
# Building commands

A command begins with an `Entry` and grows by clauses. Fields are resolved to columns, the values
of assigned columns are encoded in the table's bind mode, and conditions are compiled in the same
mode, so that every value ends up either in the text or among the parameters. A clause that the
stage does not allow is a fault of the caller and told apart from an error.
-/

namespace SqlRecord

/-- A schema together with the way values reach its statements. -/
structure Table where
  schema : Schema
  mode : BindMode

/-- How a command begins. Fields are none for all assignable columns, or for all columns of a
query. -/
inductive Entry where
  | insert (verb : InsertVerb) (fields : Option (List String))
  | select (fields : Option (List String))
  | count
  | update (fields : Option (List String))
  | delete

/-- What a command can be extended by. -/
inductive Clause where
  | distinct
  | filter (predicate : Expr)
  | groupBy (fields : List String)
  | having (predicate : Expr)
  | orderBy (fields : List String) (direction : Direction)
  | limit (count offset : Nat)

namespace Clause

def kind : Clause → ClauseKind
  | distinct => .distinct
  | filter _ => .filter
  | groupBy _ => .groupBy
  | having _ => .having
  | orderBy .. => .orderBy
  | limit .. => .limit

end Clause

/-- Why a step of building failed: the stage does not allow it, or the step itself is wrong. -/
inductive BuildFault where
  | illegal (stage : Stage)
  | failed (cause : Error)
  deriving DecidableEq

namespace Table

variable (t : Table)

/-- The columns of a list of fields, by name. -/
def columnNames (fields : List String) : Except Error (List String) :=
  match t.schema.resolve fields with
  | .ok columns => .ok (columns.map fun i => (t.schema.column i).name)
  | .error e => .error (.schema e)

/-- The value of a record's column as it is written in a statement. -/
def encodeColumn (row : Record t.schema) (i : t.schema.Index) : Except Error Encoded :=
  match row.read i with
  | .error e => .error (.codec e)
  | .ok v =>
    match encode (t.schema.column i).name (t.schema.column i).sqlType v t.mode with
    | .ok encoded => .ok encoded
    | .error e => .error (.codec e)

/-- The columns with the texts of their values, and the parameters of the placeholders among
them. -/
def encodeColumns (row : Record t.schema) :
    List t.schema.Index → Except Error (List (String × String) × List Parameter)
  | [] => .ok ([], [])
  | i :: columns => do
    let encoded ← t.encodeColumn row i
    let (values, params) ← encodeColumns row columns
    let bound := encoded.param.toList.map fun v => ⟨encoded.sql, v⟩
    return (((t.schema.column i).name, encoded.sql) :: values, bound ++ params)

/-- The columns an insert or update assigns. -/
def assignable (fields : Option (List String)) : Except Error (List t.schema.Index) :=
  match t.schema.writable fields with
  | .ok columns => .ok columns
  | .error e => .error (.schema e)

/-- Begins a command. -/
def start (row : Record t.schema) : Entry → Except Error Command
  | .insert verb fields => do
    let (values, params) ← t.encodeColumns row (← t.assignable fields)
    return ⟨.insert verb t.schema.table values, params⟩
  | .select none => return ⟨.query (.plain t.schema.table none), []⟩
  | .select (some fields) => do
    return ⟨.query (.plain t.schema.table (some (← t.columnNames fields))), []⟩
  | .count => return ⟨.count t.schema.table none, []⟩
  | .update fields => do
    let columns ← t.assignable fields
    if columns.isEmpty then throw (.schema (.emptyFieldList t.schema.table))
    let (values, params) ← t.encodeColumns row columns
    return ⟨.update t.schema.table values none, params⟩
  | .delete => return ⟨.delete t.schema.table none, []⟩

/-- The text of a condition and the parameters of the command after it. -/
def condition (predicate : Expr) (params : List Parameter) :
    Except Error (String × List Parameter) :=
  match t.schema.compileIn t.mode predicate params with
  | (.ok text, params) => .ok (text, params)
  | (.error e, _) => .error e

/-- Adds `WHERE` to a statement. -/
def addCondition (text : String) : CommandBody → CommandBody
  | .query q => .query { q with condition := some text }
  | .count table _ => .count table (some text)
  | .update table values _ => .update table values (some text)
  | .delete table _ => .delete table (some text)
  | body => body

/-- Changes a query; other statements stay as they are. -/
def mapQuery (f : Query → Query) : CommandBody → CommandBody
  | .query q => .query (f q)
  | body => body

/-- Adds a clause that the stage of the command allows. -/
def add (c : Command) : Clause → Except Error Command
  | .distinct => return { c with body := mapQuery (fun q => { q with distinct := true }) c.body }
  | .filter predicate => do
    let (text, params) ← t.condition predicate c.params
    return ⟨addCondition text c.body, params⟩
  | .groupBy fields => do
    let columns ← t.columnNames fields
    return { c with body := mapQuery (fun q => { q with grouping := some ⟨columns, none⟩ }) c.body }
  | .having predicate => do
    let (text, params) ← t.condition predicate c.params
    let group := fun g : Grouping => { g with condition := some text }
    return ⟨mapQuery (fun q => { q with grouping := q.grouping.map group }) c.body, params⟩
  | .orderBy fields direction => do
    let columns ← t.columnNames fields
    let order := fun q : Query => { q with ordering := some (columns, direction) }
    return { c with body := mapQuery order c.body }
  | .limit count offset =>
    return { c with body := mapQuery (fun q => { q with window := some (count, offset) }) c.body }

/-- Adds a clause, if the stage of the command allows it. -/
def extend (c : Command) (clause : Clause) : Except BuildFault Command :=
  match c.stage.next? clause.kind with
  | none => .error (.illegal c.stage)
  | some _ => (t.add c clause).mapError .failed

/-- A whole chain: a beginning and clauses. -/
def build (row : Record t.schema) (entry : Entry) (clauses : List Clause) :
    Except BuildFault Command := do
  clauses.foldlM t.extend (← (t.start row entry).mapError .failed)

end Table

end SqlRecord
