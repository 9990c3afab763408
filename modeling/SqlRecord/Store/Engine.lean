import SqlRecord.Database.Basic
import SqlRecord.Store.Run

/-!
# A store as an engine

`Store.engine` runs statements on a store. A statement is read and its names are resolved first,
then its parameters are bound, and only then it runs; whichever of these fails first is the error.
-/

namespace SqlRecord

namespace Store

variable (s : Store)

/-- The first statement of a text that has tokens, and the text after it; `fuel` bounds the number
of empty ones before. -/
def firstFuel : Nat → List Char → Option (List Sql.Lexeme × List Char)
  | 0, _ => none
  | fuel + 1, cs =>
    match Sql.lexemes? cs with
    | some ([], rest) => if rest.isEmpty then some ([], []) else firstFuel fuel rest
    | found => found

/-- The first statement of a text that has tokens, and the text after it. Without any, the text is
empty. -/
def first? (cs : List Char) : Option (List Sql.Lexeme × List Char) :=
  firstFuel (cs.length + 1) cs

/-- The statement that tokens spell, if the store admits it. -/
def resolve? (ls : List Sql.Lexeme) : Option Sql.Statement := do
  let statement ← Sql.Statement.ofLexemes? ls
  if s.admits statement then some statement else none

/-- The statement of a text, if it is not empty, and its placeholders. -/
def prepare? (sql : String) : Option (Option Sql.Statement × List String) :=
  match first? sql.toList with
  | none => none
  | some ([], _) => some (none, [])
  | some (ls, _) => (s.resolve? ls).map fun statement => (some statement, Sql.placeholders ls)

/-- What the placeholders of a statement stand for: the last parameter of the name, or nothing. A
question mark without a number has no name. -/
def bind (placeholders : List String) (params : List Parameter) :
    Except DatabaseError (String → Cell) := do
  let bound ← params.foldlM (fun bound p =>
    if p.name.contains (Char.ofNat 0) then throw .engine
    else if p.name == "?" || !placeholders.contains p.name then throw (.unboundParameter p.name)
    else return (p.name, Cell.ofValue p.value) :: bound) []
  return fun name => (bound.lookup name).getD .null

/-- Reads, binds and runs a statement: the names and the rows of its result. -/
def perform (statement : Statement) :
    Except DatabaseError (List String × Option (List (List Cell))) × Store :=
  match s.prepare? statement.sql with
  | none => (.error .engine, s)
  | some (prepared, placeholders) =>
    match bind placeholders statement.params with
    | .error e => (.error e, s)
    | .ok placeholder =>
      match prepared with
      | none => (.ok ([], none), s)
      | some (.select q) =>
        let table := q.table.bind s.find?
        (.ok (resultNames table q.results, (s.run placeholder (.select q)).1), s)
      | some prepared =>
        let (rows, s) := s.run placeholder prepared
        (.ok ([], rows), s)

/-- What a cursor yields for a row. -/
def rowEvent (cells : List Cell) : CursorEvent DatabaseError :=
  match cells.mapM Cell.toValue with
  | .ok values => .row values
  | .error e => .failure (.library (.codec e))

/-- Runs a statement that gives no rows, for the number of rows it changed. -/
def execute (statement : Statement) : Except DatabaseError Nat × Store :=
  match s.perform statement with
  | (.error e, s) => (.error e, s)
  | (.ok (_, some []), s) => (.ok s.changes, s)
  | (.ok _, s) => (.error .engine, s)

/-- Runs a statement for its rows; where it fails, the cursor says so. -/
def query (statement : Statement) : Except DatabaseError (Cursor DatabaseError) × Store :=
  match s.perform statement with
  | (.error e, s) => (.error e, s)
  | (.ok (names, some rows), s) => (.ok ⟨names, rows.map rowEvent⟩, s)
  | (.ok (names, none), s) => (.ok ⟨names, [.failure .engine]⟩, s)

/-- Runs the statements of a text one after the other, without parameters, up to the first that
fails; `fuel` bounds their number. -/
def scriptFuel : Nat → Store → List Char → Except DatabaseError Unit × Store
  | 0, s, _ => (.ok (), s)
  | fuel + 1, s, cs =>
    match first? cs with
    | none => (.error .engine, s)
    | some ([], _) => (.ok (), s)
    | some (ls, rest) =>
      match s.resolve? ls with
      | none => (.error .engine, s)
      | some statement =>
        match s.run (fun _ => .null) statement with
        | (none, s) => (.error .engine, s)
        | (some _, s) => scriptFuel fuel s rest

/-- Runs the statements of a text one after the other, without parameters, up to the first that
fails. -/
def script (sql : String) : Except DatabaseError Unit × Store :=
  scriptFuel (sql.length + 1) s sql.toList

/-- The store as an engine. -/
def engine : Engine Store where
  execute statement s := s.execute statement
  query statement s := s.query statement
  definition? name s := s.definition? name

end Store

end SqlRecord
