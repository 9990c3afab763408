import SqlRecord.Command.Run
import SqlRecord.Registry
import SqlRecord.Schema.Definition
import SqlRecord.Settings

/-!
# Databases

A database is an engine's state together with settings and the schemas of the records stored in
it. `Database.ensure` brings a record and its table together: a missing table is created, and an
existing one is compared with the record unless the settings turn that off.
-/

namespace SqlRecord

/-- How a database is reached: its statements run, and the text that defined a table can be looked
up by the table's name. -/
structure Engine (σ : Type) extends Client σ DatabaseError where
  definition? : String → σ → Option String

/-- What was found where a table was expected. -/
inductive TableStatus where
  | created
  | verified
  | unchecked
  deriving DecidableEq

/-- A database: the state of its engine, its settings, and the schemas of its records. -/
structure Database (σ : Type) where
  settings : Settings
  registry : Registry
  state : σ

namespace Database

variable {σ : Type} (engine : Engine σ)

/-- The database that was just opened. -/
def ofSettings (settings : Settings) (state : σ) : Database σ := ⟨settings, .empty, state⟩

/-- The schema of a record, registered on first use. -/
def schema (db : Database σ) (record : Nat) (d : Declaration) :
    Except DatabaseError Schema × Database σ :=
  match db.registry.getOrBuild record d with
  | (.ok found, registry) => (.ok found.schema, { db with registry })
  | (.error e, registry) => (.error (.library (.schema e)), { db with registry })

/-- Runs a statement for its effect. -/
def perform (db : Database σ) (sql : String) : Except DatabaseError Unit × Database σ :=
  match engine.execute ⟨sql, []⟩ db.state with
  | (.ok _, state) => (.ok (), { db with state })
  | (.error e, state) => (.error e, { db with state })

/-- Whether a stored definition is what a schema asks for, unless that is not checked. -/
def verify (db : Database σ) (s : Schema) (expected found : String) :
    Except DatabaseError TableStatus :=
  if !db.settings.checkSchema then .ok .unchecked
  else if Definition.same found expected then .ok .verified
  else .error (.schemaMismatch s.table expected found)

/-- Creates the table of a schema if it is missing, and verifies it otherwise. -/
def sync (db : Database σ) (s : Schema) : Except DatabaseError TableStatus × Database σ :=
  match s.createText with
  | .error e => (.error (.library e), db)
  | .ok expected =>
    match engine.definition? s.table db.state with
    | some found => (db.verify s expected found, db)
    | none => match db.perform engine expected with
      | (.ok _, db) => (.ok .created, db)
      | (.error e, db) => (.error e, db)

/-- Brings a record and its table together. -/
def ensure (db : Database σ) (record : Nat) (d : Declaration) :
    Except DatabaseError TableStatus × Database σ :=
  match db.schema record d with
  | (.ok s, db) => db.sync engine s
  | (.error e, db) => (.error e, db)

/-- The table of a record, ready for commands. If the settings ask for it, it is created or
verified first. -/
def table (db : Database σ) (record : Nat) (d : Declaration) :
    Except DatabaseError Table × Database σ :=
  match db.schema record d with
  | (.error e, db) => (.error e, db)
  | (.ok s, db) =>
    if db.settings.createTables then
      match db.sync engine s with
      | (.ok _, db) => (.ok ⟨s, db.settings.bindMode⟩, db)
      | (.error e, db) => (.error e, db)
    else (.ok ⟨s, db.settings.bindMode⟩, db)

/-- Drops the table of a record if it is there. -/
def drop (db : Database σ) (record : Nat) (d : Declaration) :
    Except DatabaseError Unit × Database σ :=
  match db.schema record d with
  | (.ok s, db) => db.perform engine s.dropText
  | (.error e, db) => (.error e, db)

end Database

end SqlRecord
