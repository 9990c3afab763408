import SqlRecord.Command.Build
import SqlRecord.Record.Rows

/-!
# Running commands

A command runs in one of several ways, its `Ending`, on a client. Queries yield records, queries
and counts a single value, the other statements a number of affected rows. `Table.step` carries a
session of steps: it keeps the command that is being built, and any failure gives it up.
-/

namespace SqlRecord

/-- How a command is used up. -/
inductive Ending where
  | execute
  | fetchAll
  | take (n : Nat)
  | mappedFields
  | scalar (t : FieldType)
  | intoStatement

namespace Ending

/-- Whether a command at a stage can be used up in this way. -/
def allowedAt : Ending → Stage → Bool
  | execute, stage => stage.isNonQuery
  | fetchAll, stage | take _, stage | mappedFields, stage => stage.isQuery
  | scalar _, stage => stage.isScalar
  | intoStatement, _ => true

end Ending

/-- What using up a command gives. -/
inductive Outcome (s : Schema) where
  | affected (n : Nat)
  | records (rows : List (Record s))
  | fields (names : List String)
  | value (t : FieldType) (v : t.Carrier)
  | statement (statement : Statement)

/-- Runs a query and decodes the first cell of its first row. -/
def Command.scalar {σ ε : Type} [OfError ε] (c : Command) (client : Client σ ε) (type : FieldType)
    (state : σ) : Except ε type.Carrier × σ :=
  match client.query c.statement state with
  | (.ok cursor, state) =>
    (cursor.scalar.bind fun v => (type.ofValue v).mapError (OfError.ofError ∘ Error.codec), state)
  | (.error e, state) => (.error e, state)

namespace Table

variable {σ ε : Type} [OfError ε] (t : Table) (client : Client σ ε)

/-- Runs a query and reads its rows. -/
def withRows {α : Type} (c : Command) (read : Rows t.schema ε → Except ε α) (state : σ) :
    Except ε α × σ :=
  match client.query c.statement state with
  | (.ok cursor, state) => (read (.ofCursor t.schema cursor), state)
  | (.error e, state) => (.error e, state)

/-- Uses up a command. -/
def finish (c : Command) (ending : Ending) (state : σ) : Except ε (Outcome t.schema) × σ :=
  match ending with
  | .execute =>
    let (result, state) := client.execute c.statement state
    (result.map .affected, state)
  | .fetchAll => t.withRows client c (fun rows => rows.fetchAll.map .records) state
  | .take n => t.withRows client c (fun rows => (rows.take n).1.map .records) state
  | .mappedFields => t.withRows client c (fun rows => .ok (.fields rows.mappedFields)) state
  | .scalar type =>
    let (result, state) := c.scalar client type state
    (result.map (.value type), state)
  | .intoStatement => (.ok (.statement c.statement), state)

end Table

/-! ### Sessions -/

/-- A step of a session: beginning a command, extending it, or using it up. -/
inductive Step where
  | start (entry : Entry)
  | extend (clause : Clause)
  | finish (ending : Ending)

/-- What a step answers: the command after it, an outcome, or why there is none. -/
inductive Answer (s : Schema) (ε : Type) where
  | command (c : Command)
  | outcome (o : Outcome s)
  | failed (e : ε)
  | illegal (stage : Stage)
  | noCommand

namespace Table

variable {σ ε : Type} [OfError ε] (t : Table) (client : Client σ ε)

/-- Takes one step: the answer, the command that is being built after it, and the client's
state. -/
def step (row : Record t.schema) (current : Option Command) (state : σ) :
    Step → Answer t.schema ε × Option Command × σ
  | .start entry =>
    match t.start row entry with
    | .ok c => (.command c, some c, state)
    | .error e => (.failed (OfError.ofError e), none, state)
  | .extend clause =>
    match current with
    | none => (.noCommand, none, state)
    | some c =>
      match t.extend c clause with
      | .ok c => (.command c, some c, state)
      | .error (.illegal stage) => (.illegal stage, none, state)
      | .error (.failed e) => (.failed (OfError.ofError e), none, state)
  | .finish ending =>
    match current with
    | none => (.noCommand, none, state)
    | some c =>
      if ending.allowedAt c.stage then
        match t.finish client c ending state with
        | (.ok o, state) => (.outcome o, none, state)
        | (.error e, state) => (.failed e, none, state)
      else (.illegal c.stage, none, state)

/-- Takes steps one after the other: the answers and the client's state. -/
def session (row : Record t.schema) (current : Option Command) (state : σ) :
    List Step → List (Answer t.schema ε) × σ
  | [] => ([], state)
  | s :: steps =>
    let (answer, current, state) := t.step client row current state s
    let (answers, state) := session row current state steps
    (answer :: answers, state)

end Table

end SqlRecord
