import SqlRecord.Value

/-!
# Cursors and clients

A cursor is the result of a query as it can be read: the names of its columns and what each poll
yields, a row, a failure or the end. A client runs statements in some state of its own; building a
command needs none.
-/

namespace SqlRecord

/-- What polling a cursor yields. -/
inductive CursorEvent (ε : Type) where
  | row (cells : List Value)
  | failure (e : ε)
  | done

/-- The column names of a result and what each poll of it yields, up to the last that is not the
end. -/
structure Cursor (ε : Type) where
  names : List String
  events : List (CursorEvent ε)

namespace Cursor

variable {ε : Type}

/-- Polls a cursor; past its last event it is at the end for good. -/
def poll (c : Cursor ε) : CursorEvent ε × Cursor ε :=
  match c.events with
  | [] => (.done, c)
  | e :: events => (e, { c with events })

/-- The first cell of the first row, `NULL` if there is none. -/
def scalar (c : Cursor ε) : Except ε Value :=
  match c.poll.1 with
  | .row cells => .ok (cells.head?.getD .null)
  | .failure e => .error e
  | .done => .ok .null

end Cursor

/-- A client: how statements run, in a state `σ`. `execute` gives the number of affected rows and
`query` the result to read. -/
structure Client (σ ε : Type) where
  execute : Statement → σ → Except ε Nat × σ
  query : Statement → σ → Except ε (Cursor ε) × σ

namespace Client

variable {ε : Type}

/-- A client that keeps every statement, oldest first, and answers each with the same result. -/
def scripted (cursor : Cursor ε) (affected : Nat) : Client (List Statement) ε where
  execute statement log := (.ok affected, log ++ [statement])
  query statement log := (.ok cursor, log ++ [statement])

/-- A client that keeps every statement and runs none. -/
def dryRun : Client (List Statement) ε := scripted ⟨[], []⟩ 0

end Client

end SqlRecord
