import SqlRecord.Record.Rows

/-!
# Errors of a database

What can go wrong when records meet a database: the errors of this library, a stored table that
differs from its record, a parameter without a placeholder, and faults of the engine and of the
settings, whose own wording is not part of the message.
-/

namespace SqlRecord

/-- Why a database operation failed. -/
inductive DatabaseError where
  | library (cause : Error)
  | schemaMismatch (table expected found : String)
  | unboundParameter (name : String)
  | engine
  | settings
  | file
  deriving DecidableEq

namespace DatabaseError

def message : DatabaseError → String
  | library cause => cause.message
  | schemaMismatch table expected found =>
    "schema mismatch for table " ++ table ++ ": expected `" ++ expected ++ "`, found `" ++
      found ++ "`"
  | unboundParameter name => "unbound parameter: " ++ name
  | engine => "database error"
  | settings => "config error"
  | file => "I/O error"

end DatabaseError

instance : OfError DatabaseError := ⟨.library⟩

end SqlRecord
