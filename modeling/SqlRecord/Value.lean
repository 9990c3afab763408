import SqlRecord.BoundedInt
import SqlRecord.Floating.Basic

/-!
# Values and column types

A database cell holds one of five kinds of value, its storage class. A column has one of five
types, which decides how values are written for it and how a table stores them.
-/

namespace SqlRecord

/-- The kinds of value a cell can hold. -/
inductive StorageClass where
  | null
  | integer
  | real
  | text
  | blob
  deriving DecidableEq

namespace StorageClass

def name : StorageClass → String
  | null => "NULL"
  | integer => "INTEGER"
  | real => "REAL"
  | text => "TEXT"
  | blob => "BLOB"

end StorageClass

/-- The types of a column. -/
inductive SqlType where
  | integer
  | real
  | numeric
  | text
  | blob
  deriving DecidableEq

namespace SqlType

def name : SqlType → String
  | integer => "INTEGER"
  | real => "REAL"
  | numeric => "NUMERIC"
  | text => "TEXT"
  | blob => "BLOB"

end SqlType

/-- The content of a cell. -/
inductive Value where
  | null
  | integer (i : CellInt)
  | real (x : Binary64)
  | text (s : String)
  | blob (bytes : List UInt8)
  deriving DecidableEq

namespace Value

instance : Inhabited Value := ⟨null⟩

def storageClass : Value → StorageClass
  | null => .null
  | integer _ => .integer
  | real _ => .real
  | text _ => .text
  | blob _ => .blob

def isNull : Value → Bool
  | null => true
  | _ => false

/-- Equality that compares reals as numbers: a NaN differs from itself and the two zeros agree. -/
def numericEq : Value → Value → Bool
  | real x, real y => x.numericEq y
  | a, b => a == b

end Value

/-- A named value for a placeholder of a statement; the name carries its leading mark. -/
structure Parameter where
  name : String
  value : Value
  deriving DecidableEq

/-- A finished SQL text with the parameters it refers to. -/
structure Statement where
  sql : String
  params : List Parameter
  deriving DecidableEq

end SqlRecord
