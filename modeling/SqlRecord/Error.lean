import SqlRecord.Digits
import SqlRecord.Floating.Text
import SqlRecord.Value

/-!
# Errors

Each family of failures is a type of causes, with its wording in one function `message`.
`SchemaError` blames a record's declaration or a list of fields, `CodecError` a value,
`CompileError` an expression. `Error` joins them, and adds the cell of a result row that could
not be read into its field.
-/

namespace SqlRecord

/-- What is wrong with a record's declaration, or with a list of fields given to a command. -/
inductive SchemaError where
  | missingTableName (record : String)
  | noColumns (table : String)
  | invalidIdentifier (name : String)
  | duplicateColumn (table column : String)
  | unmappedField (table field : String)
  | immutableColumn (table column : String)
  | invalidConstraint (table column reason : String)
  | emptyFieldList (table : String)
  deriving DecidableEq

namespace SchemaError

def message : SchemaError → String
  | missingTableName record => "record type " ++ record ++ " has no table name"
  | noColumns table => "table " ++ table ++ " declares no columns"
  | invalidIdentifier name => "invalid identifier '" ++ name ++
      "': must start with a letter or underscore, contain only alphanumeric characters and " ++
      "underscores, and not be an SQLite keyword"
  | duplicateColumn table column => "duplicate column in table " ++ table ++ ": " ++ column
  | unmappedField table field => "unmapped field '" ++ field ++ "' on table " ++ table
  | immutableColumn table column =>
      "immutable column '" ++ column ++ "' on table " ++ table ++ " cannot be assigned"
  | invalidConstraint table column reason =>
      "invalid constraint on " ++ table ++ "." ++ column ++ ": " ++ reason
  | emptyFieldList table => "empty field list for table " ++ table

end SchemaError

/-- Why a BLOB payload could not be written. -/
inductive SerializeFault where
  | refused (reason : String)
  | tooLong
  deriving DecidableEq

namespace SerializeFault

def message : SerializeFault → String
  | refused reason => reason
  | tooLong => "payload exceeds u32::MAX bytes"

end SerializeFault

/-- Why bytes could not be read. -/
inductive DeserializeFault where
  | headerCut (size : Nat)
  | lengthMismatch (declared actual : Nat)
  | malformedBody
  | invalidText
  deriving DecidableEq

namespace DeserializeFault

def message : DeserializeFault → String
  | headerCut size => "payload of " ++ natText size ++ " bytes is shorter than its length prefix"
  | lengthMismatch declared actual =>
      "length prefix says " ++ natText declared ++ " bytes, payload has " ++ natText actual
  | malformedBody => "the body does not describe a value of the expected type"
  | invalidText => "TEXT cell is not UTF-8: invalid byte sequence"

end DeserializeFault

/-- Which value has no rendering. -/
inductive UnsupportedValue where
  | nonFinite (x : Binary64)
  | blobLiteral
  | nonNumericText (text : String)
  | decimalText (text : String)
  | other (description : String)
  deriving DecidableEq

namespace UnsupportedValue

def message : UnsupportedValue → String
  | nonFinite x => "non-finite REAL " ++ String.ofList x.text
  | blobLiteral => "BLOB values cannot be rendered as literals"
  | nonNumericText text => "non-numeric text '" ++ text ++ "' in numeric column"
  | decimalText text => "decimal '" ++ text ++ "': not a decimal number"
  | other description => description

end UnsupportedValue

/-- Why a value could not be converted between its native and its cell form. -/
inductive CodecError where
  | serialize (fault : SerializeFault)
  | deserialize (fault : DeserializeFault)
  | typeConversion (expected : String) (found : StorageClass)
  | outOfRange (target value : String)
  | unsupported (value : UnsupportedValue)
  deriving DecidableEq

namespace CodecError

def message : CodecError → String
  | serialize fault => "serialize failure: " ++ fault.message
  | deserialize fault => "deserialize failure: " ++ fault.message
  | typeConversion expected found =>
      "type conversion failure: expected " ++ expected ++ ", found " ++ found.name
  | outOfRange target value => "value out of range for " ++ target ++ ": " ++ value
  | unsupported value => "unsupported value: " ++ value.message

end CodecError

/-- Why an expression has no SQL text. -/
inductive CompileError where
  | unsupportedOperator (name : String)
  | unsupportedLiteral (kind : String)
  deriving DecidableEq

namespace CompileError

def message : CompileError → String
  | unsupportedOperator name => "unsupported operator: " ++ name
  | unsupportedLiteral kind => "unsupported literal in predicate: " ++ kind

end CompileError

/-- Any failure to build a command or to read a result row. -/
inductive Error where
  | schema (cause : SchemaError)
  | codec (cause : CodecError)
  | compile (cause : CompileError)
  | decode (column : String) (cause : CodecError)
  deriving DecidableEq

namespace Error

def message : Error → String
  | schema cause => "schema error: " ++ cause.message
  | codec cause => "codec error: " ++ cause.message
  | compile cause => "compile error: " ++ cause.message
  | decode column cause => "failed to decode column " ++ column ++ ": " ++ cause.message

end Error

instance : Coe SchemaError Error := ⟨Error.schema⟩

instance : Coe CodecError Error := ⟨Error.codec⟩

instance : Coe CompileError Error := ⟨Error.compile⟩

end SqlRecord
