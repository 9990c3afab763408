import SqlRecord.Literal

/-!
# Values in statements

A value reaches a statement either as text, written into the SQL, or as a parameter behind a
placeholder. Under `BindMode.parameters` every value of a column is bound; under
`BindMode.inline` only BLOBs are, and everything else is written as text.
-/

namespace SqlRecord

/-- How values reach a statement. -/
inductive BindMode where
  | inline
  | parameters
  deriving DecidableEq, Inhabited

/-- What a value becomes in a statement: the text to write, and the value bound to it when the
text is a placeholder. -/
structure Encoded where
  sql : String
  param : Option Value
  deriving DecidableEq

/-- The placeholder of a column. -/
def placeholder (name : String) : String := "@" ++ name

namespace Encoded

/-- Text without a parameter. -/
def ofText (sql : String) : Encoded := ⟨sql, none⟩

end Encoded

/-- The text of a value for a column whose values are not BLOBs: between quotes in a text column,
as a number in the others. -/
def inlineText (t : SqlType) (v : Value) : Except CodecError String :=
  match t, v with
  | _, .null => .ok "NULL"
  | .text, .text s => .ok (Literal.quote s)
  | .text, v => (Literal.ofValue v).map Literal.quote
  | _, v => Literal.numeric v

/-- What a value becomes for a column of the given name and type. -/
def encode (name : String) (t : SqlType) (v : Value) (mode : BindMode) :
    Except CodecError Encoded :=
  match t with
  | .blob => match v with
    | .null => .ok (.ofText "NULL")
    | .blob bytes => .ok ⟨placeholder name, some (.blob bytes)⟩
    | other => .error (.typeConversion SqlType.blob.name other.storageClass)
  | t => match mode with
    | .parameters => .ok ⟨placeholder name, some v⟩
    | .inline => (inlineText t v).map .ofText

end SqlRecord
