import SqlRecord.Error

/-!
# SQL literals

Text of a value as an SQL literal. Text is written between single quotes with every quote inside
written twice; a real always carries a point, so that it reads back as a real; a BLOB and a
non-finite real have no literal. `isNumericText` is the form in which text may stand unquoted in a
numeric column: an optional minus, digits, and digits after a point if there is one.
-/

namespace SqlRecord

namespace Literal

/-- The characters between the quotes of a text literal. -/
def escape : List Char → List Char
  | [] => []
  | c :: cs => if c = '\'' then '\'' :: '\'' :: escape cs else c :: escape cs

/-- A text between single quotes, with every quote inside written twice. -/
def quoteChars (cs : List Char) : List Char := '\'' :: (escape cs ++ ['\''])

/-- A text as an SQL literal. -/
def quote (s : String) : String := String.ofList (quoteChars s.toList)

/-- A finite real as an SQL literal: its shortest text, with `.0` after a whole number. -/
def ofReal (x : Binary64) : Except CodecError String :=
  if x.isFinite then
    let text := x.text
    .ok (String.ofList (if text.contains '.' then text else text ++ ['.', '0']))
  else .error (.unsupported (.nonFinite x))

/-- A value as an SQL literal. -/
def ofValue : Value → Except CodecError String
  | .null => .ok "NULL"
  | .integer i => .ok (intText i.val)
  | .real x => ofReal x
  | .text s => .ok (quote s)
  | .blob _ => .error (.unsupported .blobLiteral)

/-- Whether a run of characters is non-empty and holds digits only. -/
def isDigits (cs : List Char) : Bool := !cs.isEmpty && cs.all Char.isDigit

/-- Whether a text is digits, with digits after a point if it has one. -/
def isUnsignedNumeric (cs : List Char) : Bool :=
  match cs.dropWhile (· != '.') with
  | [] => isDigits cs
  | _ :: fraction => isDigits (cs.takeWhile (· != '.')) && isDigits fraction

/-- Whether a text is a number that may stand unquoted. -/
def isNumericText : List Char → Bool
  | '-' :: cs => isUnsignedNumeric cs
  | cs => isUnsignedNumeric cs

/-- A value as the text of a number. -/
def numeric : Value → Except CodecError String
  | .integer i => .ok (intText i.val)
  | .real x => ofReal x
  | .text s =>
    if isNumericText s.toList then .ok s else .error (.unsupported (.nonNumericText s))
  | other => .error (.typeConversion "numeric" other.storageClass)

end Literal

end SqlRecord
