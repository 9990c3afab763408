import SqlRecord.Decimal.Reader
import SqlRecord.Instant
import SqlRecord.Payload.Frame

/-!
# Field types

A record field has a native type, which may be optional. `FieldType.Carrier` gives the values of a
type, `sqlType` the column type it is stored in, and `toValue` and `ofValue` the two directions of
its storage. Values that a column cannot hold exactly are refused and never rounded: integers
above 64 bits signed, non-finite reals, instants outside the years a nanosecond count covers,
decimals with more than fifteen digits.
-/

namespace SqlRecord

/-- The native types of fields. -/
inductive NativeType where
  | integer (t : IntegerType)
  | float32
  | float64
  | bool
  | instant
  | decimal
  | string
  | char
  | payload (t : PayloadType)
  deriving DecidableEq

namespace NativeType

/-- The values of a native type. -/
def Carrier : NativeType → Type
  | integer t => t.Carrier
  | float32 => Binary32
  | float64 => Binary64
  | bool => Bool
  | instant => Instant
  | decimal => Decimal
  | string => String
  | char => Char
  | payload t => t.Carrier

/-- The value of a field that was never set. -/
def default : (t : NativeType) → t.Carrier
  | integer t => t.zero
  | float32 => Floating.zero
  | float64 => Floating.zero
  | bool => false
  | instant => (⟨0, 0⟩ : Instant)
  | decimal => Decimal.zero
  | string => ""
  | char => Char.ofNat 0
  | payload t => t.default

/-- The column type of a native type. -/
def sqlType : NativeType → SqlType
  | integer _ => .integer
  | float32 | float64 => .real
  | bool | instant | decimal => .numeric
  | string | char => .text
  | payload _ => .blob

/-- The name of a native type in messages about cells of the wrong kind. Both widths of reals read
a cell in the wide form first, and so share a name. -/
def name : NativeType → String
  | integer t => t.name
  | float32 | float64 => "f64"
  | bool => "bool"
  | instant => "DateTime<Utc>"
  | decimal => "Decimal"
  | string => "String"
  | char => "char"
  | payload _ => "BLOB"

/-! ### Writing -/

/-- The value of a finite real. -/
def realValue (x : Binary64) : Except CodecError Value :=
  if x.isFinite then .ok (.real x) else .error (.unsupported (.nonFinite x))

/-- The value of an integer, if a cell can hold it. -/
def integerValue (i : Int) : Except CodecError Value :=
  match BoundedInt.ofInt? _ _ i with
  | some n => .ok (.integer n)
  | none => .error (.outOfRange SqlType.integer.name (intText i))

/-- Digits of a decimal that survive storage as a real. -/
def realDigits : Nat := 15

/-- The value of a decimal: an integer when it is a whole number of at most 64 bits, else its text,
which a numeric column turns into a real. -/
def decimalValue (d : Decimal) : Except CodecError Value :=
  match d.whole?.bind (BoundedInt.ofInt? _ _) with
  | some n => .ok (.integer n)
  | none =>
    if realDigits < d.significantDigits then
      .error (.outOfRange SqlType.numeric.name (String.ofList d.text))
    else .ok (.text (String.ofList d.text))

/-- The value that stores a native value. -/
def toValue : (t : NativeType) → t.Carrier → Except CodecError Value
  | integer _, n => integerValue (BoundedInt.val n)
  | float32, x => realValue (Floating.convert .binary64 (f := .binary32) x)
  | float64, x => realValue x
  | bool, b => integerValue (Bool.toInt b)
  | instant, t => match Instant.cell? t with
    | some n => .ok (.integer n)
    | none => .error (.outOfRange SqlType.integer.name (Instant.text t))
  | decimal, d => decimalValue d
  | string, s => .ok (.text s)
  | char, c => .ok (.text (String.singleton c))
  | payload t, v => match Payload.serialize t v with
    | .ok bytes => .ok (.blob bytes)
    | .error fault => .error (.serialize fault)

/-! ### Reading -/

/-- The error of a cell that does not hold the kind of value a type is stored as. -/
def mismatch (t : NativeType) (v : Value) : CodecError := .typeConversion t.name v.storageClass

theorem cellInt_natAbs_lt (n : CellInt) : n.val.natAbs < Decimal.mantissaLimit := by
  have h₁ := n.lo_le
  have h₂ := n.le_hi
  unfold Decimal.mantissaLimit
  omega

/-- The decimal that a text denotes. -/
def readDecimal (cs : List Char) : Except CodecError Decimal :=
  match Decimal.read? cs with
  | some d => .ok d
  | none => .error (.unsupported (.decimalText (String.ofList cs)))

/-- The real that a cell holds; an integer counts as the nearest real. -/
def readReal (v : Value) : Except CodecError Binary64 :=
  match v with
  | .real x => .ok x
  | .integer n => .ok (.ofInt _ n.val)
  | other => .error (mismatch float64 other)

/-- The native value that a cell holds. -/
def ofValue : (t : NativeType) → Value → Except CodecError t.Carrier
  | integer t, v => match v with
    | .integer n => match t.ofInt? n.val with
      | some i => .ok i
      | none => .error (.outOfRange t.name (intText n.val))
    | other => .error (mismatch (integer t) other)
  | float32, v => (readReal v).map (Floating.convert .binary32)
  | float64, v => readReal v
  | bool, v => match v with
    | .integer n =>
      if n.val = 0 then .ok false
      else if n.val = 1 then .ok true
      else .error (.outOfRange bool.name (intText n.val))
    | other => .error (mismatch bool other)
  | instant, v => match v with
    | .integer n => .ok (Instant.ofNanoseconds n.val)
    | other => .error (mismatch instant other)
  | decimal, v => match v with
    | .integer n => .ok (Decimal.ofInt n.val (cellInt_natAbs_lt n))
    | .real x => readDecimal x.text
    | .text s => readDecimal s.toList
    | other => .error (mismatch decimal other)
  | string, v => match v with
    | .text s => .ok s
    | other => .error (mismatch string other)
  | char, v => match v with
    | .text s => match s.toList with
      | [c] => .ok c
      | _ => .error (.outOfRange char.name s)
    | other => .error (mismatch char other)
  | payload t, v => match v with
    | .blob bytes => match Payload.deserialize t bytes with
      | .ok x => .ok x
      | .error fault => .error (.deserialize fault)
    | other => .error (mismatch (payload t) other)

/-! ### Constants -/

/-- The value of a native value as a constant of an expression, for the types that have constants.
A constant is compared and never stored, so one that no column can hold is kept as well as it
can be: a real as it is, an instant moved to the nearest storable one, a decimal as its text. -/
def constant? : (t : NativeType) → t.Carrier → Option Value
  | integer t, n => match t with
    | .uint64 | .uintSize | .intSize => none
    | _ => (BoundedInt.ofInt? _ _ (BoundedInt.val n)).map .integer
  | float32, x => some (.real (Floating.convert .binary64 (f := .binary32) x))
  | float64, x => some (.real x)
  | bool, b => (BoundedInt.ofInt? _ _ (Bool.toInt b)).map .integer
  | instant, t => some (.integer (Instant.nearestCell t))
  | decimal, d => some <| match decimalValue d with
    | .ok v => v
    | .error _ => .text (String.ofList (Decimal.text d))
  | string, s => some (.text s)
  | char, c => some (.text (String.singleton c))
  | payload _, _ => none

end NativeType

/-- The types of fields: a native type, or its optional form, in which nothing is stored as
`NULL`. -/
inductive FieldType where
  | plain (t : NativeType)
  | optional (t : NativeType)
  deriving DecidableEq

namespace FieldType

/-- The native type below an optional one. -/
def native : FieldType → NativeType
  | plain t => t
  | optional t => t

/-- The values of a field type. -/
def Carrier : FieldType → Type
  | plain t => t.Carrier
  | optional t => Option t.Carrier

/-- The value of a field that was never set. -/
def default : (t : FieldType) → t.Carrier
  | plain t => t.default
  | optional _ => (none : Option _)

/-- The column type of a field type. -/
def sqlType (t : FieldType) : SqlType := t.native.sqlType

/-- The value that stores a field. -/
def toValue : (t : FieldType) → t.Carrier → Except CodecError Value
  | plain t, v => t.toValue v
  | optional _, none => .ok .null
  | optional t, some v => t.toValue v

/-- The field that a cell holds. -/
def ofValue : (t : FieldType) → Value → Except CodecError t.Carrier
  | plain t, v => t.ofValue v
  | optional _, .null => .ok none
  | optional t, v => (t.ofValue v).map some

/-- The value of a field as a constant of an expression, for the types that have constants. -/
def constant? : (t : FieldType) → t.Carrier → Option Value
  | plain t, v => t.constant? v
  | optional _, none => some .null
  | optional t, some v => t.constant? v

end FieldType

end SqlRecord
