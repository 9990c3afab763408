import SqlRecord.Decimal.Basic

/-!
# Reading decimal numbers

`Decimal.read?` reads a plain number (`-12.50`, `1_000`, `.5`) and, when that fails, a number with
an exponent (`1.5e3`). A plain number keeps the scale it is written with. Digits are taken from
the left; the first digit after the point that does not fit decides how the ones before it round,
half away from zero.
-/

namespace SqlRecord

namespace Decimal

/-- Splits a leading sign from a text; a minus is reported. -/
def splitSign : List Char → Bool × List Char
  | '-' :: cs => (true, cs)
  | '+' :: cs => (false, cs)
  | cs => (false, cs)

/-- Rounds a mantissa by the first digit that was left out. A mantissa that overflows gives up one
digit of its scale. -/
def roundLast (mantissa scale digit : Nat) : Option (Nat × Nat) :=
  if digit < 5 then some (mantissa, scale)
  else if mantissa + 1 < mantissaLimit then some (mantissa + 1, scale)
  else match scale with
    | 0 => none
    | scale + 1 => some ((mantissa + 1 + 4) / 10, scale)

/-- Whether a text may follow the last digit that counts. -/
def isIgnored (cs : List Char) : Bool := cs.all fun c => c.isDigit || c == '_'

/-- Reads the digits of a plain number: `point` tells that the point was seen and `started` that a
digit was. An underscore may stand anywhere after the first digit; where the scale is full it stands
in for the digit that rounds, and rounds nothing. -/
def readDigits (mantissa scale : Nat) (point started : Bool) : List Char → Option (Nat × Nat)
  | [] => if started then some (mantissa, scale) else none
  | c :: cs =>
    let isFull := point && scale == scaleLimit
    if c.isDigit then
      let next := 10 * mantissa + Digits.ofChar c
      if isFull || (point && mantissaLimit ≤ next) then
        if isIgnored cs then roundLast mantissa scale (Digits.ofChar c) else none
      else if mantissaLimit ≤ next then none
      else readDigits next (if point then scale + 1 else scale) point true cs
    else if c = '.' ∧ ¬point then readDigits mantissa scale true started cs
    else if c = '_' ∧ started then
      if isFull then if isIgnored cs then some (mantissa, scale) else none
      else readDigits mantissa scale point started cs
    else none

/-- Reads a number without an exponent. A zero has no sign. -/
def readPlain (cs : List Char) : Option Decimal := do
  let (negative, digits) := splitSign cs
  let (mantissa, scale) ← readDigits 0 0 false false digits
  ofParts? (negative && mantissa != 0) mantissa scale

/-- Reads an exponent's digits, with an optional plus in front. -/
def readExponent (cs : List Char) : Option Nat :=
  match cs with
  | '+' :: cs => Digits.value? cs
  | cs => Digits.value? cs

/-- Applies an exponent of ten. Lowering it moves the point, and digits that the scale has no place
for are rounded off, half away from zero; raising it past the scale also drops trailing fraction
zeros. -/
def shift (d : Decimal) (negative : Bool) (exponent : Nat) : Option Decimal :=
  if negative then
    let excess := d.scale + exponent - scaleLimit
    let unit := 10 ^ excess
    if exponent ≤ scaleLimit then
      ofParts? d.negative ((2 * d.mantissa + unit) / (2 * unit)) (d.scale + exponent - excess)
    else none
  else if exponent ≤ d.scale then ofParts? d.negative d.mantissa (d.scale - exponent)
  else if exponent ≤ scaleLimit then
    (ofParts? d.negative (d.mantissa * 10 ^ (exponent - d.scale)) 0).map normalize
  else none

/-- Reads a number with an exponent, cut at the first `e` or `E`. -/
def readScaled (cs : List Char) : Option Decimal := do
  let isMark := fun c : Char => c == 'e' || c == 'E'
  let base := cs.takeWhile (!isMark ·)
  match cs.dropWhile (!isMark ·) with
  | _ :: '-' :: exponent => shift (← readPlain base) true (← readExponent exponent)
  | _ :: exponent => shift (← readPlain base) false (← readExponent exponent)
  | [] => none

/-- Reads a decimal number, plain or with an exponent. -/
def read? (cs : List Char) : Option Decimal := (readPlain cs).or (readScaled cs)

end Decimal

end SqlRecord
