import SqlRecord.Floating.Text
import SqlRecord.Numeral

/-!
# Numbers in a store

A store reads a number from text as an integer if it is written as one and fits 64 bits, and as a
real otherwise, and it writes a real with fifteen significant digits.
-/

namespace SqlRecord

namespace Store

/-- A number as a cell holds it. -/
inductive Number where
  | integer (i : CellInt)
  | real (x : Binary64)

namespace Number

/-- The characters that may stand around a number in text. -/
def isSpace (c : Char) : Bool := c == ' ' || (0x09 ≤ c.toNat && c.toNat ≤ 0x0d)

/-- The number that a sign and a numeral denote. -/
def ofText (negative : Bool) (cs : List Char) : Number :=
  let magnitude : Int := Digits.value cs
  let exact := if cs.all Char.isDigit then
    BoundedInt.ofInt? _ _ (if negative then -magnitude else magnitude) else none
  match exact with
  | some i => integer i
  | none => real (Numeral.nearest _ negative cs)

/-- The number at the start of a text, after white space, and what follows it. -/
def scan? (cs : List Char) : Option (Number × List Char) :=
  let cs := cs.dropWhile isSpace
  let (negative, cs) := match cs with
    | '-' :: cs => (true, cs)
    | '+' :: cs => (false, cs)
    | cs => (false, cs)
  let (text, rest) := Numeral.span cs
  if Numeral.hasDigits text then some (ofText negative text, rest) else none

/-- The number that a whole text denotes, white space around it aside. -/
def ofWholeText? (cs : List Char) : Option Number :=
  match scan? cs with
  | some (n, rest) => if rest.all isSpace then some n else none
  | none => none

/-- The nearest real of a number. -/
def toReal : Number → Binary64
  | integer i => .ofInt _ i.val
  | real x => x

/-- The same number as an integer, if it is a whole number strictly between the bounds of the
integers. -/
def toInteger? : Number → Option CellInt
  | integer i => some i
  | real x => do
    let i ← x.toInt?
    if -0x8000000000000000 < i ∧ i < 0x7fffffffffffffff then BoundedInt.ofInt? _ _ i else none

end Number

/-- Significant digits of a real in text. -/
def textDigits : Nat := 15

/-- The decimal with fifteen significant digits nearest to `n / d`, the greater one on a tie. -/
def roundedDecimal (n d : Nat) : Scientific :=
  let exponent := floorLog10 n d - (textDigits - 1 : Nat)
  let a := n * 10 ^ (-exponent).toNat
  let b := d * 10 ^ exponent.toNat
  Scientific.strip ⟨(2 * a + b) / (2 * b), exponent⟩

/-- Digits with a point after the first, and at least one digit after the point. -/
def pointed (digits : List Char) : List Char :=
  match digits with
  | [] => []
  | [d] => [d, '.', '0']
  | d :: more => d :: '.' :: more

/-- The text of a positive decimal: positional for exponents from minus four to fourteen, else
with an exponent of at least two digits. A point is always written. -/
def decimalText (s : Scientific) : List Char :=
  let digits := Digits.ofNat s.digits
  let leading := s.exponent + (digits.length - 1 : Nat)
  if -4 ≤ leading ∧ leading < textDigits then
    let text := s.positional
    if text.contains '.' then text else text ++ ['.', '0']
  else
    pointed digits ++ 'e' :: (if leading < 0 then '-' else '+') :: Digits.padded 2 leading.natAbs

/-- The text of a real. Both zeros are written without a sign. -/
def realText (x : Binary64) : List Char :=
  match x.datum with
  | .nan => []
  | .infinite negative => (if negative then "-Inf" else "Inf").toList
  | .finite negative significand exponent =>
    if significand = 0 then "0.0".toList
    else
      let text := decimalText
        (roundedDecimal (significand * 2 ^ exponent.toNat) (2 ^ (-exponent).toNat))
      if negative then '-' :: text else text

end Store

end SqlRecord
