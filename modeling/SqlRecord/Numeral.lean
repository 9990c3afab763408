import SqlRecord.Digits
import SqlRecord.Floating.Basic

/-!
# Decimal numerals

An unsigned numeral as formats that allow fractions and exponents write it: digits, perhaps a
point and more digits, perhaps an exponent of ten. `Numeral.span` splits one off a text, and
`Numeral.nearest` is the floating-point number closest to what it denotes.
-/

namespace SqlRecord

namespace Numeral

/-- The exponent that a numeral goes on with, if there is one. -/
def spanExponent (cs : List Char) : List Char × List Char :=
  match cs with
  | e :: rest =>
    let (sign, digits) := match rest with
      | s :: more => if s = '+' || s = '-' then ([s], more) else ([], rest)
      | [] => ([], rest)
    let run := digits.takeWhile Char.isDigit
    if (e = 'e' || e = 'E') && !run.isEmpty then (e :: sign ++ run, digits.drop run.length)
    else ([], cs)
  | [] => ([], [])

/-- The numeral at the start of a text, and what follows it. -/
def span (cs : List Char) : List Char × List Char :=
  let whole := cs.takeWhile Char.isDigit
  let (fraction, rest) := match cs.drop whole.length with
    | '.' :: rest =>
      let run := rest.takeWhile Char.isDigit
      ('.' :: run, rest.drop run.length)
    | rest => ([], rest)
  let (exponent, rest) := spanExponent rest
  (whole ++ fraction ++ exponent, rest)

/-- A numeral without its exponent. -/
def mantissa (cs : List Char) : List Char := cs.takeWhile fun c => c != 'e' && c != 'E'

/-- Whether a numeral denotes anything: its digits may be missing on one side of the point, not on
both. -/
def hasDigits (cs : List Char) : Bool := (mantissa cs).any Char.isDigit

/-- The number that the digits denote without the point. -/
def digits (cs : List Char) : Nat := Digits.value ((mantissa cs).filter Char.isDigit)

/-- The power of ten that the digits are to be multiplied by. -/
def exponent (cs : List Char) : Int :=
  let written : Int := match cs.drop ((mantissa cs).length + 1) with
    | '-' :: digits => -Digits.value digits
    | '+' :: digits => Digits.value digits
    | digits => Digits.value digits
  written - (((mantissa cs).dropWhile Char.isDigit).drop 1).length

/-- The number of a format nearest to a numeral with a sign. -/
def nearest (f : Format) (negative : Bool) (cs : List Char) : Floating f :=
  .ofDecimal f negative (digits cs) (exponent cs)

end Numeral

end SqlRecord
