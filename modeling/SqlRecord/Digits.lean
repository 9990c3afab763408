import SqlRecord.Power

/-!
# Digits

Text of natural numbers in base ten, with a fixed number of digits after the point, and the
value of a run of digits; base-sixteen digits besides. `Digits.fixedPoint d p` writes
`d / 10 ^ p` exactly, with `p` digits after the point; every number the library prints, whole,
decimal or binary, goes through it.
-/

namespace SqlRecord

namespace Digits

/-- The value of one decimal digit; other characters count from `'0'` too and are excluded by
the callers. -/
def ofChar (c : Char) : Nat := c.toNat - '0'.toNat

/-- The digits of `n`, most significant first, at least one. -/
def ofNat (n : Nat) : List Char := Nat.toDigits 10 n

/-- The number a run of digits denotes, read after the digits of `acc`. -/
def valueFrom (acc : Nat) (cs : List Char) : Nat := cs.foldl (fun n c => 10 * n + ofChar c) acc

/-- The number a run of digits denotes. -/
def value (cs : List Char) : Nat := valueFrom 0 cs

/-- The number of a non-empty run that holds nothing but digits. -/
def value? (cs : List Char) : Option Nat :=
  if !cs.isEmpty && cs.all Char.isDigit then some (value cs) else none

/-- The digits of `n`, with zeros in front up to `width` of them. -/
def padded (width n : Nat) : List Char :=
  List.replicate (width - (ofNat n).length) '0' ++ ofNat n

/-- The exact text of `d / 10 ^ places`, with `places` digits after the point and no point when
there are none. -/
def fixedPoint (d places : Nat) : List Char :=
  if places = 0 then ofNat d
  else ofNat (d / 10 ^ places) ++ '.' :: padded places (d % 10 ^ places)

/-- The text of an integer, with a leading minus when it is negative. -/
def ofInt : Int → List Char
  | .ofNat n => ofNat n
  | .negSucc n => '-' :: ofNat (n + 1)

/-- The value of a base-sixteen digit. -/
def hexValue? (c : Char) : Option Nat :=
  if c.isDigit then some (ofChar c)
  else if 'a' ≤ c ∧ c ≤ 'f' then some (c.toNat - 'a'.toNat + 10)
  else if 'A' ≤ c ∧ c ≤ 'F' then some (c.toNat - 'A'.toNat + 10)
  else none

end Digits

/-- Decimal text of a natural number. -/
def natText (n : Nat) : String := String.ofList (Digits.ofNat n)

/-- Decimal text of an integer. -/
def intText (i : Int) : String := String.ofList (Digits.ofInt i)

/-- Lower-case base-sixteen text of a natural number, with zeros in front up to `width` digits. -/
def hexText (width n : Nat) : String :=
  let digits := Nat.toDigits 16 n
  String.ofList (List.replicate (width - digits.length) '0' ++ digits)

end SqlRecord
