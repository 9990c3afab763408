import SqlRecord.BoundedInt
import SqlRecord.Power

/-!
# Binary floating-point numbers

A floating-point number is its bit pattern in an interchange format. `Floating.datum` says what
a pattern denotes, and `Floating.ofRatio` rounds an exact non-negative ratio to the nearest
pattern, ties going to the even one. Every other conversion (from integers, from decimals,
between formats) is one of these two followed by the other, in exact integer arithmetic.
-/

namespace SqlRecord

/-- An interchange format: the widths of its exponent and fraction fields. -/
structure Format where
  exponentBits : Nat
  fractionBits : Nat
  deriving DecidableEq

namespace Format

def binary16 : Format := ⟨5, 10⟩

def binary32 : Format := ⟨8, 23⟩

def binary64 : Format := ⟨11, 52⟩

variable (f : Format)

/-- Bits of a magnitude, that is, of a pattern without its sign bit. -/
def magnitudeBits : Nat := f.exponentBits + f.fractionBits

/-- Bits of a whole pattern. -/
def width : Nat := f.magnitudeBits + 1

/-- The exponent of two carried by the last fraction bit of the least numbers. -/
def leastExponent : Int := 2 - 2 ^ (f.exponentBits - 1) - f.fractionBits

/-- The magnitude of an infinity; the magnitudes above it are those of the NaNs. -/
def infinity : Nat := (2 ^ f.exponentBits - 1) * 2 ^ f.fractionBits

end Format

/-- A floating-point number in the format `f`. -/
structure Floating (f : Format) where
  bits : BitVec f.width
  deriving DecidableEq

abbrev Binary16 := Floating .binary16

abbrev Binary32 := Floating .binary32

abbrev Binary64 := Floating .binary64

/-- What a bit pattern denotes; a finite one denotes `significand * 2 ^ exponent`, signed. -/
inductive Datum where
  | finite (negative : Bool) (significand : Nat) (exponent : Int)
  | infinite (negative : Bool)
  | nan
  deriving DecidableEq

/-- The quotient `n / d` rounded to the nearest natural number, a tie going to the even one. -/
def divNearestEven (n d : Nat) : Nat :=
  let q := n / d
  let r := n % d
  if 2 * r < d then q
  else if d < 2 * r then q + 1
  else if q % 2 = 0 then q else q + 1

namespace Format

variable (f : Format)

/-- The magnitude nearest to `n / d`, a tie going to the even one; past the finite numbers it is
the infinity. The exponent is the least that leaves the significand its full width, so that the
exponent and fraction fields are one sum and a carry out of the fraction needs no case of its
own. -/
def roundMagnitude (n d : Nat) : Nat :=
  if n = 0 then 0
  else
    let q := max f.leastExponent (floorLog2 n d - f.fractionBits)
    let m := divNearestEven (n * 2 ^ (-q).toNat) (d * 2 ^ q.toNat)
    min f.infinity ((q - f.leastExponent).toNat * 2 ^ f.fractionBits + m)

end Format

namespace Floating

variable {f g : Format}

/-- The pattern without its sign bit, as a number. -/
def magnitude (x : Floating f) : Nat := x.bits.toNat % 2 ^ f.magnitudeBits

/-- The sign bit. -/
def negative (x : Floating f) : Bool := decide (2 ^ f.magnitudeBits ≤ x.bits.toNat)

/-- The pattern with the given sign and magnitude. -/
def ofMagnitude (negative : Bool) (magnitude : Nat) : Floating f :=
  ⟨BitVec.ofNat f.width (if negative then 2 ^ f.magnitudeBits + magnitude else magnitude)⟩

/-- What the pattern denotes. -/
def datum (x : Floating f) : Datum :=
  let field := x.magnitude / 2 ^ f.fractionBits
  let fraction := x.magnitude % 2 ^ f.fractionBits
  if f.infinity < x.magnitude then .nan
  else if f.infinity = x.magnitude then .infinite x.negative
  else if field = 0 then .finite x.negative fraction f.leastExponent
  else .finite x.negative (2 ^ f.fractionBits + fraction) (f.leastExponent + field - 1)

def isFinite (x : Floating f) : Bool := decide (x.magnitude < f.infinity)

def isNaN (x : Floating f) : Bool := decide (f.infinity < x.magnitude)

def zero : Floating f := ofMagnitude false 0

instance : Inhabited (Floating f) := ⟨zero⟩

/-- The one NaN that conversions produce: positive, with the first fraction bit set. -/
def canonicalNaN : Floating f := ofMagnitude false (f.infinity + 2 ^ (f.fractionBits - 1))

/-- The same number, with every NaN replaced by the canonical one. -/
def canonical (x : Floating f) : Floating f := if x.isNaN then canonicalNaN else x

/-- The number nearest to `n / d` with the given sign. -/
def ofRatio (f : Format) (negative : Bool) (n d : Nat) : Floating f :=
  ofMagnitude negative (f.roundMagnitude n d)

/-- The number nearest to `significand * 2 ^ exponent` with the given sign. -/
def ofScaled (f : Format) (negative : Bool) (significand : Nat) (exponent : Int) : Floating f :=
  ofRatio f negative (significand * 2 ^ exponent.toNat) (2 ^ (-exponent).toNat)

/-- The number nearest to an integer. -/
def ofInt (f : Format) (i : Int) : Floating f := ofRatio f (decide (i < 0)) i.natAbs 1

/-- The number nearest to `digits * 10 ^ exponent` with the given sign. Exponents far outside the
format are settled without computing the power: ten bits exceed three decimal digits, so the
result is zero or infinite there. -/
def ofDecimal (f : Format) (negative : Bool) (digits : Nat) (exponent : Int) : Floating f :=
  if digits = 0 then ofMagnitude negative 0
  else if (2 : Int) ^ f.exponentBits < exponent then ofMagnitude negative f.infinity
  else if exponent + digits.log2 < -((2 : Int) ^ f.exponentBits + f.fractionBits) then
    ofMagnitude negative 0
  else ofRatio f negative (digits * 10 ^ exponent.toNat) (10 ^ (-exponent).toNat)

/-- The nearest number of another format. -/
def convert (g : Format) (x : Floating f) : Floating g :=
  match x.datum with
  | .finite negative significand exponent => ofScaled g negative significand exponent
  | .infinite negative => ofMagnitude negative g.infinity
  | .nan => canonicalNaN

/-- Numeric equality: a NaN equals nothing, and the two zeros are equal. -/
def numericEq (x y : Floating f) : Bool :=
  !x.isNaN && !y.isNaN && (x == y || (x.magnitude == 0 && y.magnitude == 0))

/-- The integer a finite number is exactly, if it is one. -/
def toInt? (x : Floating f) : Option Int :=
  match x.datum with
  | .finite negative significand exponent =>
    let n := significand * 2 ^ exponent.toNat
    let d := 2 ^ (-exponent).toNat
    if n % d = 0 then some (if negative then -(n / d : Nat) else (n / d : Nat)) else none
  | _ => none

end Floating

end SqlRecord
