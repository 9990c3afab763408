import SqlRecord.Digits
import SqlRecord.Floating.Basic

/-!
# Shortest decimal text of a floating-point number

`Floating.shortest` selects the decimal with the fewest digits that rounds back to the number,
and among those with equally many the one nearest to it, the greater one on a tie. For each count
of digits only the two neighbours of the number on that decimal grid can qualify: if a grid point
rounds to the number, so does one of the two neighbours. `Floating.text` writes the selected
digits positionally, never with an exponent.
-/

namespace SqlRecord

/-- The decimal `digits * 10 ^ exponent`. -/
structure Scientific where
  digits : Nat
  exponent : Int
  deriving DecidableEq

namespace Scientific

/-- The same decimal without trailing zeros; `fuel` bounds how many are removed. -/
def stripFuel : Nat → Scientific → Scientific
  | 0, d => d
  | fuel + 1, d =>
    if d.digits % 10 = 0 ∧ d.digits ≠ 0 then stripFuel fuel ⟨d.digits / 10, d.exponent + 1⟩ else d

/-- The same decimal without trailing zeros. -/
def strip (d : Scientific) : Scientific := stripFuel (Digits.ofNat d.digits).length d

/-- Positional text, without an exponent. -/
def positional (d : Scientific) : List Char :=
  if 0 ≤ d.exponent then Digits.fixedPoint (d.digits * 10 ^ d.exponent.toNat) 0
  else Digits.fixedPoint d.digits (-d.exponent).toNat

end Scientific

/-- The greatest `k` with `10 ^ k ≤ n / d`, for positive `n` and `d`. Below one it is read off the
integer part of the inverse, which is a power of ten exactly when the inverse is. -/
def floorLog10 (n d : Nat) : Int :=
  if d ≤ n then (Digits.ofNat (n / d)).length - 1
  else
    let length := (Digits.ofNat (d / n)).length
    if d % n = 0 ∧ d / n = 10 ^ (length - 1) then -(length - 1 : Nat) else -length

namespace Floating

variable {f : Format}

/-- Whether the decimal rounds to the magnitude. -/
def readsBack (f : Format) (magnitude : Nat) (d : Scientific) : Bool :=
  f.roundMagnitude (d.digits * 10 ^ d.exponent.toNat) (10 ^ (-d.exponent).toNat) == magnitude

/-- Of the two neighbours of `n / d` on the grid of multiples of `10 ^ exponent`, the one that
rounds to the magnitude; of two such the nearer, the greater one on a tie. -/
def onGrid? (f : Format) (magnitude n d : Nat) (exponent : Int) : Option Scientific :=
  let a := n * 10 ^ (-exponent).toNat
  let b := d * 10 ^ exponent.toNat
  let below : Scientific := ⟨a / b, exponent⟩
  let above : Scientific := ⟨a / b + 1, exponent⟩
  match readsBack f magnitude below, readsBack f magnitude above with
  | true, true => some (if 2 * (a % b) < b then below else above)
  | true, false => some below
  | false, true => some above
  | false, false => none

/-- The shortest decimal that rounds to `significand * 2 ^ exponent`, whose magnitude is given.
Seventeen digits identify every number of the formats in use; the exact value stands in should
they not. -/
def shortest (f : Format) (magnitude significand : Nat) (exponent : Int) : Scientific :=
  let n := significand * 2 ^ exponent.toNat
  let d := 2 ^ (-exponent).toNat
  let top := floorLog10 n d
  let found := (List.range 17).findSome? fun (k : Nat) => onGrid? f magnitude n d (top - k)
  (found.getD ⟨significand * 2 ^ exponent.toNat * 5 ^ (-exponent).toNat, min exponent 0⟩).strip

/-- The text of a number: shortest digits, positional, with a sign on negative zero. -/
def text (x : Floating f) : List Char :=
  match x.datum with
  | .nan => "NaN".toList
  | .infinite negative => (if negative then "-inf" else "inf").toList
  | .finite negative significand exponent =>
    let digits :=
      if significand = 0 then ['0'] else (shortest f x.magnitude significand exponent).positional
    if negative then '-' :: digits else digits

end Floating

end SqlRecord
