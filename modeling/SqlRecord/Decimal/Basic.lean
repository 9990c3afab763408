import SqlRecord.Digits

/-!
# Decimal numbers

A decimal number is a sign, a mantissa below `2 ^ 96` and a scale of at most 28: it denotes
`mantissa / 10 ^ scale`. The scale belongs to the value (`1.5` and `1.50` differ as data), so
numeric equality is a relation of its own, `Decimal.numericEq`.
-/

namespace SqlRecord

/-- The bound of mantissas, two to the power 96. -/
def Decimal.mantissaLimit : Nat := 0x1000000000000000000000000

/-- The greatest scale. -/
def Decimal.scaleLimit : Nat := 28

/-- A decimal number: `mantissa / 10 ^ scale`, signed. Zero may carry a sign. -/
structure Decimal where
  negative : Bool
  mantissa : Nat
  scale : Nat
  mantissa_lt : mantissa < Decimal.mantissaLimit
  scale_le : scale ≤ Decimal.scaleLimit
  deriving DecidableEq

namespace Decimal

/-- The decimal with these parts, if they are within the limits. -/
def ofParts? (negative : Bool) (mantissa scale : Nat) : Option Decimal :=
  if h : mantissa < mantissaLimit ∧ scale ≤ scaleLimit then
    some ⟨negative, mantissa, scale, h.1, h.2⟩
  else none

def zero : Decimal := ⟨false, 0, 0, by decide, by decide⟩

instance : Inhabited Decimal := ⟨zero⟩

/-- A mantissa and scale without trailing fraction zeros. -/
def strip (mantissa : Nat) : Nat → Nat × Nat
  | 0 => (mantissa, 0)
  | scale + 1 => if mantissa % 10 = 0 then strip (mantissa / 10) scale else (mantissa, scale + 1)

theorem strip_fst_le (mantissa scale : Nat) : (strip mantissa scale).1 ≤ mantissa := by
  induction scale generalizing mantissa with
  | zero => exact Nat.le_refl _
  | succ scale ih =>
    unfold strip
    split
    · exact Nat.le_trans (ih _) (Nat.div_le_self _ _)
    · exact Nat.le_refl _

theorem strip_snd_le (mantissa scale : Nat) : (strip mantissa scale).2 ≤ scale := by
  induction scale generalizing mantissa with
  | zero => exact Nat.le_refl _
  | succ scale ih =>
    unfold strip
    split
    · exact Nat.le_succ_of_le (ih _)
    · exact Nat.le_refl _

/-- The same number without trailing fraction zeros and without a sign on zero. -/
def normalize (d : Decimal) : Decimal where
  negative := d.negative && d.mantissa != 0
  mantissa := (strip d.mantissa d.scale).1
  scale := (strip d.mantissa d.scale).2
  mantissa_lt := Nat.lt_of_le_of_lt (strip_fst_le _ _) d.mantissa_lt
  scale_le := Nat.le_trans (strip_snd_le _ _) d.scale_le

/-- The mantissa with its sign. -/
def signedMantissa (d : Decimal) : Int := if d.negative then -d.mantissa else d.mantissa

/-- Whether two decimals denote the same number. -/
def numericEq (a b : Decimal) : Prop :=
  a.signedMantissa * 10 ^ b.scale = b.signedMantissa * 10 ^ a.scale

instance (a b : Decimal) : Decidable (numericEq a b) := by unfold numericEq; infer_instance

/-- The whole number a decimal denotes, if it is whole once trailing zeros are dropped. -/
def whole? (d : Decimal) : Option Int :=
  if d.normalize.scale = 0 then some d.normalize.signedMantissa else none

/-- Count of significant digits once trailing fraction zeros are dropped; zero has none. -/
def significantDigits (d : Decimal) : Nat :=
  if d.normalize.mantissa = 0 then 0 else (Digits.ofNat d.normalize.mantissa).length

/-- The text of a decimal: exactly `scale` digits after the point. -/
def text (d : Decimal) : List Char :=
  let digits := Digits.fixedPoint d.mantissa d.scale
  if d.negative then '-' :: digits else digits

/-- The decimal of an integer of at most 64 bits. -/
def ofInt (i : Int) (h : i.natAbs < mantissaLimit) : Decimal :=
  ⟨decide (i < 0), i.natAbs, 0, h, by decide⟩

end Decimal

end SqlRecord
