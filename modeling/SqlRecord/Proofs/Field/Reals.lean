import SqlRecord.Proofs.Field.Lossless
import SqlRecord.Proofs.Field.Modes
import SqlRecord.Proofs.Floating.Shortest

/-!
# Decimals in cells of reals

A numeric column turns the text of a decimal into the nearest real. Fifteen digits are few enough
for the shortest decimal of that real to be the decimal again, so that nothing is lost. Main
statement: `NativeType.ofValue_nearest_real`.
-/

namespace SqlRecord

namespace Decimal

/-- The value of a decimal is its mantissa over a power of ten, with its sign. -/
theorem toRat_eq_withSign (d : Decimal) :
    d.toRat = withSign d.negative (d.mantissa / 10 ^ d.scale) := by
  rw [toRat, withSign, signedMantissa]
  split_ifs
  · push_cast
    rw [neg_div]
  · rfl

/-- Decimals are numerically equal exactly if they have one value. -/
theorem numericEq_iff {a b : Decimal} : a.numericEq b ↔ a.toRat = b.toRat := by
  have hpow : ∀ k : Nat, (10 : ℚ) ^ k ≠ 0 := fun k => by positivity
  rw [numericEq, toRat, toRat, div_eq_div_iff (hpow _) (hpow _)]
  exact_mod_cast Iff.rfl

/-- The decimal in scientific form, without trailing fraction zeros. -/
def scientific (d : Decimal) : Scientific := ⟨d.normalize.mantissa, -d.normalize.scale⟩

theorem toRat_scientific (d : Decimal) : d.scientific.toRat = d.mantissa / 10 ^ d.scale := by
  have hpow : ∀ k : Nat, (10 : ℚ) ^ k ≠ 0 := fun k => by positivity
  have hstrip : (d.normalize.mantissa : ℚ) * 10 ^ d.scale =
      d.mantissa * 10 ^ d.normalize.scale := by
    exact_mod_cast strip_spec d.mantissa d.scale
  rw [Scientific.toRat, scientific, zpow_neg, zpow_natCast, ← div_eq_mul_inv,
    div_eq_div_iff (hpow _) (hpow _), hstrip]

/-- Digits without trailing zeros have the fewest places that their number can be written with: with
more, they would end in a zero. -/
theorem places_le {digits m j k : Nat} (hlast : digits % 10 ≠ 0)
    (hplaces : digits * 10 ^ k = m * 10 ^ j) : j ≤ k := by
  by_contra hlt
  obtain ⟨e, rfl⟩ := Nat.exists_eq_add_of_lt (Nat.not_le.mp hlt)
  rw [Nat.add_assoc, Nat.add_comm k, Nat.pow_add, ← Nat.mul_assoc] at hplaces
  have hdigits := Nat.eq_of_mul_eq_mul_right (Nat.pow_pos (by decide)) hplaces
  rw [Nat.pow_succ, ← Nat.mul_assoc] at hdigits
  exact hlast (hdigits ▸ Nat.mul_mod_left _ _)

/-- A scientific decimal without trailing zeros is written as the text of a decimal, if it is the
number of one. -/
theorem exists_text {s : Scientific} {m k : Nat} (hm : m < mantissaLimit) (hk : k ≤ scaleLimit)
    (hlast : s.digits % 10 ≠ 0) (hvalue : s.toRat = m / 10 ^ k) (negative : Bool) :
    ∃ d : Decimal, d.text = (if negative then '-' :: s.positional else s.positional) ∧
      d.toRat = withSign negative s.toRat := by
  have hpow : ∀ k : Nat, (10 : ℚ) ^ k ≠ 0 := fun k => by positivity
  have hten : ∀ k : Nat, 0 < 10 ^ k := fun k => Nat.pow_pos (by decide)
  rcases s with ⟨digits, exponent⟩
  rw [eq_div_iff (hpow k), Scientific.toRat] at hvalue
  dsimp only at hlast hvalue
  rcases le_or_gt 0 exponent with hpos | hneg
  · obtain ⟨e, rfl⟩ := Int.eq_ofNat_of_zero_le hpos
    rw [zpow_natCast] at hvalue
    have hmantissa : digits * 10 ^ e * 10 ^ k = m := by exact_mod_cast hvalue
    have hle : digits * 10 ^ e ≤ m := hmantissa ▸ Nat.le_mul_of_pos_right _ (hten k)
    refine ⟨⟨negative, digits * 10 ^ e, 0, by omega, Nat.zero_le _⟩, ?_, ?_⟩
    · rw [text, Scientific.positional, if_pos hpos]
      rfl
    · rw [toRat_eq_withSign, Scientific.toRat, zpow_natCast, pow_zero, div_one]
      push_cast
      rfl
  · obtain ⟨j, rfl⟩ : ∃ j : Nat, exponent = -(j : Int) := ⟨(-exponent).toNat, by omega⟩
    have hplaces : digits * 10 ^ k = m * 10 ^ j := by
      rw [zpow_neg, zpow_natCast] at hvalue
      have hmul := congrArg (· * (10 : ℚ) ^ j) hvalue
      rw [mul_right_comm, inv_mul_cancel_right₀ (hpow j)] at hmul
      exact_mod_cast hmul
    have hjk := places_le hlast hplaces
    have hle : digits ≤ m := by
      refine Nat.le_of_mul_le_mul_right ?_ (hten k)
      rw [hplaces]
      exact Nat.mul_le_mul_left m (Nat.pow_le_pow_right (by decide) hjk)
    refine ⟨⟨negative, digits, j, by omega, by omega⟩, ?_, ?_⟩
    · rw [text, Scientific.positional, if_neg (not_le.mpr hneg), neg_neg, Int.toNat_natCast]
    · rw [toRat_eq_withSign, Scientific.toRat, zpow_neg, zpow_natCast, div_eq_mul_inv]

/-- A decimal of fifteen digits that is not zero is well within the numbers of full precision. -/
theorem roundMagnitude_bounds {d : Decimal} (hpos : d.mantissa ≠ 0)
    (hdigits : d.normalize.mantissa < 10 ^ 15) :
    2 ^ Format.binary64.fractionBits ≤
        Format.binary64.roundMagnitude d.mantissa (10 ^ d.scale) ∧
      Format.binary64.roundMagnitude d.mantissa (10 ^ d.scale) < Format.binary64.infinity := by
  have hmantissa := Nat.pos_of_ne_zero hpos
  have hpow : 0 < 10 ^ d.scale := Nat.pow_pos (by decide)
  have hleast : Format.binary64.leastExponent = -1074 := by decide
  have hunit : ∀ k : Nat, Format.binary64.unit k = 2 ^ (-1074 + k : Int) := fun k => by
    rw [Format.unit, hleast]
  constructor
  · refine Format.le_roundMagnitude hmantissa hpow (by decide) ?_
    have hscale : (10 : ℚ) ^ d.scale ≤ 10 ^ 28 := pow_le_pow_right₀ (by norm_num) d.scale_le
    have hone : (1 : ℚ) ≤ d.mantissa := by exact_mod_cast hmantissa
    calc 2 ^ 52 * Format.binary64.unit 0 ≤ 2 ^ 52 * 2 ^ (-146 : Int) := by
          rw [hunit]
          gcongr <;> norm_num
      _ ≤ 1 / 10 ^ 28 := by norm_num
      _ ≤ 1 / 10 ^ d.scale := one_div_le_one_div_of_le (by positivity) hscale
      _ ≤ d.mantissa / 10 ^ d.scale := div_le_div_of_nonneg_right hone (by positivity)
      _ = d.mantissa / ((10 ^ d.scale : Nat) : ℚ) := by push_cast; rfl
  · refine Format.roundMagnitude_lt (k := 1072) hmantissa hpow (by decide) ?_
    have hlt : (d.normalize.mantissa : ℚ) < 10 ^ 15 := by exact_mod_cast hdigits
    have hone : (1 : ℚ) ≤ 10 ^ d.normalize.scale := one_le_pow₀ (by norm_num)
    calc (d.mantissa : ℚ) / ((10 ^ d.scale : Nat) : ℚ) = d.scientific.toRat := by
          rw [toRat_scientific]
          push_cast
          rfl
      _ = d.normalize.mantissa / 10 ^ d.normalize.scale := by
          rw [Scientific.toRat, scientific, zpow_neg, zpow_natCast, div_eq_mul_inv]
      _ ≤ d.normalize.mantissa := div_le_self (Nat.cast_nonneg _) hone
      _ < 10 ^ 15 := hlt
      _ ≤ 2 ^ 52 * Format.binary64.unit 1072 := by rw [hunit]; norm_num

/-- The real that a numeric column makes of a decimal. -/
def real (d : Decimal) : Binary64 := .ofRatio .binary64 d.negative d.mantissa (10 ^ d.scale)

section

variable {d : Decimal} (hpos : d.mantissa ≠ 0) (hdigits : d.normalize.mantissa < 10 ^ 15)

include hpos hdigits

theorem real_parts : 2 ^ Format.binary64.fractionBits ≤ d.real.magnitude ∧
    d.real.magnitude = Format.binary64.roundMagnitude d.mantissa (10 ^ d.scale) ∧
    d.real.negative = d.negative := by
  obtain ⟨hfull, hfinite⟩ := roundMagnitude_bounds hpos hdigits
  have hlt := hfinite.trans (Floating.infinity_lt _)
  have hmagnitude : d.real.magnitude = _ := Floating.magnitude_ofMagnitude d.negative hlt
  exact ⟨hmagnitude ▸ hfull, hmagnitude, Floating.negative_ofMagnitude d.negative hlt⟩

/-- It is the nearest one. -/
theorem isNearest_iff {x : Binary64} : x.IsNearest d.toRat ↔ x = d.real := by
  have hnearest : d.real.IsNearest d.toRat := by
    have h := Floating.isNearest_ofRatio (Nat.pos_of_ne_zero hpos) (Nat.pow_pos (by decide))
      (by decide) (roundMagnitude_bounds hpos hdigits).2 d.negative
    rwa [Nat.cast_pow, Nat.cast_ofNat, ← toRat_eq_withSign] at h
  have hne : d.real.magnitude ≠ 0 :=
    ((Nat.pow_pos (by decide)).trans_le (real_parts hpos hdigits).1).ne'
  exact ⟨fun hx => hx.unique hnearest hne, fun hx => hx ▸ hnearest⟩

/-- The shortest decimal of that real is the decimal. -/
theorem text_real : ∃ d' : Decimal, d.real.text = d'.text ∧ d.numericEq d' := by
  obtain ⟨hfull, hmagnitude, hsign⟩ := real_parts hpos hdigits
  have hfinite := ((isNearest_iff hpos hdigits).mpr rfl).finite
  obtain ⟨significand, exponent, hdatum, -⟩ := Floating.exists_datum hfinite
  have hback : Floating.readsBack .binary64 d.real.magnitude d.scientific = true := by
    have hpow : ∀ k : Nat, ((10 ^ k : Nat) : ℚ) ≠ 0 := fun k => by positivity
    have hratio := d.scientific.toRat_eq_div.trans d.toRat_scientific
    rw [← Nat.cast_ofNat (R := ℚ) (n := 10), ← Nat.cast_pow,
      div_eq_div_iff (hpow _) (hpow _)] at hratio
    rw [Floating.readsBack, beq_iff_eq, hmagnitude]
    exact Format.roundMagnitude_congr _ (Nat.pow_pos (by decide)) (Nat.pow_pos (by decide))
      (by exact_mod_cast hratio)
  have hshortest := Floating.toRat_shortest hfinite hdatum hfull (c := 14) (by decide) (by decide)
    hdigits hback
  rw [d.toRat_scientific] at hshortest
  have hlast := Floating.digits_shortest (hshortest.trans_ne (by positivity))
  obtain ⟨d', htext, hrat⟩ := exists_text d.mantissa_lt d.scale_le hlast hshortest d.negative
  have hsignificand := Floating.significand_ne_zero hdatum
    ((Nat.pow_pos (by decide)).trans_le hfull).ne'
  refine ⟨d', ?_, numericEq_iff.mpr ?_⟩
  · rw [Floating.text, hdatum, htext, hsign]
    dsimp only
    rw [if_neg hsignificand]
  · rw [hrat, hshortest, toRat_eq_withSign]

end

end Decimal

namespace NativeType

/-- **Storing a decimal through a real loses nothing.** A decimal that is stored as a text has a
nearest real, from which the same number is read. -/
theorem ofValue_nearest_real {d : Decimal} {s : String}
    (h : decimal.toValue d = .ok (.text s)) :
    (∃ x : Binary64, x.IsNearest d.toRat) ∧ ∀ x : Binary64, x.IsNearest d.toRat →
      ∃ d' : Decimal, decimal.ofValue (.real x) = .ok d' ∧ d.numericEq d' := by
  have hvalue : decimalValue d = .ok (.text s) := h
  obtain ⟨_, n, hn⟩ | ⟨hcell, -⟩ := decimalValue_cases hvalue
  · cases hn
  have hdigits : d.normalize.mantissa < 10 ^ 15 := by
    by_contra hlarge
    obtain ⟨e, he⟩ := decimalValue_eq_error_iff.mpr ⟨hcell, Nat.not_lt.mp hlarge⟩
    cases hvalue.symm.trans he
  have hpos : d.mantissa ≠ 0 := by
    intro hzero
    have hsigned : d.signedMantissa = 0 := by
      rw [← Int.natAbs_eq_zero, Decimal.natAbs_signedMantissa, hzero]
    refine hcell ⟨⟨0, by decide, by decide⟩, ?_⟩
    rw [Decimal.numericEq, Decimal.signedMantissa_ofInt, hsigned, zero_mul, zero_mul]
  refine ⟨⟨d.real, (Decimal.isNearest_iff hpos hdigits).mpr rfl⟩, fun x hx => ?_⟩
  obtain rfl := (Decimal.isNearest_iff hpos hdigits).mp hx
  obtain ⟨d', htext, heq⟩ := Decimal.text_real hpos hdigits
  refine ⟨d'.unsignedZero, ?_, ?_⟩
  · have hread : decimal.ofValue (.real d.real) = readDecimal d.real.text := rfl
    rw [hread, htext, readDecimal, Decimal.read?_text]
    rfl
  · have hzero := d'.numericEq_unsignedZero
    rw [Decimal.numericEq_iff] at heq hzero ⊢
    exact heq.trans hzero

/-- A decimal of fifteen digits, the last of them at the last place that decimals have. -/
theorem ofValue_nearest_real_places :
    decimal.toValue (⟨true, 123456789012345, 28, by decide, by decide⟩ : Decimal) =
      .ok (.text "-0.0000000000000123456789012345") ∧
    ∃ x : Binary64,
      x.IsNearest (Decimal.toRat ⟨true, 123456789012345, 28, by decide, by decide⟩) ∧
      ∃ d' : Decimal, decimal.ofValue (.real x) = .ok d' ∧
        Decimal.numericEq ⟨true, 123456789012345, 28, by decide, by decide⟩ d' := by
  have hvalue : decimal.toValue (⟨true, 123456789012345, 28, by decide, by decide⟩ : Decimal) =
      .ok (.text "-0.0000000000000123456789012345") := by decide +kernel
  obtain ⟨⟨x, hx⟩, hread⟩ := ofValue_nearest_real hvalue
  exact ⟨hvalue, x, hx, hread x hx⟩

end NativeType

end SqlRecord
