import SqlRecord.Floating.Text
import SqlRecord.Proofs.Digits
import SqlRecord.Proofs.Floating.Rounding

/-!
# Reals read back

A real is written as the shortest decimal that rounds to it, with a point, so its literal reads
back as the same bits. Main statement: `Floating.nearest_realText`. The sign is written in front of
the text of the absolute value (`Floating.realText_eq_abs`).
-/

namespace SqlRecord

namespace Floating

variable {f : Format}

/-! ### Signs -/

theorem two_pow_width (f : Format) : 2 ^ f.width = 2 * 2 ^ f.magnitudeBits := by
  rw [Format.width, Nat.pow_succ']

theorem magnitude_lt (x : Floating f) : x.magnitude < 2 ^ f.magnitudeBits :=
  Nat.mod_lt _ (Nat.pow_pos (by decide))

/-- A number of a sign and a magnitude has this magnitude. -/
theorem magnitude_ofMagnitude (negative : Bool) {m : Nat} (hm : m < 2 ^ f.magnitudeBits) :
    (ofMagnitude (f := f) negative m).magnitude = m := by
  have hwidth := two_pow_width f
  rw [magnitude, ofMagnitude, BitVec.toNat_ofNat, hwidth]
  cases negative with
  | false => rw [if_neg (by decide), Nat.mod_mul_left_mod, Nat.mod_eq_of_lt hm]
  | true => rw [if_pos rfl, Nat.mod_mul_left_mod, Nat.add_mod_left, Nat.mod_eq_of_lt hm]

theorem negative_ofMagnitude (negative : Bool) {m : Nat} (hm : m < 2 ^ f.magnitudeBits) :
    (ofMagnitude (f := f) negative m).negative = negative := by
  have hwidth := two_pow_width f
  rw [Floating.negative, ofMagnitude, BitVec.toNat_ofNat]
  cases negative with
  | false =>
    rw [if_neg (by decide), Nat.mod_eq_of_lt (by omega)]
    exact decide_eq_false (by omega)
  | true =>
    rw [if_pos rfl, Nat.mod_eq_of_lt (by omega)]
    exact decide_eq_true (Nat.le_add_right _ _)

/-- A pattern is its sign and its magnitude. -/
theorem ofMagnitude_magnitude (x : Floating f) : ofMagnitude x.negative x.magnitude = x := by
  have hwidth := two_pow_width f
  have hbits : x.bits.toNat < 2 ^ f.width := x.bits.isLt
  have hsum : (if x.negative = true then 2 ^ f.magnitudeBits + x.magnitude else x.magnitude) =
      x.bits.toNat := by
    rw [Floating.negative, magnitude]
    by_cases h : 2 ^ f.magnitudeBits ≤ x.bits.toNat
    · rw [if_pos (decide_eq_true h), Nat.mod_eq_sub_mod h, Nat.mod_eq_of_lt (by omega)]
      omega
    · rw [if_neg (by simpa using h), Nat.mod_eq_of_lt (by omega)]
  rw [ofMagnitude, hsum, BitVec.ofNat_toNat, BitVec.setWidth_eq]

/-- The absolute value: the same magnitude without the sign. -/
def abs (x : Floating f) : Floating f := ofMagnitude false x.magnitude

@[simp] theorem magnitude_abs (x : Floating f) : x.abs.magnitude = x.magnitude :=
  magnitude_ofMagnitude false x.magnitude_lt

@[simp] theorem negative_abs (x : Floating f) : x.abs.negative = false :=
  negative_ofMagnitude false x.magnitude_lt

theorem isFinite_abs (x : Floating f) : x.abs.isFinite = x.isFinite := by
  rw [isFinite, isFinite, magnitude_abs]

theorem abs_of_nonnegative {x : Floating f} (h : x.negative = false) : x.abs = x := by
  rw [abs, ← h, ofMagnitude_magnitude]

/-- Numbers are told apart by their sign and the rest. -/
theorem ext_of_abs {x y : Floating f} (hsign : x.negative = y.negative) (h : x.abs = y.abs) :
    x = y := by
  rw [← x.ofMagnitude_magnitude, ← y.ofMagnitude_magnitude, hsign, ← x.magnitude_abs, h,
    magnitude_abs]

/-- A finite pattern denotes a number; the number of the absolute value differs in the sign only. -/
theorem exists_datum {x : Floating f} (h : x.isFinite = true) :
    ∃ significand exponent, x.datum = .finite x.negative significand exponent ∧
      x.abs.datum = .finite false significand exponent := by
  have hlt : x.magnitude < f.infinity := of_decide_eq_true h
  have hnan : ¬f.infinity < x.magnitude := by omega
  have hinf : ¬f.infinity = x.magnitude := by omega
  rw [datum, datum, magnitude_abs, negative_abs]
  rw [if_neg hnan, if_neg hnan, if_neg hinf, if_neg hinf]
  by_cases hfield : x.magnitude / 2 ^ f.fractionBits = 0
  · rw [if_pos hfield, if_pos hfield]
    exact ⟨_, _, rfl, rfl⟩
  · rw [if_neg hfield, if_neg hfield]
    exact ⟨_, _, rfl, rfl⟩

/-! ### The shortest decimal -/

/-- Whether a decimal reads back depends on its value only. -/
theorem readsBack_congr {m : Nat} {d e : Scientific}
    (h : d.digits * 10 ^ d.exponent.toNat * 10 ^ (-e.exponent).toNat =
      e.digits * 10 ^ e.exponent.toNat * 10 ^ (-d.exponent).toNat) :
    readsBack f m d = readsBack f m e := by
  have hpow : ∀ k : Nat, 0 < 10 ^ k := fun k => Nat.pow_pos (by decide)
  rw [readsBack, readsBack, f.roundMagnitude_congr (hpow _) (hpow _) h]

/-- Zeros at the end do not change what reads back. -/
theorem readsBack_stripFuel {m : Nat} (fuel : Nat) (d : Scientific) :
    readsBack f m (d.stripFuel fuel) = readsBack f m d := by
  induction fuel generalizing d with
  | zero => rfl
  | succ fuel ih =>
    rw [Scientific.stripFuel]
    split_ifs with h
    · have hdigits : d.digits = 10 * (d.digits / 10) := by omega
      rw [ih]
      refine readsBack_congr ?_
      dsimp only
      generalize hk : d.digits / 10 = k at hdigits
      rw [hdigits]
      -- the exponent goes up by one, on one side of zero or the other
      rcases lt_or_ge d.exponent 0 with hneg | hpos
      · have h₁ : (d.exponent + 1).toNat = 0 := by omega
        have h₂ : d.exponent.toNat = 0 := by omega
        have h₃ : (-d.exponent).toNat = (-(d.exponent + 1)).toNat + 1 := by omega
        rw [h₁, h₂, h₃, Nat.pow_succ]
        ring
      · have h₁ : (-(d.exponent + 1)).toNat = 0 := by omega
        have h₂ : (-d.exponent).toNat = 0 := by omega
        have h₃ : (d.exponent + 1).toNat = d.exponent.toNat + 1 := by omega
        rw [h₁, h₂, h₃, Nat.pow_succ]
        ring
    · rfl

/-- A decimal that is found on a grid reads back. -/
theorem readsBack_onGrid? {m n d : Nat} {exponent : Int} {s : Scientific}
    (h : onGrid? f m n d exponent = some s) : readsBack f m s = true := by
  rw [onGrid?] at h
  split at h
  next hbelow habove =>
    split_ifs at h
    · exact Option.some.inj h ▸ hbelow
    · exact Option.some.inj h ▸ habove
  next hbelow _ => exact Option.some.inj h ▸ hbelow
  next _ habove => exact Option.some.inj h ▸ habove
  next => cases h

/-- The shortest decimal of a number reads back as the number. -/
theorem readsBack_shortest {x : Floating f} {negative : Bool} {significand : Nat} {exponent : Int}
    (h : x.datum = .finite negative significand exponent) :
    readsBack f x.magnitude (shortest f x.magnitude significand exponent) = true := by
  rw [shortest, Scientific.strip, readsBack_stripFuel]
  cases hfound : (List.range 17).findSome? fun (k : Nat) =>
      onGrid? f x.magnitude (significand * 2 ^ exponent.toNat) (2 ^ (-exponent).toNat)
        (floorLog10 (significand * 2 ^ exponent.toNat) (2 ^ (-exponent).toNat) - k) with
  | some s =>
    obtain ⟨k, -, hk⟩ := List.exists_of_findSome?_eq_some hfound
    exact readsBack_onGrid? hk
  | none =>
    -- with no decimal on a grid, the number is written out exactly
    have hpow : ∀ b k : Nat, 0 < b → 0 < b ^ k := fun b k => Nat.pow_pos
    have hmin : (min exponent 0).toNat = 0 := by omega
    have hneg : (-min exponent 0).toNat = (-exponent).toNat := by omega
    have hten : (10 : Nat) ^ (-exponent).toNat = 5 ^ (-exponent).toNat * 2 ^ (-exponent).toNat := by
      rw [← Nat.mul_pow]
    rw [Option.getD_none, readsBack, beq_iff_eq, ← roundMagnitude_of_datum h]
    refine f.roundMagnitude_congr (hpow _ _ (by decide)) (hpow _ _ (by decide)) ?_
    dsimp only
    rw [hmin, hneg, hten]
    ring

/-! ### Literals -/

/-- A text with `.0` after it if it has no point, as the literals of reals have one. -/
def withPoint (text : List Char) : List Char :=
  if text.contains '.' then text else text ++ ['.', '0']

/-- The text of a real as a literal. -/
def realText (x : Floating f) : List Char := withPoint x.text

theorem contains_point_of_isDigits {cs : List Char} (h : Literal.isDigits cs = true) :
    cs.contains '.' = false := by
  rw [List.contains_eq_mem, decide_eq_false_iff_not]
  intro hc
  exact absurd ((Literal.isDigits_iff.mp h).2 '.' hc) (by decide)

/-- The literal of a real is not the text of a whole number. -/
theorem isDigits_realText (x : Floating f) : Literal.isDigits x.realText = false := by
  have hpoint : '.' ∈ x.realText := by
    rw [realText, withPoint]
    split_ifs with h
    · simpa using h
    · simp
  exact Literal.isDigits_of_point hpoint

/-- The literal of a decimal: digits around a point, denoting the decimal. -/
theorem withPoint_positional (d : Scientific) :
    ∃ whole fraction, withPoint d.positional = whole ++ '.' :: fraction ∧
      Literal.isDigits whole = true ∧ Literal.isDigits fraction = true ∧
      d.digits * 10 ^ d.exponent.toNat * 10 ^ fraction.length =
        Digits.value (whole ++ fraction) * 10 ^ (-d.exponent).toNat := by
  rw [Scientific.positional]
  split_ifs with h
  · have hneg : (-d.exponent).toNat = 0 := by omega
    have hdigits := Digits.isDigits_ofNat (d.digits * 10 ^ d.exponent.toNat)
    refine ⟨Digits.ofNat (d.digits * 10 ^ d.exponent.toNat), ['0'], ?_, hdigits, by decide, ?_⟩
    · rw [Digits.fixedPoint, if_pos rfl, withPoint, contains_point_of_isDigits hdigits]
      rfl
    · have hzero : Digits.value ['0'] = 0 := rfl
      rw [Digits.value_append, Digits.value_ofNat, hzero, hneg]
      simp [Nat.mul_comm]
  · have hplaces : 0 < (-d.exponent).toNat := by omega
    have hpos : d.exponent.toNat = 0 := by omega
    obtain ⟨whole, fraction, htext, hw, hf, hlength, hvalue⟩ :=
      Digits.fixedPoint_eq hplaces d.digits
    refine ⟨whole, fraction, ?_, hw, hf, ?_⟩
    · rw [htext, withPoint, if_pos (by simp)]
    · rw [hpos, hlength, hvalue, Nat.pow_zero, Nat.mul_one]

/-- A decimal without a positive exponent is rounded as a ratio; a decimal too small to be computed
is zero either way. -/
theorem ofDecimal_neg (negative : Bool) (digits places : Nat) :
    ofDecimal .binary64 negative digits (-(places : Int)) =
      ofRatio .binary64 negative digits (10 ^ places) := by
  have hleast : Format.binary64.leastExponent = -1074 := by decide
  rw [ofDecimal]
  split_ifs with hzero hhuge htiny
  · rw [ofRatio, hzero, Format.roundMagnitude_zero]
  · have : (0 : Int) ≤ 2 ^ Format.binary64.exponentBits := by decide
    omega
  · have hbound : -((2 : Int) ^ Format.binary64.exponentBits + Format.binary64.fractionBits) =
        -2100 := by decide
    rw [hbound] at htiny
    -- a decimal with so many places is below half of the least number
    have hten : 2 * (digits * 2 ^ (-Format.binary64.leastExponent).toNat) < 10 ^ places := by
      generalize hk : (-Format.binary64.leastExponent).toNat = k
      have hdigits : digits < 2 ^ (digits.log2 + 1) := Nat.lt_log2_self
      calc 2 * (digits * 2 ^ k) = digits * 2 ^ (k + 1) := by rw [Nat.pow_succ]; ring
        _ < 2 ^ (digits.log2 + 1) * 2 ^ (k + 1) :=
          Nat.mul_lt_mul_of_pos_right hdigits (Nat.pow_pos (by decide))
        _ = 2 ^ (digits.log2 + 1 + (k + 1)) := (Nat.pow_add ..).symm
        _ ≤ 2 ^ places := Nat.pow_le_pow_right (by decide) (by omega)
        _ ≤ 10 ^ places := Nat.pow_le_pow_left (by decide) places
    rw [ofRatio, Format.roundMagnitude_of_tiny _ hten (by rw [hleast]; decide)]
  · have hpos : (-(places : Int)).toNat = 0 := by omega
    have hneg : (- -(places : Int)).toNat = places := by omega
    rw [hpos, hneg, Nat.pow_zero, Nat.mul_one]

theorem infinity_lt (f : Format) : f.infinity < 2 ^ f.magnitudeBits := by
  have hfraction : 0 < 2 ^ f.fractionBits := Nat.pow_pos (by decide)
  have hexponent : 0 < 2 ^ f.exponentBits := Nat.pow_pos (by decide)
  rw [Format.infinity, Format.magnitudeBits, Nat.pow_add]
  exact Nat.mul_lt_mul_of_pos_right (by omega) hfraction

/-- A decimal is rounded without its sign. -/
theorem ofDecimal_of_abs {x : Floating f} {digits : Nat} {exponent : Int}
    (h : ofDecimal f false digits exponent = x.abs) :
    ofDecimal f x.negative digits exponent = x := by
  obtain ⟨m, hm, hsign⟩ : ∃ m < 2 ^ f.magnitudeBits,
      ∀ negative, ofDecimal f negative digits exponent = ofMagnitude negative m := by
    simp only [ofDecimal]
    split_ifs
    · exact ⟨0, Nat.pow_pos (by decide), fun _ => rfl⟩
    · exact ⟨f.infinity, infinity_lt f, fun _ => rfl⟩
    · exact ⟨0, Nat.pow_pos (by decide), fun _ => rfl⟩
    · refine ⟨_, lt_of_le_of_lt ?_ (infinity_lt f), fun _ => rfl⟩
      rw [Format.roundMagnitude]
      split_ifs
      · exact Nat.zero_le _
      · exact Nat.min_le_left _ _
  rw [hsign] at h ⊢
  have hmagnitude := congrArg magnitude h
  rw [magnitude_ofMagnitude false hm, magnitude_abs] at hmagnitude
  rw [hmagnitude, ofMagnitude_magnitude]

/-- The text of a finite number: that of its shortest decimal, after a sign if it is negative. -/
theorem text_eq {x : Floating f} {negative : Bool} {significand : Nat} {exponent : Int}
    (h : x.datum = .finite negative significand exponent) :
    ∃ d : Scientific, readsBack f x.magnitude d = true ∧
      x.text = if negative then '-' :: d.positional else d.positional := by
  -- zero has a text of its own
  by_cases hzero : significand = 0
  · have hmag : x.magnitude = 0 := by
      rw [← roundMagnitude_of_datum h, hzero, Nat.zero_mul, f.roundMagnitude_zero]
    refine ⟨⟨0, 0⟩, ?_, ?_⟩
    · rw [readsBack, Nat.zero_mul, f.roundMagnitude_zero, hmag]
      rfl
    · rw [text, h]
      dsimp only
      rw [if_pos hzero]
      rfl
  · refine ⟨shortest f x.magnitude significand exponent, readsBack_shortest h, ?_⟩
    rw [text, h]
    dsimp only
    rw [if_neg hzero]

/-- **The literal of a real without a sign is a number that reads back as its bits.** -/
theorem nearest_realText {x : Binary64} (hfinite : x.isFinite = true)
    (hsign : x.negative = false) :
    Literal.isUnsignedNumeric x.realText = true ∧
      Numeral.nearest .binary64 false x.realText = x := by
  obtain ⟨significand, exponent, hdatum, -⟩ := exists_datum hfinite
  rw [hsign] at hdatum
  obtain ⟨d, hback, htext⟩ := text_eq hdatum
  rw [if_neg (by decide)] at htext
  obtain ⟨whole, fraction, hpoint, hw, hf, hratio⟩ := withPoint_positional d
  rw [realText, htext, hpoint]
  constructor
  · exact Literal.isUnsignedNumeric_iff.mpr (.inr ⟨whole, fraction, rfl, hw, hf⟩)
  · have hpow : ∀ k : Nat, 0 < 10 ^ k := fun k => Nat.pow_pos (by decide)
    rw [Numeral.nearest, Numeral.digits_point hw hf, Numeral.exponent_point hw hf, ofDecimal_neg,
      ofRatio, ← Format.roundMagnitude_congr _ (hpow _) (hpow _) hratio, beq_iff_eq.mp hback,
      ← hsign, ofMagnitude_magnitude]

/-- A finite real is written as its absolute value, after a minus if it is negative. -/
theorem realText_eq_abs {x : Floating f} (hfinite : x.isFinite = true) :
    x.realText = if x.negative then '-' :: x.abs.realText else x.abs.realText := by
  split_ifs with hsign
  · obtain ⟨significand, exponent, hdatum, habs⟩ := exists_datum hfinite
    have htext : x.text = '-' :: x.abs.text := by
      rw [text, text, hdatum, habs, hsign, magnitude_abs]
      rfl
    have hcontains : ('-' :: x.abs.text).contains '.' = x.abs.text.contains '.' := by
      simp
    rw [realText, realText, htext, withPoint, withPoint, hcontains]
    split_ifs <;> rfl
  · rw [abs_of_nonnegative (by simpa using hsign)]

end Floating

/-- A finite real has a literal, and no other real has one. -/
theorem Literal.ofReal_eq_ok_iff {x : Binary64} {text : String} :
    Literal.ofReal x = .ok text ↔ x.isFinite = true ∧ text = String.ofList x.realText := by
  rw [Literal.ofReal]
  split_ifs with h
  · rw [Except.ok.injEq, eq_comm]
    exact (and_iff_right h).symm
  · simp [h]

end SqlRecord
