import SqlRecord.Decimal.Reader
import SqlRecord.Proofs.Digits

/-!
# Decimals read back

The text of a decimal has every digit of its mantissa, and as many after the point as its scale, so
that no digit is rounded away when it is read. Main statement: `Decimal.read?_text`.
-/

namespace SqlRecord

namespace Digits

theorem le_valueFrom (n : Nat) (cs : List Char) : n ≤ valueFrom n cs := by
  induction cs generalizing n with
  | nil => exact Nat.le_refl n
  | cons c cs ih => exact le_trans (by omega) (ih (10 * n + ofChar c))

/-- Digits are read one after the other, so that those of a text may be read in two parts. -/
theorem valueFrom_append (n : Nat) (cs ds : List Char) :
    valueFrom n (cs ++ ds) = valueFrom (valueFrom n cs) ds := List.foldl_append

end Digits

namespace Decimal

/-! ### Digits -/

theorem natAbs_signedMantissa (d : Decimal) : d.signedMantissa.natAbs = d.mantissa := by
  rw [signedMantissa]
  split_ifs <;> simp

/-- Significant digits are counted by powers of ten. -/
theorem lt_significantDigits_iff {d : Decimal} {k : Nat} (hk : 0 < k) :
    k < d.significantDigits ↔ 10 ^ k ≤ d.normalize.mantissa := by
  have hpow : 0 < 10 ^ k := Nat.pow_pos (by decide)
  have hlength : (Digits.ofNat d.normalize.mantissa).length ≤ k ↔ d.normalize.mantissa < 10 ^ k :=
    Nat.length_toDigits_le_iff (by decide) hk
  rw [significantDigits]
  split_ifs <;> omega

/-- Digits before the point are read up to the bound of mantissas. -/
theorem readDigits_whole {cs rest : List Char} {m scale : Nat} {started : Bool}
    (hdigits : ∀ c ∈ cs, c.isDigit = true) (hlt : Digits.valueFrom m cs < mantissaLimit) :
    readDigits m scale false started (cs ++ rest) =
      readDigits (Digits.valueFrom m cs) scale false (started || !cs.isEmpty) rest := by
  induction cs generalizing m started with
  | nil => simp [Digits.valueFrom]
  | cons c cs ih =>
    obtain ⟨hc, hcs⟩ := List.forall_mem_cons.mp hdigits
    have hnext : 10 * m + Digits.ofChar c < mantissaLimit :=
      lt_of_le_of_lt (Digits.le_valueFrom _ cs) hlt
    rw [List.cons_append, readDigits]
    simp only [hc, if_true, Bool.false_and, Bool.false_or, Bool.false_eq_true, if_false,
      if_neg (Nat.not_le.mpr hnext)]
    rw [ih hcs hlt]
    simp [Digits.valueFrom]

/-- Digits after the point are read up to the bounds of mantissas and scales. -/
theorem readDigits_fraction {cs : List Char} {m scale : Nat} {started : Bool}
    (hdigits : ∀ c ∈ cs, c.isDigit = true) (hlt : Digits.valueFrom m cs < mantissaLimit)
    (hscale : scale + cs.length ≤ scaleLimit) (hstarted : started = true ∨ cs ≠ []) :
    readDigits m scale true started cs = some (Digits.valueFrom m cs, scale + cs.length) := by
  induction cs generalizing m scale started with
  | nil =>
    rw [readDigits, if_pos (by simpa using hstarted)]
    rfl
  | cons c cs ih =>
    obtain ⟨hc, hcs⟩ := List.forall_mem_cons.mp hdigits
    rw [List.length_cons] at hscale
    have hnext : 10 * m + Digits.ofChar c < mantissaLimit :=
      lt_of_le_of_lt (Digits.le_valueFrom _ cs) hlt
    have hfull : (scale == scaleLimit) = false := beq_false_of_ne (by omega)
    rw [readDigits]
    simp only [hc, hfull, if_true, Bool.true_and, Bool.false_or, decide_eq_true_eq,
      if_neg (Nat.not_le.mpr hnext)]
    rw [ih hcs hlt (by omega) (.inl rfl), List.length_cons]
    simp only [Digits.valueFrom, List.foldl_cons]
    congr 2
    omega

/-! ### Texts -/

/-- The text without its sign. -/
def unsignedText (d : Decimal) : List Char := Digits.fixedPoint d.mantissa d.scale

/-- The text of a decimal is its sign and its text without one. -/
theorem text_eq (d : Decimal) :
    d.text = if d.negative then '-' :: d.unsignedText else d.unsignedText := rfl

/-- The digits of a decimal's text are its mantissa and its scale. -/
theorem readDigits_unsignedText (d : Decimal) :
    readDigits 0 0 false false d.unsignedText = some (d.mantissa, d.scale) := by
  have hlt := d.mantissa_lt
  rcases Nat.eq_zero_or_pos d.scale with hzero | hpos
  · have htext : d.unsignedText = Digits.ofNat d.mantissa ++ [] := by
      rw [unsignedText, hzero, List.append_nil, Digits.fixedPoint, if_pos rfl]
    obtain ⟨hne, hdigits⟩ := Literal.isDigits_iff.mp (Digits.isDigits_ofNat d.mantissa)
    have hvalue : Digits.valueFrom 0 (Digits.ofNat d.mantissa) = d.mantissa :=
      Digits.value_ofNat _
    rw [htext, readDigits_whole hdigits (by rwa [hvalue]), hvalue, readDigits,
      if_pos (by simpa using hne), hzero]
  · obtain ⟨whole, fraction, htext, hw, hf, hlength, hvalue⟩ :=
      Digits.fixedPoint_eq hpos d.mantissa
    obtain ⟨hwne, hw⟩ := Literal.isDigits_iff.mp hw
    obtain ⟨hfne, hf⟩ := Literal.isDigits_iff.mp hf
    rw [Digits.value, Digits.valueFrom_append] at hvalue
    have hwhole : Digits.valueFrom 0 whole < mantissaLimit :=
      lt_of_le_of_lt (Digits.le_valueFrom _ fraction) (by rwa [hvalue])
    have hpoint : ('.'.isDigit) = false := by decide
    rw [unsignedText, htext, readDigits_whole hw hwhole, readDigits]
    simp only [hpoint, Bool.false_eq_true, if_false, not_false_eq_true, and_self, if_true]
    rw [readDigits_fraction hf (by rwa [hvalue]) (by rw [hlength]; simpa using d.scale_le)
      (.inr hfne), hvalue, hlength, Nat.zero_add]

/-- The text of a decimal without its sign is a number. -/
theorem isUnsignedNumeric_unsignedText (d : Decimal) :
    Literal.isUnsignedNumeric d.unsignedText = true := by
  refine Literal.isUnsignedNumeric_iff.mpr ?_
  rcases Nat.eq_zero_or_pos d.scale with hzero | hpos
  · rw [unsignedText, hzero, Digits.fixedPoint, if_pos rfl]
    exact .inl (Digits.isDigits_ofNat _)
  · obtain ⟨whole, fraction, htext, hw, hf, -⟩ := Digits.fixedPoint_eq hpos d.mantissa
    exact .inr ⟨whole, fraction, htext, hw, hf⟩

/-- The text of a decimal may stand unquoted. -/
theorem isNumericText_text (d : Decimal) : Literal.isNumericText d.text = true :=
  Literal.isNumericText_iff.mpr
    ⟨d.negative, d.unsignedText, d.isUnsignedNumeric_unsignedText, d.text_eq⟩

/-- The text of a decimal starts with a digit, or with a minus if it is negative. -/
theorem splitSign_text (d : Decimal) : splitSign d.text = (d.negative, d.unsignedText) := by
  obtain ⟨c, cs, hcs, hc⟩ :=
    Literal.exists_digit_of_isUnsignedNumeric d.isUnsignedNumeric_unsignedText
  have hminus : c ≠ '-' := by rintro rfl; exact absurd hc (by decide)
  have hplus : c ≠ '+' := by rintro rfl; exact absurd hc (by decide)
  rw [text_eq]
  split_ifs with h
  · rw [h]
    rfl
  · rw [hcs, splitSign.eq_def]
    simp [hminus, hplus, h]

/-- The same decimal without a sign on zero. -/
def unsignedZero (d : Decimal) : Decimal := { d with negative := d.negative && d.mantissa != 0 }

@[simp] theorem signedMantissa_unsignedZero (d : Decimal) :
    d.unsignedZero.signedMantissa = d.signedMantissa := by
  rw [signedMantissa, signedMantissa, unsignedZero]
  by_cases hzero : d.mantissa = 0
  · simp [hzero]
  · simp [hzero]

/-- **The text of a decimal reads back as the decimal**, of which only the sign of a zero is
lost. -/
theorem read?_text (d : Decimal) : read? d.text = some d.unsignedZero := by
  have hplain : readPlain d.text = some d.unsignedZero := by
    rw [readPlain]
    simp only [splitSign_text, readDigits_unsignedText, Option.bind_eq_bind, Option.bind_some]
    exact dif_pos ⟨d.mantissa_lt, d.scale_le⟩
  rw [read?, hplain]
  rfl

end Decimal

end SqlRecord
