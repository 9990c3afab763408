import SqlRecord.Literal
import SqlRecord.Numeral
import Mathlib

/-!
# Digits read back

An unsigned number is digits, perhaps with a point and more digits
(`Literal.isUnsignedNumeric_iff`), and a number may have a minus in front
(`Literal.isNumericText_iff`). The text of a number holds digits only and denotes that number, and a
fixed-point text denotes what it was written from: `Digits.fixedPoint_eq` splits it at the point. A
numeral without an exponent is then read as its digits over a power of ten (`Numeral.digits_point`,
`Numeral.exponent_point`).
-/

namespace SqlRecord

/-- What is taken while a test holds is the front part, if the test fails right after it. -/
theorem takeWhile_append_of_head {α : Type} {p : α → Bool} {l rest : List α}
    (h : ∀ a ∈ l, p a = true) (hr : ∀ a ∈ rest.head?, p a = false) :
    (l ++ rest).takeWhile p = l := by
  have hnil : rest.takeWhile p = [] := by
    cases rest with
    | nil => rfl
    | cons a as => exact List.takeWhile_cons_of_neg (by simpa using hr a rfl)
  rw [List.takeWhile_append_of_pos h, hnil, List.append_nil]

namespace Literal

theorem isDigits_iff {cs : List Char} :
    isDigits cs = true ↔ cs ≠ [] ∧ ∀ c ∈ cs, c.isDigit = true := by
  simp [isDigits]

/-- A text with a point is no run of digits. -/
theorem isDigits_of_point {cs : List Char} (h : '.' ∈ cs) : isDigits cs = false := by
  by_contra hdigits
  rw [Bool.not_eq_false] at hdigits
  exact absurd ((isDigits_iff.mp hdigits).2 '.' h) (by decide)

theorem ne_point_of_isDigit {c : Char} (h : c.isDigit = true) : (c != '.') = true := by
  rw [bne_iff_ne]
  rintro rfl
  exact absurd h (by decide)

/-- An unsigned number is digits, perhaps with a point and more digits. -/
theorem isUnsignedNumeric_iff {cs : List Char} :
    isUnsignedNumeric cs = true ↔ isDigits cs = true ∨
      ∃ whole fraction, cs = whole ++ '.' :: fraction ∧ isDigits whole = true ∧
        isDigits fraction = true := by
  constructor
  · intro h
    have hsplit := List.takeWhile_append_dropWhile (p := (· != '.')) (l := cs)
    rw [isUnsignedNumeric] at h
    split at h
    next => exact .inl h
    next c fraction hdrop =>
      -- what comes after the whole part is a point
      have hc : c = '.' := by
        have := List.head_dropWhile_not (p := (· != '.')) (l := cs) (by simp [hdrop])
        simpa [hdrop] using this
      rw [hdrop, hc] at hsplit
      rw [Bool.and_eq_true] at h
      exact .inr ⟨_, fraction, hsplit.symm, h⟩
  · rintro (h | ⟨whole, fraction, rfl, hw, hf⟩)
    · have hdrop : cs.dropWhile (· != '.') = [] :=
        List.dropWhile_eq_nil_iff.mpr fun c hc =>
          ne_point_of_isDigit ((isDigits_iff.mp h).2 c hc)
      rw [isUnsignedNumeric, hdrop]
      exact h
    · have hne : ∀ c ∈ whole, (c != '.') = true := fun c hc =>
        ne_point_of_isDigit ((isDigits_iff.mp hw).2 c hc)
      have htake : (whole ++ '.' :: fraction).takeWhile (· != '.') = whole :=
        takeWhile_append_of_head hne (by simp)
      have hdrop : (whole ++ '.' :: fraction).dropWhile (· != '.') = '.' :: fraction := by
        rw [List.dropWhile_append_of_pos hne]
        rfl
      rw [isUnsignedNumeric, hdrop, htake]
      exact Bool.and_eq_true_iff.mpr ⟨hw, hf⟩

/-- An unsigned number starts with a digit. -/
theorem exists_digit_of_isUnsignedNumeric {cs : List Char}
    (h : isUnsignedNumeric cs = true) : ∃ c ds, cs = c :: ds ∧ c.isDigit = true := by
  rcases isUnsignedNumeric_iff.mp h with h | ⟨whole, fraction, rfl, hw, -⟩
  · obtain ⟨hne, hall⟩ := isDigits_iff.mp h
    obtain ⟨c, ds, rfl⟩ := List.exists_cons_of_ne_nil hne
    exact ⟨c, ds, rfl, hall c List.mem_cons_self⟩
  · obtain ⟨hne, hall⟩ := isDigits_iff.mp hw
    obtain ⟨c, ds, rfl⟩ := List.exists_cons_of_ne_nil hne
    exact ⟨c, _, rfl, hall c List.mem_cons_self⟩

/-- A text that may stand unquoted is an unsigned number, perhaps after a minus. -/
theorem isNumericText_iff {cs : List Char} : isNumericText cs = true ↔
    ∃ (negative : Bool) (ds : List Char), isUnsignedNumeric ds = true ∧
      cs = if negative then '-' :: ds else ds := by
  constructor
  · intro h
    rw [isNumericText.eq_def] at h
    split at h
    next ds => exact ⟨true, ds, h, rfl⟩
    next => exact ⟨false, cs, h, rfl⟩
  · rintro ⟨negative, ds, h, rfl⟩
    cases negative with
    | true => exact h
    | false =>
      -- an unsigned number has a digit where the minus would be
      obtain ⟨c, more, rfl, hc⟩ := exists_digit_of_isUnsignedNumeric h
      have hminus : c ≠ '-' := by rintro rfl; exact absurd hc (by decide)
      rw [isNumericText.eq_def]
      simp [hminus, h]

end Literal

namespace Digits

theorem isDigits_ofNat (n : Nat) : Literal.isDigits (ofNat n) = true :=
  Literal.isDigits_iff.mpr ⟨Nat.toDigits_ne_nil, fun _ hc =>
    Nat.isDigit_of_mem_toDigits (by decide) (by decide) hc⟩

@[simp] theorem value_ofNat (n : Nat) : value (ofNat n) = n := Nat.ofDigitChars_ten_toDigits

/-- The digits of a number are read as the number. -/
theorem value?_ofNat (n : Nat) : value? (ofNat n) = some n := by
  have hvalue : value? (ofNat n) = some (value (ofNat n)) := if_pos (isDigits_ofNat n)
  rw [hvalue, value_ofNat]

/-- Digits in front of others count by the power of ten of the others' length. -/
theorem value_append (cs ds : List Char) :
    value (cs ++ ds) = 10 ^ ds.length * value cs + value ds := by
  have happend : value (cs ++ ds) = Nat.ofDigitChars 10 ds (value cs) :=
    Nat.ofDigitChars_append 0
  rw [happend, Nat.ofDigitChars_eq_ofDigitChars_zero]
  rfl

/-- Numbers have different digits. -/
theorem ofNat_injective : Function.Injective ofNat := by
  intro m n h
  rw [← value_ofNat m, h, value_ofNat]

/-- An integer is written as its absolute value after a sign. -/
theorem ofInt_eq (i : Int) :
    ofInt i = if i < 0 then '-' :: ofNat i.natAbs else ofNat i.natAbs := by
  cases i with
  | ofNat n => rfl
  | negSucc n =>
    rw [if_pos (Int.negSucc_lt_zero n)]
    rfl

/-! ### Fixed-point text -/

/-- A number below a power of ten has no more digits than the exponent. -/
theorem length_ofNat_le {width n : Nat} (hw : 0 < width) (h : n < 10 ^ width) :
    (ofNat n).length ≤ width :=
  (Nat.length_toDigits_le_iff (by decide) hw).mpr h

/-- Padding gives exactly the width, if the number has no more digits. -/
theorem length_padded {width n : Nat} (hw : 0 < width) (h : n < 10 ^ width) :
    (padded width n).length = width := by
  have := length_ofNat_le hw h
  rw [padded, List.length_append, List.length_replicate]
  omega

/-- Padding with zeros does not change the number. -/
theorem value_padded (width n : Nat) : value (padded width n) = n := by
  have hzero : ∀ k, value (List.replicate k '0') = 0 := fun k => by
    have : value (List.replicate k '0') = 10 ^ k * 0 := Nat.ofDigitChars_replicate_zero
    rw [this, Nat.mul_zero]
  rw [padded, value_append, hzero, Nat.mul_zero, Nat.zero_add, value_ofNat]

theorem isDigits_padded (width n : Nat) : Literal.isDigits (padded width n) = true := by
  obtain ⟨hne, hall⟩ := Literal.isDigits_iff.mp (isDigits_ofNat n)
  refine Literal.isDigits_iff.mpr ⟨?_, ?_⟩
  · rw [padded]
    exact fun h => hne (List.append_eq_nil_iff.mp h).2
  · intro c hc
    rcases List.mem_append.mp hc with hc | hc
    · rw [(List.mem_replicate.mp hc).2]
      decide
    · exact hall c hc

/-- Fixed-point text with a point: digits on both sides, as many after the point as asked for,
which together denote the number. -/
theorem fixedPoint_eq {places : Nat} (hp : 0 < places) (d : Nat) :
    ∃ whole fraction, fixedPoint d places = whole ++ '.' :: fraction ∧
      Literal.isDigits whole = true ∧ Literal.isDigits fraction = true ∧
      fraction.length = places ∧ value (whole ++ fraction) = d := by
  have hlt : d % 10 ^ places < 10 ^ places := Nat.mod_lt _ (Nat.pow_pos (by decide))
  have hlength := length_padded hp hlt
  refine ⟨ofNat (d / 10 ^ places), padded places (d % 10 ^ places), ?_, isDigits_ofNat _,
    isDigits_padded _ _, hlength, ?_⟩
  · rw [fixedPoint, if_neg (Nat.pos_iff_ne_zero.mp hp)]
  · rw [value_append, hlength, value_ofNat, value_padded]
    exact Nat.div_add_mod d (10 ^ places)

end Digits

namespace Numeral

theorem isDigit_ne {c : Char} (h : c.isDigit = true) : (c != 'e' && c != 'E') = true := by
  rw [Bool.and_eq_true, bne_iff_ne, bne_iff_ne]
  constructor <;> rintro rfl <;> revert h <;> decide

variable {whole fraction : List Char}

/-- A number with a point and no exponent is all mantissa. -/
theorem mantissa_point (hw : Literal.isDigits whole = true)
    (hf : Literal.isDigits fraction = true) :
    mantissa (whole ++ '.' :: fraction) = whole ++ '.' :: fraction := by
  refine List.takeWhile_eq_self_iff.mpr fun c hc => ?_
  rcases List.mem_append.mp hc with hc | hc
  · exact isDigit_ne ((Literal.isDigits_iff.mp hw).2 c hc)
  · rcases List.mem_cons.mp hc with rfl | hc
    · decide
    · exact isDigit_ne ((Literal.isDigits_iff.mp hf).2 c hc)

/-- The digits of a number with a point are those on both its sides. -/
theorem digits_point (hw : Literal.isDigits whole = true) (hf : Literal.isDigits fraction = true) :
    digits (whole ++ '.' :: fraction) = Digits.value (whole ++ fraction) := by
  have hpoint : ('.'.isDigit) = false := by decide
  rw [digits, mantissa_point hw hf, List.filter_append, List.filter_cons_of_neg (by simp [hpoint]),
    List.filter_eq_self.mpr (Literal.isDigits_iff.mp hw).2,
    List.filter_eq_self.mpr (Literal.isDigits_iff.mp hf).2]

/-- The exponent of a number with a point counts the digits after it. -/
theorem exponent_point (hw : Literal.isDigits whole = true)
    (hf : Literal.isDigits fraction = true) :
    exponent (whole ++ '.' :: fraction) = -(fraction.length : Int) := by
  have hdrop : (whole ++ '.' :: fraction).dropWhile Char.isDigit = '.' :: fraction := by
    rw [List.dropWhile_append_of_pos (Literal.isDigits_iff.mp hw).2]
    rfl
  rw [exponent, mantissa_point hw hf, hdrop, List.drop_eq_nil_of_le (Nat.le_succ _)]
  simp [Digits.value, Digits.valueFrom]

end Numeral

end SqlRecord
