import SqlRecord.Field.Basic
import SqlRecord.Proofs.Decimal.Text

/-!
# Values that fields are stored as

The values a field can be stored as are those that suit the type of its column
(`FieldType.toValue_suits`): reals are finite, and a decimal that is not stored as an integer is
stored as its text and has digits after the point.
-/

namespace SqlRecord

/-- The values that fields with columns of a type are stored as. -/
inductive SqlType.Suits : SqlType → Value → Prop
  | null {t : SqlType} : Suits t .null
  | integer {t : SqlType} {i : CellInt} (ht : t = .integer ∨ t = .numeric) : Suits t (.integer i)
  | real {x : Binary64} (hfinite : x.isFinite = true) : Suits .real (.real x)
  | decimal {d : Decimal} (hscale : 0 < d.scale) : Suits .numeric (.text (String.ofList d.text))
  | text {s : String} : Suits .text (.text s)
  | blob {bytes : List UInt8} : Suits .blob (.blob bytes)

namespace NativeType

/-- A real is stored as itself, and only if it is finite. -/
theorem realValue_eq_ok {x : Binary64} {c : Value} (h : realValue x = .ok c) :
    c = .real x ∧ x.isFinite = true := by
  rw [realValue] at h
  split_ifs at h with hfinite
  cases h
  exact ⟨rfl, hfinite⟩

/-- An integer is stored as itself, and only if it has 64 bits. -/
theorem integerValue_eq_ok {i : Int} {c : Value} (h : integerValue i = .ok c) :
    ∃ n : CellInt, c = .integer n ∧ n.val = i := by
  rw [integerValue] at h
  split at h
  next n hn =>
    cases h
    exact ⟨n, rfl, BoundedInt.ofInt?_eq_some_iff.mp hn⟩
  next => cases h

/-- A whole number with few digits is stored as an integer. -/
theorem scale_pos_of_digits {d : Decimal} (hwhole : d.whole?.bind (BoundedInt.ofInt? _ _) =
    (none : Option CellInt)) (hdigits : d.significantDigits ≤ realDigits) : 0 < d.scale := by
  by_contra hscale
  have hzero : d.scale = 0 := by omega
  have hstrip : Decimal.strip d.mantissa d.scale = (d.mantissa, 0) := by rw [hzero, Decimal.strip]
  have hmantissa : d.normalize.mantissa = d.mantissa := congrArg Prod.fst hstrip
  have hscale : d.normalize.scale = 0 := congrArg Prod.snd hstrip
  -- fifteen digits are well within the integers of a cell
  have hlt : d.mantissa < 10 ^ realDigits := by
    rw [← hmantissa, ← Nat.not_le, ← Decimal.lt_significantDigits_iff (by decide)]
    exact Nat.not_lt.mpr hdigits
  have hlimit : (10 : Int) ^ realDigits < 0x7fffffffffffffff := by decide
  have habs : d.normalize.signedMantissa.natAbs = d.mantissa := by
    rw [Decimal.natAbs_signedMantissa, hmantissa]
  rw [Decimal.whole?, if_pos hscale, Option.bind_some, BoundedInt.ofInt?, dif_pos] at hwhole
  · cases hwhole
  · have : (d.mantissa : Int) < 10 ^ realDigits := by exact_mod_cast hlt
    omega

/-- A decimal is stored as an integer or as the text of a fraction. -/
theorem decimalValue_eq_ok {d : Decimal} {c : Value} (h : decimalValue d = .ok c) :
    (∃ n : CellInt, c = .integer n ∧ d.whole? = some n.val) ∨
      c = .text (String.ofList d.text) ∧ 0 < d.scale := by
  rw [decimalValue] at h
  split at h
  next n hn =>
    cases h
    obtain ⟨i, hi, hn⟩ := Option.bind_eq_some_iff.mp hn
    exact .inl ⟨n, rfl, by rw [hi, BoundedInt.ofInt?_eq_some_iff.mp hn]⟩
  next hnone =>
    split_ifs at h with hdigits
    cases h
    exact .inr ⟨rfl, scale_pos_of_digits hnone (Nat.not_lt.mp hdigits)⟩

/-- What a native type is stored as suits its column. -/
theorem toValue_suits {t : NativeType} {v : t.Carrier} {c : Value} (h : t.toValue v = .ok c) :
    t.sqlType.Suits c := by
  cases t with
  | integer t =>
    obtain ⟨n, rfl, -⟩ := integerValue_eq_ok h
    exact .integer (.inl rfl)
  | float32 =>
    obtain ⟨rfl, hfinite⟩ := realValue_eq_ok h
    exact .real hfinite
  | float64 =>
    obtain ⟨rfl, hfinite⟩ := realValue_eq_ok h
    exact .real hfinite
  | bool =>
    obtain ⟨n, rfl, -⟩ := integerValue_eq_ok h
    exact .integer (.inr rfl)
  | instant =>
    rw [toValue] at h
    split at h
    next => cases h; exact .integer (.inr rfl)
    next => cases h
  | decimal =>
    rcases decimalValue_eq_ok h with ⟨n, rfl, -⟩ | ⟨rfl, hscale⟩
    · exact .integer (.inr rfl)
    · exact .decimal hscale
  | string => cases h; exact .text
  | char => cases h; exact .text
  | payload t =>
    rw [toValue] at h
    split at h
    next => cases h; exact .blob
    next => cases h

end NativeType

/-- **What a field is stored as suits its column.** -/
theorem FieldType.toValue_suits {t : FieldType} {v : t.Carrier} {c : Value}
    (h : t.toValue v = .ok c) : t.sqlType.Suits c := by
  cases t with
  | plain t => exact NativeType.toValue_suits h
  | optional t =>
    cases v with
    | none => cases h; exact .null
    | some v => exact NativeType.toValue_suits h

end SqlRecord
