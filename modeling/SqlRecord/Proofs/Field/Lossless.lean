import SqlRecord.Proofs.Field.RoundTrip

/-!
# Fields stored without loss

A number, a text, a character or a truth value is stored exactly or not at all. What is refused is
told by the value alone (`NativeType.Overflows`): an integer above 64 bits signed, a real that is
not finite, a decimal that is no integer of a cell and has more than fifteen digits. Main statement:
`FieldType.toValue_lossless`.
-/

namespace SqlRecord

/-! ### Widening of finite numbers -/

namespace Floating

theorem isFinite_of_datum {f : Format} {x : Floating f} {negative : Bool} {significand : Nat}
    {exponent : Int} (h : x.datum = .finite negative significand exponent) :
    x.isFinite = true := by
  rw [datum] at h
  split_ifs at h with hnan hinf
  all_goals exact decide_eq_true (by omega)

/-- **Widening keeps finite numbers finite**, and only those. -/
theorem isFinite_convert (x : Binary32) : (x.convert .binary64).isFinite = x.isFinite := by
  rw [Bool.eq_iff_iff]
  refine ⟨isFinite_of_convert, fun h => ?_⟩
  obtain ⟨significand, exponent, hdatum, -⟩ := exists_datum h
  by_cases hpos : significand = 0
  · subst hpos
    rw [convert_of_datum_zero .binary64 hdatum]
    cases x.negative <;> decide
  · obtain ⟨k, hwide⟩ := datum_convert hdatum hpos
    exact isFinite_of_datum hwide

end Floating

/-! ### Whole decimals -/

namespace Decimal

/-- The zeros of a whole number are dropped up to the point. -/
theorem strip_mul_pow (mantissa scale : Nat) :
    strip (mantissa * 10 ^ scale) scale = (mantissa, 0) := by
  induction scale with
  | zero => rw [pow_zero, mul_one, strip]
  | succ scale ih =>
    have hsplit : mantissa * 10 ^ (scale + 1) = mantissa * 10 ^ scale * 10 := by
      rw [pow_succ, mul_assoc]
    rw [hsplit, strip, if_pos (Nat.mul_mod_left _ _), Nat.mul_div_cancel _ (by decide), ih]

/-- **The whole number of a decimal is the integer that it equals.** -/
theorem whole?_eq_some_iff {d : Decimal} {i : Int} (hlimit : i.natAbs < mantissaLimit) :
    d.whole? = some i ↔ d.numericEq (ofInt i hlimit) := by
  refine ⟨fun h => numericEq_ofInt h hlimit, fun h => ?_⟩
  have hvalue : d.signedMantissa = i * 10 ^ d.scale := by
    rw [numericEq, signedMantissa_ofInt] at h
    rw [← h]
    exact (mul_one _).symm
  have hmantissa : d.mantissa = i.natAbs * 10 ^ d.scale := by
    rw [← natAbs_signedMantissa, hvalue, Int.natAbs_mul, Int.natAbs_pow]
    rfl
  have hscale : d.normalize.scale = 0 := by
    have hstrip := strip_mul_pow i.natAbs d.scale
    rw [← hmantissa] at hstrip
    exact congrArg Prod.snd hstrip
  have hpow : (10 : Int) ^ d.scale ≠ 0 := pow_ne_zero _ (by decide)
  have hnormal := d.numericEq_normalize
  rw [numericEq, hscale, pow_zero, mul_one, hvalue] at hnormal
  rw [whole?, if_pos hscale, mul_right_cancel₀ hpow hnormal]

/-- Whether a decimal is an integer that a cell can hold. -/
def IsCellInt (d : Decimal) : Prop :=
  ∃ n : CellInt, d.numericEq (ofInt n.val (NativeType.cellInt_natAbs_lt n))

/-- A decimal is the integer of a cell exactly if it is whole and has 64 bits. -/
theorem isCellInt_iff {d : Decimal} :
    d.IsCellInt ↔ ∃ n : CellInt, d.whole?.bind (BoundedInt.ofInt? _ _) = some n := by
  refine exists_congr fun n => ?_
  rw [← whole?_eq_some_iff, Option.bind_eq_some_iff]
  constructor
  · exact fun h => ⟨n.val, h, BoundedInt.ofInt?_val n⟩
  · rintro ⟨i, hi, hn⟩
    rw [BoundedInt.ofInt?_eq_some_iff.mp hn, hi]

end Decimal

/-! ### Native types -/

namespace NativeType

/-- The types whose values are single numbers, texts, characters or truth values. -/
def IsScalar : NativeType → Prop
  | instant | payload _ => False
  | _ => True

/-- Whether a value is one that no cell holds exactly. -/
def Overflows : (t : NativeType) → t.Carrier → Prop
  | integer _, n => 0x7fffffffffffffff < BoundedInt.val n
  | float32, x => Floating.isFinite (f := .binary32) x = false
  | float64, x => Floating.isFinite (f := .binary64) x = false
  | decimal, d => ¬Decimal.IsCellInt d ∧ 10 ^ 15 ≤ d.normalize.mantissa
  | _, _ => False

/-- Every scalar value is read back, so that it needs no condition to be storable. -/
theorem storable_of_isScalar {t : NativeType} (ht : t.IsScalar) (v : t.Carrier) :
    t.Storable v := by
  cases t <;> trivial

/-- An integer is refused exactly beyond 64 bits. -/
theorem integerValue_eq_error_iff {i : Int} :
    (∃ e, integerValue i = .error e) ↔ i < -0x8000000000000000 ∨ 0x7fffffffffffffff < i := by
  rw [integerValue, BoundedInt.ofInt?]
  split_ifs with h
  · exact iff_of_false (by simp) (by omega)
  · exact iff_of_true ⟨_, rfl⟩ (by omega)

theorem realValue_eq_error_iff {x : Binary64} :
    (∃ e, realValue x = .error e) ↔ x.isFinite = false := by
  rw [realValue]
  cases x.isFinite with
  | false => exact iff_of_true ⟨_, rfl⟩ rfl
  | true => exact iff_of_false (by simp) (by simp)

/-- A decimal is refused exactly if no cell can hold it as an integer and it has more than fifteen
digits. -/
theorem decimalValue_eq_error_iff {d : Decimal} :
    (∃ e, decimalValue d = .error e) ↔ ¬d.IsCellInt ∧ 10 ^ 15 ≤ d.normalize.mantissa := by
  rw [decimalValue, Decimal.isCellInt_iff, ← Decimal.lt_significantDigits_iff (by decide)]
  cases hwhole : d.whole?.bind (BoundedInt.ofInt? (-0x8000000000000000) 0x7fffffffffffffff) with
  | some n => exact iff_of_false (by simp) fun h => h.1 ⟨n, rfl⟩
  | none =>
    dsimp only
    split_ifs with hdigits
    · exact iff_of_true ⟨_, rfl⟩ ⟨by simp, hdigits⟩
    · exact iff_of_false (by simp) fun h => hdigits h.2

/-- A decimal that is stored is stored as an integer if it is one, else as its text. -/
theorem decimalValue_cases {d : Decimal} {c : Value} (h : decimalValue d = .ok c) :
    d.IsCellInt ∧ (∃ n, c = .integer n) ∨ ¬d.IsCellInt ∧ c = .text (String.ofList d.text) := by
  rw [Decimal.isCellInt_iff]
  rw [decimalValue] at h
  split at h
  next n hn =>
    cases h
    exact .inl ⟨⟨n, hn⟩, n, rfl⟩
  next hnone =>
    split_ifs at h
    cases h
    exact .inr ⟨by simp [hnone], rfl⟩

/-- No integer type reaches below the integers of a cell. -/
theorem least_ge (t : IntegerType) : -0x8000000000000000 ≤ t.least := by
  cases t <;> norm_num [IntegerType.least]

/-- **A scalar is refused exactly if no cell holds it.** -/
theorem toValue_eq_error_iff {t : NativeType} (ht : t.IsScalar) (v : t.Carrier) :
    (∃ e, t.toValue v = .error e) ↔ t.Overflows v := by
  cases t with
  | integer t =>
    have hlow : -0x8000000000000000 ≤ BoundedInt.val v := (least_ge t).trans (BoundedInt.lo_le v)
    exact integerValue_eq_error_iff.trans (or_iff_right (by omega))
  | float32 =>
    refine realValue_eq_error_iff.trans ?_
    exact iff_of_eq (congrArg (· = false) (Floating.isFinite_convert v))
  | float64 => exact realValue_eq_error_iff
  | bool => cases v <;> exact iff_of_false (by rintro ⟨e, h⟩; cases h) nofun
  | decimal => exact decimalValue_eq_error_iff
  | string | char => exact iff_of_false nofun nofun
  | instant | payload => cases ht

end NativeType

/-! ### Fields -/

namespace FieldType

/-- Whether a field has no value. -/
def IsNone : (t : FieldType) → t.Carrier → Prop
  | optional _, none => True
  | _, _ => False

/-- Whether a field has a value that no cell holds exactly. -/
def Overflows : (t : FieldType) → t.Carrier → Prop
  | plain t, v => t.Overflows v
  | optional _, none => False
  | optional t, some v => t.Overflows v

/-- **Fields are stored without loss or refused.** What a scalar field is stored as reads back as
the same value, where decimals are compared as numbers, and is `NULL` only where the field has no
value. It is refused exactly if no cell holds its value. -/
theorem toValue_lossless {t : FieldType} (ht : t.native.IsScalar) (v : t.Carrier) :
    (∀ c, t.toValue v = .ok c →
      (c = .null ↔ t.IsNone v) ∧ ∃ v', t.ofValue c = .ok v' ∧ t.Same v v') ∧
    ((∃ e, t.toValue v = .error e) ↔ t.Overflows v) := by
  cases t with
  | plain t =>
    have hv : t.Storable v := NativeType.storable_of_isScalar ht v
    refine ⟨fun c h => ?_, NativeType.toValue_eq_error_iff ht v⟩
    obtain ⟨hnull, hread⟩ := NativeType.ofValue_toValue hv h
    exact ⟨iff_of_false (by rintro rfl; cases hnull) id, hread⟩
  | optional t =>
    cases v with
    | none =>
      refine ⟨fun c h => ?_, iff_of_false nofun id⟩
      cases h
      exact ⟨iff_of_true rfl trivial, none, rfl, .none⟩
    | some v =>
      have hv : t.Storable v := NativeType.storable_of_isScalar ht v
      refine ⟨fun c h => ?_, NativeType.toValue_eq_error_iff ht v⟩
      obtain ⟨hnull, v', hread, hsame⟩ := NativeType.ofValue_toValue hv h
      refine ⟨iff_of_false (by rintro rfl; cases hnull) id, some v', ?_, .some hsame⟩
      rw [ofValue_optional hnull, hread]
      rfl

/-- A decimal keeps the zero it ends with and its sign, one with a digit too many is refused, and so
is the first integer above those of a cell. -/
theorem toValue_lossless_decimal :
    ((optional .decimal).toValue (some (⟨true, 150, 2, by decide, by decide⟩ : Decimal)) =
        .ok (.text "-1.50") ∧
      ∃ v', (optional .decimal).ofValue (.text "-1.50") = .ok v' ∧
        (optional .decimal).Same (some (⟨true, 150, 2, by decide, by decide⟩ : Decimal)) v') ∧
    (∃ e, (plain .decimal).toValue
      (⟨false, 1234567890123456, 16, by decide, by decide⟩ : Decimal) = .error e) ∧
    ∃ e, (plain (.integer .uint64)).toValue
      (⟨0x8000000000000000, by decide, by decide⟩ : IntegerType.uint64.Carrier) = .error e := by
  have hvalue : (optional .decimal).toValue
      (some (⟨true, 150, 2, by decide, by decide⟩ : Decimal)) = .ok (.text "-1.50") := by
    decide +kernel
  have hfraction : ¬Decimal.IsCellInt ⟨false, 1234567890123456, 16, by decide, by decide⟩ := by
    rw [Decimal.isCellInt_iff]
    rintro ⟨n, hn⟩
    cases hn
  have hlarge : (0x7fffffffffffffff : Int) < 0x8000000000000000 := by decide
  refine ⟨⟨hvalue, ?_⟩, ?_, ?_⟩
  · exact ((toValue_lossless (t := .optional .decimal) trivial _).1 _ hvalue).2
  · exact (toValue_lossless (t := .plain .decimal) trivial _).2.mpr ⟨hfraction, by decide +kernel⟩
  · exact (toValue_lossless (t := .plain (.integer .uint64)) trivial _).2.mpr hlarge

end FieldType

end SqlRecord
