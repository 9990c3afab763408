import SqlRecord.Proofs.Field.Values
import SqlRecord.Proofs.Floating.Widening
import SqlRecord.Proofs.Payload.Exact

/-!
# Fields read back

What a field is stored as is read back as the same value (`FieldType.place_toValue`), where
decimals are compared as numbers and every NaN within a payload becomes the canonical one. Three
kinds of values are not (`NativeType.Storable`): instants within leap seconds, payloads in which a
present value is written as nothing, and payloads that nest deeper than the reader goes.
-/

namespace SqlRecord

/-! ### Decimals and instants -/

namespace Decimal

/-- Dropping trailing fraction zeros keeps the number. -/
theorem strip_spec (mantissa scale : Nat) :
    (strip mantissa scale).1 * 10 ^ scale = mantissa * 10 ^ (strip mantissa scale).2 := by
  induction scale generalizing mantissa with
  | zero => rfl
  | succ scale ih =>
    rw [strip]
    split_ifs with hzero
    · have hmantissa : mantissa / 10 * 10 = mantissa :=
        Nat.div_mul_cancel (Nat.dvd_of_mod_eq_zero hzero)
      calc (strip (mantissa / 10) scale).1 * 10 ^ (scale + 1)
          = (strip (mantissa / 10) scale).1 * 10 ^ scale * 10 := by rw [pow_succ, mul_assoc]
        _ = mantissa / 10 * 10 * 10 ^ (strip (mantissa / 10) scale).2 := by rw [ih]; ring
        _ = mantissa * 10 ^ (strip (mantissa / 10) scale).2 := by rw [hmantissa]
    · rfl

theorem numericEq_unsignedZero (d : Decimal) : d.numericEq d.unsignedZero := by
  rw [numericEq, signedMantissa_unsignedZero]
  rfl

/-- Zeros at the end of the fraction do not change the number. -/
theorem numericEq_normalize (d : Decimal) : d.numericEq d.normalize := by
  have hstrip : ((strip d.mantissa d.scale).1 : Int) * 10 ^ d.scale =
      d.mantissa * 10 ^ (strip d.mantissa d.scale).2 := by
    exact_mod_cast strip_spec d.mantissa d.scale
  have hsigned : d.normalize.signedMantissa =
      if d.negative && d.mantissa != 0 then -((strip d.mantissa d.scale).1 : Int)
      else (strip d.mantissa d.scale).1 := rfl
  rw [numericEq, hsigned, ← signedMantissa_unsignedZero, signedMantissa, unsignedZero]
  dsimp only
  split_ifs
  · rw [Int.neg_mul, Int.neg_mul, hstrip]
    rfl
  · exact hstrip.symm

theorem signedMantissa_ofInt {i : Int} (h : i.natAbs < mantissaLimit) :
    (ofInt i h).signedMantissa = i := by
  rw [ofInt, signedMantissa]
  simp only [decide_eq_true_eq]
  split_ifs <;> omega

/-- A whole decimal is the integer it is stored as. -/
theorem numericEq_ofInt {d : Decimal} {i : Int} (h : d.whole? = some i)
    (hlimit : i.natAbs < mantissaLimit) : d.numericEq (ofInt i hlimit) := by
  rw [whole?] at h
  split_ifs at h with hscale
  have hnormal := d.numericEq_normalize
  have hsigned : (ofInt i hlimit).signedMantissa = d.normalize.signedMantissa := by
    rw [signedMantissa_ofInt, Option.some.inj h]
  rw [numericEq, hscale] at hnormal
  rw [numericEq, hsigned, ← hnormal]
  rfl

end Decimal

namespace Instant

/-- The product and the sum of a checked count both fit a cell. -/
theorem checkedNanos_eq_some_iff {seconds rest : Int} {n : CellInt} :
    checkedNanos seconds rest = some n ↔
      (-0x8000000000000000 ≤ seconds * nanosPerSecond ∧
        seconds * nanosPerSecond ≤ 0x7fffffffffffffff) ∧
      n.val = seconds * nanosPerSecond + rest := by
  rw [checkedNanos, Option.bind_eq_bind, Option.bind_eq_some_iff]
  constructor
  · rintro ⟨whole, hwhole, hsum⟩
    have hproduct := BoundedInt.ofInt?_eq_some_iff.mp hwhole
    rw [← hproduct]
    exact ⟨⟨whole.lo_le, whole.le_hi⟩, BoundedInt.ofInt?_eq_some_iff.mp hsum⟩
  · rintro ⟨⟨hlo, hhi⟩, hsum⟩
    exact ⟨⟨_, hlo, hhi⟩, BoundedInt.ofInt?_eq_some_iff.mpr rfl,
      BoundedInt.ofInt?_eq_some_iff.mpr hsum⟩

/-- The second of the first instant of a cell, in 1677. -/
def firstSecond : Int := -9223372037

/-- **An instant has the cell of its count of nanoseconds**, if it lies in no second before the
first one. Leap seconds are why the count alone does not decide: that of one in the second before
may fit a cell, but the seconds do not. -/
theorem cell?_eq_some_iff {t : Instant} {n : CellInt} :
    t.cell? = some n ↔ firstSecond ≤ t.seconds ∧ n.val = t.nanoseconds := by
  have hlo := n.lo_le
  have hhi := n.le_hi
  rw [cell?, nanoseconds, firstSecond]
  split_ifs with hneg
  · rw [checkedNanos_eq_some_iff, nanosPerSecond]
    omega
  · rw [checkedNanos_eq_some_iff, nanosPerSecond]
    omega

/-- A leap second in the second before the first one has no cell, though its count is that of the
first cell. -/
example : (⟨-9223372038, 1145224192⟩ : Instant).nanoseconds = CellInt.first.val ∧
    (⟨-9223372038, 1145224192⟩ : Instant).cell? = none := by
  decide

/-- An instant that has a cell has no nearer one. -/
theorem nearestCell_of_cell? {t : Instant} {n : CellInt} (h : t.cell? = some n) :
    t.nearestCell = n := by
  rw [nearestCell, h, Option.getD_some]

end Instant

/-- A count of nanoseconds tells the seconds from the nanoseconds within one. -/
theorem Instant.ofNanoseconds_nanoseconds {t : Instant} (h : t.nanos < nanosPerSecond) :
    ofNanoseconds t.nanoseconds = t := by
  have hseconds : t.nanoseconds.fdiv nanosPerSecond = t.seconds := by
    rw [Int.fdiv_eq_ediv_of_nonneg _ (by decide), nanoseconds]
    rw [nanosPerSecond] at h ⊢
    omega
  have hnanos : (t.nanoseconds.fmod nanosPerSecond).toNat = t.nanos := by
    rw [Int.fmod_eq_emod_of_nonneg _ (by decide), nanoseconds]
    rw [nanosPerSecond] at h ⊢
    omega
  rw [ofNanoseconds, hseconds, hnanos]

/-! ### Native types -/

namespace NativeType

/-- Whether a value read back is the value that was written: decimals are the same number, a payload
is the same but for the NaNs within it, and any other value is the same. -/
def Same : (t : NativeType) → t.Carrier → t.Carrier → Prop
  | decimal, a, b => Decimal.numericEq a b
  | payload t, a, b => t.Restores a b
  | _, a, b => b = a

/-- Whether a value survives storage: an instant within a leap second is stored as one after it, a
value in a payload that is written as nothing is read as nothing, and payloads that nest too deep
are not read. -/
def Storable : (t : NativeType) → t.Carrier → Prop
  | instant, v => Instant.nanos v < Instant.nanosPerSecond
  | payload t, v => t.IsExplicit v ∧ t.nesting v ≤ Cbor.nestingLimit
  | _, _ => True

-- `ofValue` is opened by its body here: the equations of its nested matches are costly

/-- An integer in the range of a type is read from its cell. -/
theorem ofValue_integer {t : IntegerType} {n : CellInt} {i : t.Carrier}
    (h : t.ofInt? n.val = some i) : (integer t).ofValue (.integer n) = .ok i := by
  delta ofValue
  dsimp only
  rw [h]

theorem ofValue_bool {b : Bool} {n : CellInt} (h : n.val = b.toInt) :
    bool.ofValue (.integer n) = .ok b := by
  cases b with
  | false => exact if_pos h
  | true => exact (if_neg (by rw [h]; decide)).trans (if_pos h)

/-- A decimal is read from its text, without the sign of a zero. -/
theorem ofValue_decimalText (d : Decimal) :
    decimal.ofValue (.text (String.ofList d.text)) = .ok d.unsignedZero := by
  have hread : decimal.ofValue (.text (String.ofList d.text)) =
      readDecimal (String.ofList d.text).toList := rfl
  rw [hread, String.toList_ofList, readDecimal, Decimal.read?_text]
  rfl

theorem ofValue_char {c : Char} {s : String} (h : s.toList = [c]) :
    char.ofValue (.text s) = .ok c := by
  delta ofValue
  dsimp only
  rw [h]

/-- A cell with bytes is read as the payload that they are deserialized as. -/
theorem ofValue_payload (t : PayloadType) (bytes : List UInt8) :
    (payload t).ofValue (.blob bytes) = (Payload.deserialize t bytes).mapError .deserialize := by
  delta ofValue
  dsimp only
  cases Payload.deserialize t bytes <;> rfl

/-- **What a native type is stored as is not `NULL` and reads back.** -/
theorem ofValue_toValue {t : NativeType} {v : t.Carrier} {c : Value} (hv : t.Storable v)
    (h : t.toValue v = .ok c) :
    c.isNull = false ∧ ∃ v', t.ofValue c = .ok v' ∧ t.Same v v' := by
  cases t with
  | integer t =>
    obtain ⟨n, rfl, hn⟩ := integerValue_eq_ok h
    have hmember : t.ofInt? n.val = some v := BoundedInt.ofInt?_eq_some_iff.mpr hn.symm
    exact ⟨rfl, v, ofValue_integer hmember, rfl⟩
  | float32 =>
    obtain ⟨rfl, hfinite⟩ := realValue_eq_ok h
    exact ⟨rfl, v, congrArg Except.ok
      (Floating.convert_convert (Floating.isFinite_of_convert hfinite)), rfl⟩
  | float64 =>
    obtain ⟨rfl, -⟩ := realValue_eq_ok h
    exact ⟨rfl, v, rfl, rfl⟩
  | bool =>
    obtain ⟨n, rfl, hn⟩ := integerValue_eq_ok h
    exact ⟨rfl, v, ofValue_bool hn, rfl⟩
  | instant =>
    rw [toValue] at h
    split at h
    next n hn =>
      cases h
      refine ⟨rfl, v, congrArg Except.ok ?_, rfl⟩
      rw [(Instant.cell?_eq_some_iff.mp hn).2, Instant.ofNanoseconds_nanoseconds hv]
    next => cases h
  | decimal =>
    rcases decimalValue_eq_ok h with ⟨n, rfl, hwhole⟩ | ⟨rfl, -⟩
    · exact ⟨rfl, _, rfl, Decimal.numericEq_ofInt hwhole (cellInt_natAbs_lt n)⟩
    · exact ⟨rfl, _, ofValue_decimalText v, Decimal.numericEq_unsignedZero v⟩
  | string =>
    cases h
    exact ⟨rfl, v, rfl, rfl⟩
  | char =>
    cases h
    exact ⟨rfl, v, ofValue_char (String.toList_singleton v), rfl⟩
  | payload t =>
    rw [toValue] at h
    split at h
    next bytes hbytes =>
      cases h
      obtain ⟨hexplicit, hnesting⟩ := hv
      refine ⟨rfl, t.canonical v, ?_, PayloadType.restores_canonical_iff.mpr hexplicit⟩
      rw [ofValue_payload, Payload.deserialize_serialize hnesting hbytes]
      rfl
    next => cases h

end NativeType

/-! ### Fields -/

namespace FieldType

/-- Whether a field read back stands for the field that was written. -/
def Same : (t : FieldType) → t.Carrier → t.Carrier → Prop
  | plain t => t.Same
  | optional t => Option.Rel t.Same

/-- Whether a field survives storage. -/
def Storable : (t : FieldType) → t.Carrier → Prop
  | plain t, v => t.Storable v
  | optional _, none => True
  | optional t, some v => t.Storable v

/-- A cell that is there reads as a value that is there. -/
theorem ofValue_optional {t : NativeType} {c : Value} (h : c.isNull = false) :
    (optional t).ofValue c = (t.ofValue c).map some := by
  cases c <;> first | rfl | cases h

/-- **What a field is stored as reads back.** -/
theorem ofValue_toValue {t : FieldType} {v : t.Carrier} {c : Value} (hv : t.Storable v)
    (h : t.toValue v = .ok c) : ∃ v', t.ofValue c = .ok v' ∧ t.Same v v' := by
  cases t with
  | plain t => exact (NativeType.ofValue_toValue hv h).2
  | optional t =>
    cases v with
    | none =>
      cases h
      exact ⟨none, rfl, .none⟩
    | some v =>
      obtain ⟨hnull, v', hread, hsame⟩ := NativeType.ofValue_toValue hv h
      refine ⟨some v', ?_, .some hsame⟩
      rw [ofValue_optional hnull, hread]
      rfl

/-- What a cell makes of a field: nothing new if it is `NULL`, else what it holds. -/
def place (t : FieldType) (v : t.Carrier) (cell : Value) : Except CodecError t.Carrier :=
  if cell.isNull then .ok v else t.ofValue cell

theorem place_null {t : FieldType} {v : t.Carrier} : t.place v .null = .ok v := rfl

/-- A cell other than `NULL` replaces the value of a field by what it decodes to. -/
theorem place_of_not_null {t : FieldType} {v : t.Carrier} {c : Value} (h : c.isNull = false) :
    t.place v c = t.ofValue c := by
  rw [place, if_neg (by simp [h])]

/-- A cell that is read makes the same of a field at its default: only an optional field is read
from `NULL`. -/
theorem place_default {t : FieldType} {v : t.Carrier} {c : Value} (h : t.ofValue c = .ok v) :
    t.place t.default c = .ok v := by
  cases c with
  | null =>
    cases t with
    | plain t => cases t <;> cases h
    | optional t =>
      cases h
      exact place_null
  | integer | real | text | blob => exact (place_of_not_null rfl).trans h

/-- **What a field is stored as reads back**, also where a `NULL` leaves the field at its
default. -/
theorem place_toValue {t : FieldType} {v : t.Carrier} {c : Value} (hv : t.Storable v)
    (h : t.toValue v = .ok c) : ∃ v', t.place t.default c = .ok v' ∧ t.Same v v' := by
  obtain ⟨v', hread, hsame⟩ := ofValue_toValue hv h
  exact ⟨v', place_default hread, hsame⟩

end FieldType

end SqlRecord
