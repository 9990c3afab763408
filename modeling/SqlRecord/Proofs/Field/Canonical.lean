import SqlRecord.Proofs.Field.Instants

/-!
# Cells that are read

A cell that is read as an integer, a truth value, an instant, a text or a character, or as nothing
in an optional field, is the one cell that its value is stored as. Every integer of a cell counts
the nanoseconds of an instant that the calendar has, so that the calendar never refuses one
(`NativeType.askCalendar_eq`). Main statement: `FieldType.ofValue_canonical`.
-/

namespace SqlRecord

/-! ### Instants of the calendar -/

namespace Instant

/-- The first year of the calendar. -/
def firstYear : Int := -262143

/-- The last year of the calendar. -/
def lastYear : Int := 262142

/-- The year of the day that so many seconds after the start of 1970 fall in. -/
def yearOf (seconds : Int) : Int := (Date.ofDays (seconds / 86400)).year

/-- The instant so many seconds and nanoseconds after the start of 1970, if the calendar has it. A
billion nanoseconds and more make a leap second, which can only end a minute. -/
def ofParts? (seconds : Int) (nanos : Nat) : Option Instant :=
  if (firstYear ≤ yearOf seconds ∧ yearOf seconds ≤ lastYear) ∧
      (nanos < nanosPerSecond ∨ nanos < 2 * nanosPerSecond ∧ seconds % 60 = 59) then
    some ⟨seconds, nanos⟩
  else none

/-- The year of a day lies in the four centuries that the day falls in, or next to them. -/
theorem year_ofDays_bounds (days : Int) :
    400 * ((days + 719468) / 146097) ≤ (Date.ofDays days).year ∧
      (Date.ofDays days).year ≤ 400 * ((days + 719468) / 146097) + 401 := by
  have hday : ((days + 719468).fmod 146097).toNat < 146097 := by
    rw [Int.fmod_eq_emod_of_nonneg _ (by decide)]
    omega
  rw [Date.ofDays, ← Int.fdiv_eq_ediv_of_nonneg _ (by decide)]
  dsimp only
  generalize ((days + 719468).fmod 146097).toNat = day at hday
  split_ifs <;> omega

/-- Counts of nanoseconds of 64 bits stay within a few centuries. -/
theorem yearOf_bounds (n : CellInt) :
    firstYear ≤ yearOf (n.val / nanosPerSecond) ∧ yearOf (n.val / nanosPerSecond) ≤ lastYear := by
  have hlo := n.lo_le
  have hhi := n.le_hi
  obtain ⟨hfirst, hlast⟩ := year_ofDays_bounds (n.val / nanosPerSecond / 86400)
  rw [firstYear, lastYear, yearOf]
  rw [nanosPerSecond] at *
  omega

/-- No count of nanoseconds of 64 bits lies before the first second. -/
theorem firstSecond_le_ofNanoseconds (n : CellInt) :
    firstSecond ≤ (ofNanoseconds n.val).seconds := by
  have hlo := n.lo_le
  have hseconds : (ofNanoseconds n.val).seconds = n.val / nanosPerSecond :=
    Int.fdiv_eq_ediv_of_nonneg _ (by decide)
  rw [hseconds, firstSecond, nanosPerSecond]
  omega

/-- **The calendar has the instant of every count of nanoseconds of 64 bits.** -/
theorem ofParts?_ediv_emod (n : CellInt) :
    ofParts? (n.val / nanosPerSecond) (n.val % nanosPerSecond).toNat =
      some (ofNanoseconds n.val) := by
  have hnanos : (n.val % nanosPerSecond).toNat < nanosPerSecond := by
    rw [nanosPerSecond]
    omega
  rw [ofParts?, if_pos ⟨yearOf_bounds n, .inl hnanos⟩, ofNanoseconds,
    Int.fdiv_eq_ediv_of_nonneg _ (by decide), Int.fmod_eq_emod_of_nonneg _ (by decide)]

/-- An instant has the count of nanoseconds that it was read from. -/
theorem nanoseconds_ofNanoseconds (n : Int) : (ofNanoseconds n).nanoseconds = n := by
  rw [ofNanoseconds, nanoseconds, Int.fdiv_eq_ediv_of_nonneg _ (by decide),
    Int.fmod_eq_emod_of_nonneg _ (by decide), nanosPerSecond]
  dsimp only
  omega

end Instant

/-! ### Native types -/

namespace NativeType

/-- The instant that a cell holds, where the calendar is asked for it. -/
def askCalendar (v : Value) : Except CodecError instant.Carrier :=
  match v with
  | .integer n =>
    match Instant.ofParts? (n.val / Instant.nanosPerSecond)
        (n.val % Instant.nanosPerSecond).toNat with
    | some t => .ok t
    | none => .error (.outOfRange instant.name (intText n.val))
  | other => .error (mismatch instant other)

/-- **The calendar refuses no instant of a cell.** -/
theorem askCalendar_eq (v : Value) : askCalendar v = instant.ofValue v := by
  cases v with
  | integer n =>
    simp only [askCalendar, Instant.ofParts?_ediv_emod]
    rfl
  | null | real | text | blob => rfl

/-- The types of which no two cells are read alike. Integers are also read as reals and as decimals,
a decimal has many texts, and a payload many forms. -/
def IsExact : NativeType → Prop
  | integer _ | bool | instant | string | char => True
  | float32 | float64 | decimal | payload _ => False

theorem integerValue_val (n : CellInt) : integerValue n.val = .ok (.integer n) := by
  rw [integerValue, BoundedInt.ofInt?_val]

-- `ofValue` is opened by `delta` here: the equations of its nested matches are costly

/-- What reads as an integer is the cell with this integer. -/
theorem ofValue_integer_eq_ok {t : IntegerType} {c : Value} {i : t.Carrier}
    (h : (integer t).ofValue c = .ok i) : ∃ n : CellInt, c = .integer n ∧ i.val = n.val := by
  cases c with
  | integer n =>
    delta ofValue at h
    dsimp only at h
    split at h
    next i' hi =>
      cases h
      exact ⟨n, rfl, BoundedInt.ofInt?_eq_some_iff.mp hi⟩
    next => cases h
  | null | real | text | blob => cases h

/-- What reads as a Boolean is the cell with zero or one for it. -/
theorem ofValue_bool_eq_ok {c : Value} {b : Bool} (h : bool.ofValue c = .ok b) :
    ∃ n : CellInt, c = .integer n ∧ b.toInt = n.val := by
  cases c with
  | integer n =>
    delta ofValue at h
    dsimp only at h
    split_ifs at h with hzero hone
    · cases h
      exact ⟨n, rfl, hzero.symm⟩
    · cases h
      exact ⟨n, rfl, hone.symm⟩
  | null | real | text | blob => cases h

/-- What reads as a character is the text with this character alone. -/
theorem ofValue_char_eq_ok {c : Value} {a : Char} (h : char.ofValue c = .ok a) :
    c = .text (String.singleton a) := by
  cases c with
  | text s =>
    delta ofValue at h
    dsimp only at h
    split at h
    next hs =>
      cases h
      exact congrArg Value.text (String.toList_inj.mp (hs.trans (String.toList_singleton _).symm))
    next => cases h
  | null | integer | real | blob => cases h

/-- What a cell of an exact type is read as is stored as that cell, which is not `NULL`. -/
theorem toValue_of_ofValue {t : NativeType} (ht : t.IsExact) {c : Value} {v : t.Carrier}
    (h : t.ofValue c = .ok v) : t.toValue v = .ok c := by
  cases t with
  | integer t =>
    obtain ⟨n, rfl, hn⟩ := ofValue_integer_eq_ok h
    exact (congrArg integerValue hn).trans (integerValue_val n)
  | bool =>
    obtain ⟨n, rfl, hn⟩ := ofValue_bool_eq_ok h
    exact (congrArg integerValue hn).trans (integerValue_val n)
  | instant =>
    cases c with
    | integer n =>
      cases h
      exact toValue_instant_eq_ok_iff.mpr ⟨Instant.firstSecond_le_ofNanoseconds n, n,
        (Instant.nanoseconds_ofNanoseconds n.val).symm, rfl⟩
    | null | real | text | blob => cases h
  | string =>
    cases c with
    | text s =>
      cases h
      rfl
    | null | integer | real | blob => cases h
  | char =>
    rw [ofValue_char_eq_ok h]
    rfl
  | float32 | float64 | decimal | payload => cases ht

end NativeType

/-! ### Fields -/

namespace FieldType

/-- What a cell of an exact field is read as is stored as that cell. -/
theorem toValue_of_ofValue {t : FieldType} (ht : t.native.IsExact) {c : Value} {v : t.Carrier}
    (h : t.ofValue c = .ok v) : t.toValue v = .ok c := by
  cases t with
  | plain t => exact NativeType.toValue_of_ofValue ht h
  | optional t =>
    cases hnull : c.isNull with
    | true =>
      obtain rfl : c = .null := by cases c <;> first | rfl | cases hnull
      cases h
      rfl
    | false =>
      rw [ofValue_optional hnull] at h
      cases hread : t.ofValue c with
      | error e =>
        rw [hread] at h
        cases h
      | ok w =>
        rw [hread] at h
        cases h
        exact NativeType.toValue_of_ofValue ht hread

/-- **Only canonical cells are read.** A cell that is read as a value of an exact type is the cell
that the value is stored as. Every integer cell is read as an instant, also where the calendar is
asked for it. -/
theorem ofValue_canonical :
    (∀ t : FieldType, t.native.IsExact → ∀ c v, t.ofValue c = .ok v → t.toValue v = .ok c) ∧
      (∀ c, NativeType.askCalendar c = NativeType.instant.ofValue c) ∧
      ∀ n : CellInt, ∃ u, NativeType.askCalendar (.integer n) = .ok u := by
  refine ⟨fun t ht c v => toValue_of_ofValue ht, NativeType.askCalendar_eq, fun n => ?_⟩
  exact ⟨Instant.ofNanoseconds n.val, NativeType.askCalendar_eq (.integer n)⟩

/-- The first instant of a cell, in 1677, and a character beyond the sixteen-bit ones are stored as
the cells they are read from. -/
theorem ofValue_canonical_firstInstant :
    ((plain .instant).ofValue (.integer ⟨-0x8000000000000000, by decide, by decide⟩) =
        .ok (⟨-9223372037, 145224192⟩ : Instant) ∧
      (plain .instant).toValue (⟨-9223372037, 145224192⟩ : Instant) =
        .ok (.integer ⟨-0x8000000000000000, by decide, by decide⟩)) ∧
    ((optional .char).ofValue (.text "😀") = .ok (some '😀') ∧
      (optional .char).toValue (some '😀') = .ok (.text "😀")) := by
  have hinstant : (plain .instant).ofValue
      (.integer ⟨-0x8000000000000000, by decide, by decide⟩) =
      .ok (⟨-9223372037, 145224192⟩ : Instant) := by
    rfl
  have hchar : (optional .char).ofValue (.text "😀") = .ok (some '😀') := rfl
  refine ⟨⟨hinstant, ?_⟩, hchar, ?_⟩
  · exact ofValue_canonical.1 (plain .instant) trivial _ _ hinstant
  · exact ofValue_canonical.1 (optional .char) trivial _ _ hchar

end FieldType

end SqlRecord
