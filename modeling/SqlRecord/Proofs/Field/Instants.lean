import SqlRecord.Proofs.Field.RoundTrip

/-!
# Instants as counts of nanoseconds

A cell keeps of an instant its count of nanoseconds since the start of 1970. The count does not tell
a leap second from the second after it, so an instant is read back in the form that has less than a
billion nanoseconds past its second (`Instant.settle`), and exactly the instants of that form are
read back as they were. The count is reached by way of the seconds, which must fit a cell as well:
this leaves out the leap second in front of all cells, some of which would have a count that fits.
Main statement: `NativeType.ofValue_toValue_instant`.
-/

namespace SqlRecord

namespace Instant

/-! ### Settled instants -/

/-- The instant with the same count of nanoseconds and less than a billion of them past its second:
what is over, as in a leap second, counts as further seconds. -/
def settle (t : Instant) : Instant :=
  ⟨t.seconds + (t.nanos / nanosPerSecond : Nat), t.nanos % nanosPerSecond⟩

/-- A settled instant is in no leap second. -/
theorem nanos_settle_lt (t : Instant) : t.settle.nanos < nanosPerSecond :=
  Nat.mod_lt _ (by decide)

/-- Settling keeps the count of nanoseconds. -/
theorem nanoseconds_settle (t : Instant) : t.settle.nanoseconds = t.nanoseconds := by
  have hsplit : ((t.nanos / nanosPerSecond : Nat) : Int) * nanosPerSecond +
      (t.nanos % nanosPerSecond : Nat) = t.nanos := by
    exact_mod_cast Nat.div_add_mod' t.nanos nanosPerSecond
  rw [nanoseconds, nanoseconds, settle]
  dsimp only
  rw [Int.add_mul, Int.add_assoc, hsplit]

/-- **A count of nanoseconds is read as the settled instant.** -/
theorem ofNanoseconds_eq_settle (t : Instant) : ofNanoseconds t.nanoseconds = t.settle := by
  rw [← t.nanoseconds_settle, ofNanoseconds_nanoseconds t.nanos_settle_lt]

/-- Outside leap seconds an instant is settled. -/
theorem settle_eq_self_iff {t : Instant} : t.settle = t ↔ t.nanos < nanosPerSecond := by
  refine ⟨fun h => h ▸ t.nanos_settle_lt, fun h => ?_⟩
  rw [← t.ofNanoseconds_eq_settle, ofNanoseconds_nanoseconds h]

/-- Instants with the same count of nanoseconds settle alike, and only those. -/
theorem settle_eq_settle_iff {t u : Instant} :
    u.settle = t.settle ↔ u.nanoseconds = t.nanoseconds := by
  constructor
  · intro h
    rw [← u.nanoseconds_settle, h, t.nanoseconds_settle]
  · intro h
    rw [← u.ofNanoseconds_eq_settle, h, t.ofNanoseconds_eq_settle]

end Instant

namespace NativeType

/-! ### Cells of instants -/

theorem toValue_instant (t : Instant) :
    instant.toValue t = match t.cell? with
      | some n => .ok (.integer n)
      | none => .error (.outOfRange SqlType.integer.name t.text) := rfl

/-- An instant is stored exactly as the cell that has its count of nanoseconds, if it lies in no
second before the first one. -/
theorem toValue_instant_eq_ok_iff {t : Instant} {c : Value} :
    instant.toValue t = .ok c ↔ Instant.firstSecond ≤ t.seconds ∧
      ∃ n : CellInt, n.val = t.nanoseconds ∧ c = .integer n := by
  rw [toValue_instant]
  constructor
  · intro h
    split at h
    next n hn =>
      cases h
      obtain ⟨hfirst, hcount⟩ := Instant.cell?_eq_some_iff.mp hn
      exact ⟨hfirst, n, hcount, rfl⟩
    next => cases h
  · rintro ⟨hfirst, n, hcount, rfl⟩
    rw [Instant.cell?_eq_some_iff.mpr ⟨hfirst, hcount⟩]

/-- **Instants are read back settled.** An instant is stored exactly if it lies in no second before
the first one of the cells and its count of nanoseconds has 64 bits. Its cell is read as the settled
instant, which is the instant itself exactly outside leap seconds, and another instant has the same
cell exactly if it lies in no second before the first one either and settles alike. -/
theorem ofValue_toValue_instant (t : Instant) :
    ((∃ c, instant.toValue t = .ok c) ↔ Instant.firstSecond ≤ t.seconds ∧
      -0x8000000000000000 ≤ t.nanoseconds ∧ t.nanoseconds ≤ 0x7fffffffffffffff) ∧
    ∀ c, instant.toValue t = .ok c →
      instant.ofValue c = .ok t.settle ∧
        (instant.ofValue c = .ok t ↔ t.nanos < Instant.nanosPerSecond) ∧
        ∀ u : Instant, instant.toValue u = .ok c ↔
          Instant.firstSecond ≤ u.seconds ∧ u.settle = t.settle := by
  refine ⟨?_, fun c h => ?_⟩
  · constructor
    · rintro ⟨c, h⟩
      obtain ⟨hfirst, n, hn, -⟩ := toValue_instant_eq_ok_iff.mp h
      exact ⟨hfirst, hn ▸ ⟨n.lo_le, n.le_hi⟩⟩
    · rintro ⟨hfirst, hlo, hhi⟩
      exact ⟨_, toValue_instant_eq_ok_iff.mpr ⟨hfirst, ⟨t.nanoseconds, hlo, hhi⟩, rfl, rfl⟩⟩
  · obtain ⟨-, n, hn, rfl⟩ := toValue_instant_eq_ok_iff.mp h
    have hread : instant.ofValue (.integer n) = .ok t.settle :=
      congrArg Except.ok (by rw [hn, t.ofNanoseconds_eq_settle])
    refine ⟨hread, ?_, fun u => ?_⟩
    · have hself : instant.ofValue (.integer n) = .ok t ↔ t.settle = t :=
        ⟨fun h => Except.ok.inj (hread.symm.trans h), fun h => hread.trans (congrArg _ h)⟩
      exact hself.trans Instant.settle_eq_self_iff
    · have hcell : (∃ m : CellInt, m.val = u.nanoseconds ∧ Value.integer n = .integer m) ↔
          u.nanoseconds = t.nanoseconds := by
        refine ⟨?_, fun hu => ⟨n, hn.trans hu.symm, rfl⟩⟩
        rintro ⟨m, hm, hmn⟩
        cases hmn
        exact hm.symm.trans hn
      rw [toValue_instant_eq_ok_iff, hcell, Instant.settle_eq_settle_iff]

/-- The last nanosecond but one of 1969 is read back as it was. -/
theorem ofValue_toValue_instant_beforeEpoch :
    instant.toValue (⟨-1, 999999998⟩ : Instant) = .ok (.integer ⟨-2, by decide, by decide⟩) ∧
      instant.ofValue (.integer ⟨-2, by decide, by decide⟩) =
        .ok (⟨-1, 999999998⟩ : Instant) := by
  have hvalue : instant.toValue (⟨-1, 999999998⟩ : Instant) =
      .ok (.integer ⟨-2, by decide, by decide⟩) := by
    decide +kernel
  refine ⟨hvalue, ?_⟩
  exact ((ofValue_toValue_instant ⟨-1, 999999998⟩).2 _ hvalue).2.1.mpr (by decide)

/-- A leap second is stored as the second after it, and read back as that. -/
theorem ofValue_instant_leapSecond :
    ∃ c, instant.toValue (⟨59, 1500000000⟩ : Instant) = .ok c ∧
      instant.toValue (⟨60, 500000000⟩ : Instant) = .ok c ∧
      instant.ofValue c = .ok (⟨60, 500000000⟩ : Instant) ∧
      instant.ofValue c ≠ .ok (⟨59, 1500000000⟩ : Instant) := by
  let c : CellInt := ⟨60500000000, by decide, by decide⟩
  refine ⟨.integer c, by decide +kernel, by decide +kernel, rfl, fun h => ?_⟩
  have hread : (⟨60, 500000000⟩ : Instant) = ⟨59, 1500000000⟩ := Except.ok.inj h
  exact absurd hread (by decide)

end NativeType

end SqlRecord
