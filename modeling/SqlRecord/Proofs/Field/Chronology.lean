import SqlRecord.Proofs.Field.Instants
import SqlRecord.Sql.Statement

/-!
# Instants in order

The integers of cells are ordered as the instants that they store. The constant of an instant that
no cell can hold is the first or the last integer of a cell. It compares with every stored instant
as its own instant does, except with the one that this very integer stores, from which the constant
cannot be told. Main statement: `NativeType.compare_constant_iff`.
-/

namespace SqlRecord

/-- All comparisons hold alike for two orders exactly if these are the same. -/
theorem Sql.Comparison.forall_holds_eq_iff {o o' : Ordering} :
    (∀ op : Comparison, op.holds o = op.holds o') ↔ o = o' := by
  refine ⟨fun h => ?_, fun h op => by rw [h]⟩
  have heq := h .eq
  have hlt := h .lt
  revert heq hlt
  cases o <;> cases o' <;> decide

namespace Instant

/-! ### The order of instants -/

/-- Instants in the order of time: by seconds, then by nanoseconds within the second. -/
instance : Ord Instant where
  compare t u := (compare t.seconds u.seconds).then (compare t.nanos u.nanos)

/-- Instants are in the order of their seconds, and within a second of their nanoseconds. -/
theorem compare_def (t u : Instant) :
    compare t u = (compare t.seconds u.seconds).then (compare t.nanos u.nanos) := rfl

/-- **Counts of nanoseconds are ordered as their instants**, outside leap seconds. -/
theorem compare_nanoseconds {t u : Instant} (ht : t.nanos < nanosPerSecond)
    (hu : u.nanos < nanosPerSecond) : compare t.nanoseconds u.nanoseconds = compare t u := by
  rw [nanosPerSecond] at ht hu
  have hcount : ∀ t : Instant, t.nanoseconds = t.seconds * 1000000000 + t.nanos := fun _ => rfl
  rcases lt_trichotomy t.nanoseconds u.nanoseconds with hlt | heq | hgt
  · rw [compare_lt_iff_lt.mpr hlt, compare_def, eq_comm, Ordering.then_eq_lt, compare_lt_iff_lt,
      compare_eq_iff_eq, compare_lt_iff_lt]
    rw [hcount, hcount] at hlt
    omega
  · rw [compare_eq_iff_eq.mpr heq, compare_def, eq_comm, Ordering.then_eq_eq, compare_eq_iff_eq,
      compare_eq_iff_eq]
    rw [hcount, hcount] at heq
    omega
  · rw [compare_gt_iff_gt.mpr hgt, compare_def, eq_comm, Ordering.then_eq_gt, compare_gt_iff_gt,
      compare_eq_iff_eq, compare_gt_iff_gt]
    rw [hcount, hcount] at hgt
    omega

/-! ### Instants beyond the cells -/

/-- The first integer of a cell. -/
def firstCell : Int := -0x8000000000000000

/-- The last integer of a cell. -/
def lastCell : Int := 0x7fffffffffffffff

/-- The nearest cell of an instant is its own or, where no cell can hold it, the first or the last
one, as the instant lies before 1970 or not. -/
theorem nearestCell_cases {t : Instant} (ht : t.nanos < nanosPerSecond) :
    (t.cell? = some t.nearestCell ∧ t.nearestCell.val = t.nanoseconds) ∨
      t.cell? = none ∧ t.seconds < 0 ∧ t.nanoseconds < firstCell ∧
        t.nearestCell.val = firstCell ∨
      t.cell? = none ∧ 0 ≤ t.seconds ∧ lastCell < t.nanoseconds ∧
        t.nearestCell.val = lastCell := by
  have hcount : t.nanoseconds = t.seconds * 1000000000 + t.nanos := rfl
  rw [nanosPerSecond] at ht
  cases hcell : t.cell? with
  | some n =>
    rw [nearestCell_of_cell? hcell]
    exact .inl ⟨rfl, (cell?_eq_some_iff.mp hcell).2⟩
  | none =>
    -- an instant without a cell has a count that does not fit one
    have hout : t.nanoseconds < firstCell ∨ lastCell < t.nanoseconds := by
      by_contra hin
      rw [not_or, not_lt, not_lt] at hin
      have hfirst : firstSecond ≤ t.seconds := by
        have := hin.1
        rw [firstCell] at this
        rw [firstSecond]
        omega
      rw [cell?_eq_some_iff (n := ⟨t.nanoseconds, hin.1, hin.2⟩) |>.mpr ⟨hfirst, rfl⟩] at hcell
      cases hcell
    rw [nearestCell, hcell, Option.getD_none]
    rw [firstCell, lastCell] at *
    split_ifs with hneg
    · exact .inr (.inl ⟨rfl, hneg, by omega, rfl⟩)
    · exact .inr (.inr ⟨rfl, by omega, by omega, rfl⟩)

/-- Whether an instant lies beyond the end of the cells at which another is stored. -/
def IsBeyond (d s : Instant) : Prop :=
  s.nanoseconds = lastCell ∧ lastCell < d.nanoseconds ∨
    s.nanoseconds = firstCell ∧ d.nanoseconds < firstCell

/-- An instant that is beyond another is not it. -/
theorem IsBeyond.compare_ne {d s : Instant} (hs : s.nanos < nanosPerSecond)
    (hd : d.nanos < nanosPerSecond) (h : d.IsBeyond s) : compare s d ≠ .eq := by
  rw [← compare_nanoseconds hs hd, ne_eq, compare_eq_iff_eq]
  rcases h with ⟨heq, hlt⟩ | ⟨heq, hlt⟩
  · omega
  · omega

/-- A stored count of nanoseconds compares with the nearest cell of an instant as with the count of
that instant, unless the instant lies beyond it; then they are equal. -/
theorem compare_nearestCell {n : CellInt} {d s : Instant} (hn : n.val = s.nanoseconds)
    (hd : d.nanos < nanosPerSecond) :
    (¬d.IsBeyond s → compare n.val d.nearestCell.val = compare s.nanoseconds d.nanoseconds) ∧
      (d.IsBeyond s → compare n.val d.nearestCell.val = .eq) := by
  have hlo : firstCell ≤ n.val := n.lo_le
  have hhi : n.val ≤ lastCell := n.le_hi
  rw [IsBeyond, ← hn]
  rcases d.nearestCell_cases hd with ⟨-, hcell⟩ | ⟨-, -, hlt, hcell⟩ | ⟨-, -, hlt, hcell⟩
  · -- the constant is exact, and nothing lies beyond
    have hlo' : firstCell ≤ d.nearestCell.val := d.nearestCell.lo_le
    have hhi' : d.nearestCell.val ≤ lastCell := d.nearestCell.le_hi
    rw [← hcell]
    exact ⟨fun _ => rfl, by omega⟩
  · rw [hcell, compare_gt_iff_gt.mpr (hlt.trans_le hlo), compare_gt_iff_gt, compare_eq_iff_eq]
    omega
  · rw [hcell, compare_lt_iff_lt.mpr (hhi.trans_lt hlt), compare_lt_iff_lt, compare_eq_iff_eq]
    omega

end Instant

namespace NativeType

theorem constant?_instant (t : Instant) :
    instant.constant? t = some (.integer t.nearestCell) := rfl

/-- **Constants compare with stored instants as their own instants do, except beyond the ends.** The
integer of a stored instant and that of a constant are ordered as the two instants, and so are met
by the same comparisons, exactly if the constant does not lie beyond the end of the cells at which
the instant is stored; there the integers are equal and the instants are not. -/
theorem compare_constant_iff {s d : Instant} (hs : s.nanos < Instant.nanosPerSecond)
    (hd : d.nanos < Instant.nanosPerSecond) {c : Value} (h : instant.toValue s = .ok c) :
    ∃ n m : CellInt, c = .integer n ∧ instant.constant? d = some (.integer m) ∧
      (¬d.IsBeyond s → compare n.val m.val = compare s d) ∧
      (d.IsBeyond s → compare n.val m.val = .eq ∧ compare s d ≠ .eq) ∧
      ((∀ op : Sql.Comparison, op.holds (compare n.val m.val) = op.holds (compare s d)) ↔
        ¬d.IsBeyond s) := by
  obtain ⟨-, n, hn, rfl⟩ := toValue_instant_eq_ok_iff.mp h
  obtain ⟨hnear, hbeyond⟩ := Instant.compare_nearestCell hn hd
  rw [Instant.compare_nanoseconds hs hd] at hnear
  have hne : d.IsBeyond s → compare s d ≠ .eq := Instant.IsBeyond.compare_ne hs hd
  refine ⟨n, d.nearestCell, rfl, constant?_instant d, hnear, fun h => ⟨hbeyond h, hne h⟩, ?_⟩
  rw [Sql.Comparison.forall_holds_eq_iff]
  refine ⟨fun hsame h => ?_, hnear⟩
  rw [hbeyond h] at hsame
  exact hne h hsame.symm

/-- The last instant of a cell, in 2262, comes after the constant of one that lies before all cells,
and is not told from the constant of the next nanosecond. -/
theorem compare_constant_iff_lastInstant :
    (∃ n m : CellInt, instant.toValue (⟨9223372036, 854775807⟩ : Instant) = .ok (.integer n) ∧
      instant.constant? (⟨-10000000000, 0⟩ : Instant) = some (.integer m) ∧
      compare n.val m.val = .gt) ∧
    ∃ n m : CellInt, instant.toValue (⟨9223372036, 854775807⟩ : Instant) = .ok (.integer n) ∧
      instant.constant? (⟨9223372036, 854775808⟩ : Instant) = some (.integer m) ∧
      compare n.val m.val = .eq := by
  have hlast : instant.toValue (⟨9223372036, 854775807⟩ : Instant) =
      .ok (.integer ⟨Instant.lastCell, by decide, by decide⟩) := by
    decide +kernel
  constructor
  · obtain ⟨n, m, hn, hm, hsame, -⟩ :=
      compare_constant_iff (d := ⟨-10000000000, 0⟩) (by decide) (by decide) hlast
    refine ⟨n, m, hn ▸ hlast, hm, (hsame ?_).trans (by decide)⟩
    rintro (⟨-, h⟩ | ⟨h, -⟩)
    · exact absurd h (by decide)
    · exact absurd h (by decide)
  · obtain ⟨n, m, hn, hm, -, hbeyond, -⟩ :=
      compare_constant_iff (d := ⟨9223372036, 854775808⟩) (by decide) (by decide) hlast
    exact ⟨n, m, hn ▸ hlast, hm, (hbeyond (.inl (by decide))).1⟩

/-- The instant one nanosecond after the last of a cell has the constant of that one, and a later
one has it as well: the stored instant seems to be equal to both, and earlier than neither. -/
theorem compare_constant_ne_afterLast :
    ∃ n m : CellInt, instant.toValue (⟨9223372036, 854775807⟩ : Instant) = .ok (.integer n) ∧
      instant.constant? (⟨9223372036, 854775808⟩ : Instant) = some (.integer m) ∧
      compare n.val m.val = .eq ∧
      compare (⟨9223372036, 854775807⟩ : Instant) ⟨9223372036, 854775808⟩ = .lt := by
  let last : CellInt := ⟨Instant.lastCell, by decide, by decide⟩
  exact ⟨last, last, by decide +kernel, by decide +kernel, by decide, by decide⟩

end NativeType

end SqlRecord
