import SqlRecord.Proofs.Floating.RoundTrip

/-!
# Nearest numbers

What rounding to nearest means, apart from how it is computed: no finite number is closer, and where
another one is as close the last bit is zero (`Floating.IsNearest`). There is one such number at
most (`Floating.IsNearest.toRat_eq`), and `Floating.ofRatio` gives it
(`Floating.isNearest_ofRatio`).
-/

namespace SqlRecord

/-- Rounded division is off by a half at most, and by a half only towards an even number. -/
theorem abs_sub_divNearestEven {n d : Nat} (hd : 0 < d) :
    |(divNearestEven n d : ℚ) - n / d| ≤ 1 / 2 ∧
      (|(divNearestEven n d : ℚ) - n / d| = 1 / 2 → divNearestEven n d % 2 = 0) := by
  have hdq : (0 : ℚ) < d := Nat.cast_pos.mpr hd
  have hsplit : (n : ℚ) / d = (n / d : Nat) + (n % d : Nat) / d := by
    rw [div_eq_iff hdq.ne', add_mul, div_mul_cancel₀ _ hdq.ne']
    exact_mod_cast (Nat.div_add_mod' n d).symm
  have hlt : ((n % d : Nat) : ℚ) / d < 1 :=
    (div_lt_one hdq).mpr (Nat.cast_lt.mpr (Nat.mod_lt n hd))
  have hnonneg : (0 : ℚ) ≤ ((n % d : Nat) : ℚ) / d := by positivity
  have hbelow : 2 * (n % d) < d ↔ ((n % d : Nat) : ℚ) / d < 1 / 2 := by
    rw [div_lt_div_iff₀ hdq two_pos, one_mul, mul_comm]
    exact_mod_cast Iff.rfl
  have habove : d < 2 * (n % d) ↔ 1 / 2 < ((n % d : Nat) : ℚ) / d := by
    rw [div_lt_div_iff₀ two_pos hdq, one_mul, mul_comm]
    exact_mod_cast Iff.rfl
  rw [divNearestEven, hsplit]
  simp only [hbelow, habove]
  generalize ((n % d : Nat) : ℚ) / d = rest at *
  split_ifs with hlow hhigh heven
  · have habs : |((n / d : Nat) : ℚ) - ((n / d : Nat) + rest)| = rest := by
      rw [sub_add_cancel_left, abs_neg, abs_of_nonneg hnonneg]
    rw [habs]
    exact ⟨hlow.le, fun h => absurd h hlow.ne⟩
  · have habs : |((n / d + 1 : Nat) : ℚ) - ((n / d : Nat) + rest)| = 1 - rest := by
      rw [Nat.cast_succ, add_sub_add_left_eq_sub, abs_of_pos (sub_pos.mpr hlt)]
    rw [habs]
    exact ⟨by linarith, fun h => absurd h (by linarith)⟩
  · have hrest : rest = 1 / 2 := le_antisymm (not_lt.mp hhigh) (not_lt.mp hlow)
    rw [hrest, sub_add_cancel_left, abs_neg]
    exact ⟨by norm_num, fun _ => heven⟩
  · have hrest : rest = 1 / 2 := le_antisymm (not_lt.mp hhigh) (not_lt.mp hlow)
    rw [hrest, Nat.cast_succ, add_sub_add_left_eq_sub]
    exact ⟨by norm_num, fun _ => by omega⟩

/-- Multiples of different integers are at least a unit apart. -/
theorem le_abs_sub_mul {u : ℚ} (hu : 0 < u) {i j : Int} (h : i ≠ j) : u ≤ |i * u - j * u| := by
  have hone : (1 : ℚ) ≤ |(i : ℚ) - j| := by
    have : 1 ≤ |i - j| := Int.one_le_abs (sub_ne_zero.mpr h)
    exact_mod_cast this
  rw [← sub_mul, abs_mul, abs_of_pos hu]
  exact le_mul_of_one_le_left hu.le hone

/-! ### Magnitudes -/

namespace Format

variable (f : Format)

/-- The binade of a magnitude, counted from that of the least numbers. -/
def binade (m : Nat) : Nat := m / 2 ^ f.fractionBits - 1

/-- The distance of the numbers of a binade. -/
def unit (k : Nat) : ℚ := 2 ^ (f.leastExponent + k)

/-- The number that a magnitude denotes. -/
def value (m : Nat) : ℚ :=
  ((m - f.binade m * 2 ^ f.fractionBits : Nat) : ℚ) * f.unit (f.binade m)

theorem unit_pos (k : Nat) : 0 < f.unit k := zpow_pos two_pos _

theorem unit_add (k l : Nat) : f.unit (k + l) = 2 ^ l * f.unit k := by
  rw [unit, unit, Nat.cast_add, ← add_assoc, zpow_add₀ two_ne_zero, zpow_natCast, mul_comm]

/-- A magnitude in or at the end of a binade is a multiple of the binade's unit. -/
theorem value_eq {k r : Nat} (hr : r ≤ 2 ^ (f.fractionBits + 1))
    (hk : k = 0 ∨ 2 ^ f.fractionBits ≤ r) :
    f.value (k * 2 ^ f.fractionBits + r) = r * f.unit k := by
  have hpos : 0 < 2 ^ f.fractionBits := Nat.pow_pos (by decide)
  rw [Nat.pow_succ] at hr
  have hbinade : ∀ {j s : Nat}, s < 2 ^ f.fractionBits →
      f.binade (j * 2 ^ f.fractionBits + s) = j - 1 := by
    intro j s hs
    rw [binade, Nat.add_comm, Nat.add_mul_div_right _ _ hpos, Nat.div_eq_of_lt hs, Nat.zero_add]
  rcases lt_or_ge r (2 ^ f.fractionBits) with hlow | hhigh
  · obtain rfl : k = 0 := hk.resolve_right (by omega)
    rw [value, hbinade hlow]
    simp
  rcases hr.lt_or_eq with hlt | heq
  · obtain ⟨s, rfl⟩ : ∃ s, r = 2 ^ f.fractionBits + s := ⟨_, (Nat.add_sub_of_le hhigh).symm⟩
    have hsum : k * 2 ^ f.fractionBits + (2 ^ f.fractionBits + s) =
        (k + 1) * 2 ^ f.fractionBits + s := by ring
    rw [value, hsum, hbinade (by omega), Nat.add_sub_cancel, ← hsum, Nat.add_sub_cancel_left]
  · -- the end of a binade is the start of the next
    have hsum : k * 2 ^ f.fractionBits + r = (k + 2) * 2 ^ f.fractionBits + 0 := by
      rw [heq]
      ring
    have hrest : (k + 2) * 2 ^ f.fractionBits + 0 - (k + 1) * 2 ^ f.fractionBits =
        2 ^ f.fractionBits := by
      rw [Nat.add_zero, ← Nat.sub_mul]
      simp
    have hnext : k + 2 - 1 = k + 1 := rfl
    rw [value, hsum, hbinade hpos, hnext, hrest, f.unit_add k 1, heq]
    push_cast
    ring

/-- A magnitude is a binade and a significand, which is full except in the lowest binade. -/
theorem exists_binade (m : Nat) :
    ∃ k r, m = k * 2 ^ f.fractionBits + r ∧ r < 2 ^ (f.fractionBits + 1) ∧
      (k = 0 ∨ 2 ^ f.fractionBits ≤ r) := by
  have hsplit := Nat.div_add_mod' m (2 ^ f.fractionBits)
  have hmod : m % 2 ^ f.fractionBits < 2 ^ f.fractionBits :=
    Nat.mod_lt _ (Nat.pow_pos (by decide))
  rw [Nat.pow_succ]
  cases hfield : m / 2 ^ f.fractionBits with
  | zero =>
    rw [hfield, Nat.zero_mul] at hsplit
    exact ⟨0, m, by omega, by omega, .inl rfl⟩
  | succ k =>
    rw [hfield, Nat.succ_mul] at hsplit
    exact ⟨k, 2 ^ f.fractionBits + m % 2 ^ f.fractionBits, by omega, by omega, .inr (by omega)⟩

/-- The value grows with the magnitude. -/
theorem value_lt_succ (m : Nat) : f.value m < f.value (m + 1) := by
  obtain ⟨k, r, rfl, hr, hk⟩ := f.exists_binade m
  rw [f.value_eq hr.le hk, Nat.add_assoc, f.value_eq hr (hk.imp_right (by omega))]
  exact mul_lt_mul_of_pos_right (by exact_mod_cast r.lt_succ_self) (f.unit_pos k)

theorem value_nonneg (m : Nat) : 0 ≤ f.value m :=
  mul_nonneg (Nat.cast_nonneg _) (f.unit_pos _).le

theorem value_zero : f.value 0 = 0 := by
  have h := f.value_eq (k := 0) (r := 0) (Nat.zero_le _) (.inl rfl)
  simpa using h

/-- The number that a magnitude with a sign denotes. -/
def signedValue (i : Int) : ℚ := if i < 0 then -f.value i.natAbs else f.value i.natAbs

/-- **The order of numbers is that of their magnitudes with signs.** -/
theorem signedValue_strictMono : StrictMono f.signedValue := by
  refine strictMono_int_of_lt_succ fun i => ?_
  rw [signedValue, signedValue]
  rcases lt_trichotomy i (-1) with hi | rfl | hi
  · have hsucc : i.natAbs = (i + 1).natAbs + 1 := by omega
    rw [if_pos (by omega), if_pos (by omega), hsucc]
    exact neg_lt_neg (f.value_lt_succ _)
  · have hlt := f.value_lt_succ 0
    rw [f.value_zero] at hlt
    simpa [f.value_zero] using hlt
  · have hsucc : (i + 1).natAbs = i.natAbs + 1 := by omega
    rw [if_neg (by omega), if_neg (by omega), hsucc]
    exact f.value_lt_succ _

end Format

/-! ### Signs -/

/-- A number with a sign put in front. -/
def withSign (negative : Bool) (q : ℚ) : ℚ := if negative then -q else q

theorem abs_withSign (negative : Bool) (q : ℚ) : |withSign negative q| = |q| := by
  cases negative
  · rfl
  · exact abs_neg q

theorem withSign_withSign (negative : Bool) (q : ℚ) :
    withSign negative (withSign negative q) = q := by
  cases negative
  · rfl
  · exact neg_neg q

/-- Signs do not change distances. -/
theorem abs_withSign_sub (negative : Bool) (p q : ℚ) :
    |withSign negative p - withSign negative q| = |p - q| := by
  cases negative
  · rfl
  · exact (congrArg _ (neg_sub_neg p q)).trans (abs_sub_comm q p)

/-! ### Numbers -/

namespace Floating

variable {f : Format}

/-- The number that a finite pattern denotes. -/
def toRat (x : Floating f) : ℚ :=
  match x.datum with
  | .finite negative significand exponent => withSign negative (significand * 2 ^ exponent)
  | _ => 0

/-- The magnitude with its sign, the place of a pattern in the order of numbers. -/
def ordinal (x : Floating f) : Int := if x.negative then -x.magnitude else x.magnitude

/-- What a finite pattern denotes is the value of its magnitude. -/
theorem value_magnitude {x : Floating f} {negative : Bool} {significand : Nat} {exponent : Int}
    (h : x.datum = .finite negative significand exponent) :
    f.value x.magnitude = significand * 2 ^ exponent := by
  have hsplit := Nat.div_add_mod' x.magnitude (2 ^ f.fractionBits)
  have hfraction : x.magnitude % 2 ^ f.fractionBits < 2 ^ f.fractionBits :=
    Nat.mod_lt _ (Nat.pow_pos (by decide))
  rw [datum] at h
  split_ifs at h with hnan hinf hfield
  all_goals obtain ⟨-, rfl, rfl⟩ := Datum.finite.inj h
  · have hvalue := f.value_eq (k := 0) (r := x.magnitude % 2 ^ f.fractionBits)
      (by rw [Nat.pow_succ]; omega) (.inl rfl)
    rw [← hfield, hsplit, hfield, Format.unit] at hvalue
    simpa using hvalue
  · obtain ⟨k, hk⟩ := Nat.exists_eq_succ_of_ne_zero hfield
    have hvalue := f.value_eq (k := k) (r := 2 ^ f.fractionBits + x.magnitude % 2 ^ f.fractionBits)
      (by rw [Nat.pow_succ]; omega) (.inr (by omega))
    rw [← Nat.add_assoc, ← Nat.succ_mul, ← hk, hsplit, Format.unit] at hvalue
    rw [hvalue, hk]
    congr 2
    push_cast
    ring

/-- A finite number is the value of its magnitude with its sign. -/
theorem toRat_eq_withSign {x : Floating f} (h : x.isFinite = true) :
    x.toRat = withSign x.negative (f.value x.magnitude) := by
  obtain ⟨significand, exponent, hdatum, -⟩ := exists_datum h
  rw [toRat, hdatum, value_magnitude hdatum]

theorem natAbs_ordinal (x : Floating f) : x.ordinal.natAbs = x.magnitude := by
  rw [ordinal]
  split_ifs <;> simp

/-- A finite number is the signed value of its ordinal. -/
theorem toRat_eq {x : Floating f} (h : x.isFinite = true) : x.toRat = f.signedValue x.ordinal := by
  rw [toRat_eq_withSign h, Format.signedValue, natAbs_ordinal, ordinal, withSign]
  by_cases hsign : x.negative
  · rw [if_pos hsign, if_pos hsign]
    split_ifs with hneg
    · rfl
    · have hzero : x.magnitude = 0 := by omega
      simp [hzero, f.value_zero]
  · rw [if_neg hsign, if_neg hsign, if_neg (by omega)]

theorem abs_toRat {x : Floating f} (h : x.isFinite = true) : |x.toRat| = f.value x.magnitude := by
  rw [toRat_eq_withSign h, abs_withSign, abs_of_nonneg (f.value_nonneg _)]

/-- Every ordinal below infinity is that of a finite number. -/
theorem exists_ordinal {i : Int} (h : i.natAbs < f.infinity) :
    ∃ x : Floating f, x.isFinite = true ∧ x.ordinal = i := by
  have hlt := h.trans (infinity_lt f)
  refine ⟨ofMagnitude (decide (i < 0)) i.natAbs, ?_, ?_⟩
  · rw [isFinite, magnitude_ofMagnitude _ hlt]
    exact decide_eq_true h
  · rw [ordinal, magnitude_ofMagnitude _ hlt, negative_ofMagnitude _ hlt]
    simp only [decide_eq_true_eq]
    split_ifs <;> omega

/-- Whether a number is nearest to a rational: it is finite, none is closer, and its last bit is
zero if another one is as close. -/
structure IsNearest (x : Floating f) (q : ℚ) : Prop where
  finite : x.isFinite = true
  le : ∀ y : Floating f, y.isFinite = true → |x.toRat - q| ≤ |y.toRat - q|
  even : ∀ y : Floating f, y.isFinite = true → |x.toRat - q| = |y.toRat - q| →
    y.toRat ≠ x.toRat → x.magnitude % 2 = 0

/-- **At most one number is nearest.** -/
theorem IsNearest.toRat_eq {x y : Floating f} {q : ℚ} (hx : x.IsNearest q) (hy : y.IsNearest q) :
    x.toRat = y.toRat := by
  by_contra hne
  wlog hlt : x.toRat < y.toRat generalizing x y
  · exact this hy hx (Ne.symm hne) (lt_of_le_of_ne (not_lt.mp hlt) (Ne.symm hne))
  have hdistance := le_antisymm (hx.le y hy.finite) (hy.le x hx.finite)
  -- two nearest numbers are on either side, and both are even
  have hsides : x.toRat - q = -(y.toRat - q) :=
    (abs_eq_abs.mp hdistance).resolve_left fun h => hne (by linarith)
  have hevenx := hx.even y hy.finite hdistance (Ne.symm hne)
  have heveny := hy.even x hx.finite hdistance.symm hne
  have hxlt : x.magnitude < f.infinity := of_decide_eq_true hx.finite
  have hylt : y.magnitude < f.infinity := of_decide_eq_true hy.finite
  rw [Floating.toRat_eq hx.finite, Floating.toRat_eq hy.finite,
    f.signedValue_strictMono.lt_iff_lt] at hlt
  rw [← natAbs_ordinal] at hevenx heveny hxlt hylt
  -- so there is an odd one between them, which is closer
  obtain ⟨z, hz, hordinal⟩ := exists_ordinal (f := f) (i := x.ordinal + 1) (by omega)
  have hxz : x.toRat < z.toRat := by
    rw [Floating.toRat_eq hx.finite, Floating.toRat_eq hz, hordinal]
    exact f.signedValue_strictMono (by omega)
  have hzy : z.toRat < y.toRat := by
    rw [Floating.toRat_eq hy.finite, Floating.toRat_eq hz, hordinal]
    exact f.signedValue_strictMono (by omega)
  refine absurd (hx.le z hz) (not_le.mpr ?_)
  rw [abs_of_neg (by linarith : x.toRat - q < 0), abs_lt]
  constructor <;> linarith

/-- The nearest number is unique, except that zero has two signs: of two neighbours equally far the
even one wins. -/
theorem IsNearest.unique {x y : Floating f} {q : ℚ} (hx : x.IsNearest q) (hy : y.IsNearest q)
    (hne : y.magnitude ≠ 0) : x = y := by
  have hrat := hx.toRat_eq hy
  rw [Floating.toRat_eq hx.finite, Floating.toRat_eq hy.finite] at hrat
  have hordinal := f.signedValue_strictMono.injective hrat
  have hmagnitude : x.magnitude = y.magnitude := by
    rw [← natAbs_ordinal, ← natAbs_ordinal, hordinal]
  have hsign : x.negative = y.negative := by
    rw [ordinal, ordinal, hmagnitude] at hordinal
    rw [Bool.eq_iff_iff]
    split_ifs at hordinal with hx hy hy
    · exact iff_of_true hx hy
    · omega
    · omega
    · exact iff_of_false hx hy
  rw [← x.ofMagnitude_magnitude, ← y.ofMagnitude_magnitude, hsign, hmagnitude]

end Floating

/-! ### Rounding -/

namespace Format

variable {f : Format}

variable (f) in
/-- A ratio rounded to a multiple of the unit of a binade, which is the binade that holds the ratio
or the least. -/
structure RoundsTo (q : ℚ) (k r : Nat) : Prop where
  width : r ≤ 2 ^ (f.fractionBits + 1)
  full : k = 0 ∨ 2 ^ f.fractionBits ≤ r
  start : k = 0 ∨ 2 ^ f.fractionBits * f.unit k ≤ q
  half : |r * f.unit k - q| ≤ f.unit k / 2
  even : |r * f.unit k - q| = f.unit k / 2 → r % 2 = 0

/-- The exponent that a ratio is rounded at is that of its binade. -/
theorem exists_exponent {n d : Nat} (hn : 0 < n) (hd : 0 < d) :
    ∃ k : Nat, max f.leastExponent (floorLog2 n d - f.fractionBits) = f.leastExponent + k ∧
      (n : ℚ) / d < 2 ^ (f.fractionBits + 1) * f.unit k ∧
      (k = 0 ∨ 2 ^ f.fractionBits * f.unit k ≤ (n : ℚ) / d) := by
  have hratio : (0 : ℚ) < (n : ℚ) / d :=
    div_pos (Nat.cast_pos.mpr hn) (Nat.cast_pos.mpr hd)
  obtain ⟨k, hk⟩ : ∃ k : Nat,
      max f.leastExponent (floorLog2 n d - f.fractionBits) = f.leastExponent + k :=
    ⟨(floorLog2 n d - f.fractionBits - f.leastExponent).toNat, by omega⟩
  have hlog := floorLog2_eq hn hd
  refine ⟨k, hk, ?_, (Nat.eq_zero_or_pos k).imp_right fun hpos => ?_⟩
  · have hlt : (n : ℚ) / d < 2 ^ (Int.log 2 ((n : ℚ) / d) + 1) :=
      Int.lt_zpow_succ_log_self (by decide) _
    refine hlt.trans_le ?_
    rw [unit, ← zpow_natCast, ← zpow_add₀ two_ne_zero]
    exact zpow_le_zpow_right₀ one_le_two (by omega)
  · have hle : (2 : ℚ) ^ Int.log 2 ((n : ℚ) / d) ≤ n / d := Int.zpow_log_le_self (by decide) hratio
    refine le_trans ?_ hle
    rw [unit, ← zpow_natCast, ← zpow_add₀ two_ne_zero]
    exact zpow_le_zpow_right₀ one_le_two (by omega)

/-- Rounding to an integer, counted in the unit of the binade, is rounding to the binade. -/
theorem RoundsTo.of_half {q : ℚ} {k r : Nat} (hhigh : q < 2 ^ (f.fractionBits + 1) * f.unit k)
    (hlow : k = 0 ∨ 2 ^ f.fractionBits * f.unit k ≤ q) (hhalf : |r - q / f.unit k| ≤ 1 / 2)
    (heven : |r - q / f.unit k| = 1 / 2 → r % 2 = 0) : f.RoundsTo q k r := by
  have hunit := f.unit_pos k
  have habs : |r * f.unit k - q| = |r - q / f.unit k| * f.unit k := by
    rw [← abs_of_pos hunit, ← abs_mul, abs_of_pos hunit, sub_mul, div_mul_cancel₀ _ hunit.ne']
  obtain ⟨hbelow, habove⟩ := abs_le.mp hhalf
  constructor
  case width =>
    have hlt : q / f.unit k < 2 ^ (f.fractionBits + 1) := (div_lt_iff₀ hunit).mpr hhigh
    have : (r : ℚ) < 2 ^ (f.fractionBits + 1) + 1 := by linarith
    exact Nat.lt_succ_iff.mp (by exact_mod_cast this)
  case full =>
    refine hlow.imp_right fun hle => ?_
    have hge : 2 ^ f.fractionBits ≤ q / f.unit k := (le_div_iff₀ hunit).mpr hle
    have : (2 : ℚ) ^ f.fractionBits < r + 1 := by linarith
    exact Nat.lt_succ_iff.mp (by exact_mod_cast this)
  case start => exact hlow
  case half =>
    rw [habs]
    linarith [mul_le_mul_of_nonneg_right hhalf hunit.le]
  case even =>
    intro htie
    rw [habs] at htie
    exact heven (mul_right_cancel₀ hunit.ne' (htie.trans (by ring)))

/-- **A ratio is rounded to its binade.** -/
theorem exists_roundsTo (f : Format) {n d : Nat} (hn : 0 < n) (hd : 0 < d) :
    ∃ k r, f.roundMagnitude n d = min f.infinity (k * 2 ^ f.fractionBits + r) ∧
      f.RoundsTo (n / d) k r := by
  obtain ⟨k, hk, hhigh, hlow⟩ := exists_exponent (f := f) hn hd
  have hround : f.roundMagnitude n d = min f.infinity (k * 2 ^ f.fractionBits +
      divNearestEven (n * 2 ^ (-(f.leastExponent + k)).toNat)
        (d * 2 ^ (f.leastExponent + k).toNat)) := by
    rw [roundMagnitude, if_neg hn.ne']
    dsimp only
    rw [hk, add_sub_cancel_left, Int.toNat_natCast]
  have hscaled : ((n * 2 ^ (-(f.leastExponent + k)).toNat : Nat) : ℚ) /
      ((d * 2 ^ (f.leastExponent + k).toNat : Nat) : ℚ) = n / d / f.unit k := by
    rw [unit, zpow_eq_div two_ne_zero (f.leastExponent + k)]
    push_cast
    field_simp
  have hpos : 0 < d * 2 ^ (f.leastExponent + k).toNat := Nat.mul_pos hd (Nat.pow_pos (by decide))
  obtain ⟨hhalf, heven⟩ :=
    abs_sub_divNearestEven (n := n * 2 ^ (-(f.leastExponent + k)).toNat) hpos
  rw [hscaled] at hhalf heven
  exact ⟨k, _, hround, .of_half hhigh hlow hhalf heven⟩

/-- A ratio of full width in the least binade rounds to a number with a full significand. -/
theorem le_roundMagnitude {n d : Nat} (hn : 0 < n) (hd : 0 < d)
    (hfull : 2 ^ f.fractionBits ≤ f.infinity)
    (h : 2 ^ f.fractionBits * f.unit 0 ≤ (n : ℚ) / d) :
    2 ^ f.fractionBits ≤ f.roundMagnitude n d := by
  obtain ⟨k, r, hround, hr⟩ := f.exists_roundsTo hn hd
  have hle : 2 ^ f.fractionBits ≤ r := by
    rcases hr.full with rfl | hle
    · have hunit := f.unit_pos 0
      have hlow := (abs_le.mp hr.half).1
      have hlt : ((2 ^ f.fractionBits : Nat) : ℚ) * f.unit 0 < ((r + 1 : Nat) : ℚ) * f.unit 0 := by
        push_cast
        linarith
      exact Nat.lt_succ_iff.mp (Nat.cast_lt.mp (lt_of_mul_lt_mul_right hlt hunit.le))
    · exact hle
  rw [hround]
  exact le_min hfull (hle.trans (Nat.le_add_left _ _))

/-- A ratio below the start of a binade that is not the last rounds to a finite number. -/
theorem roundMagnitude_lt {n d k : Nat} (hn : 0 < n) (hd : 0 < d)
    (hlast : k * 2 ^ f.fractionBits + 2 ^ (f.fractionBits + 1) < f.infinity)
    (h : (n : ℚ) / d < 2 ^ f.fractionBits * f.unit k) : f.roundMagnitude n d < f.infinity := by
  obtain ⟨l, r, hround, hr⟩ := f.exists_roundsTo hn hd
  have hlk : l ≤ k := by
    rcases hr.start with rfl | hle
    · exact Nat.zero_le k
    · have hunit := lt_of_mul_lt_mul_left (hle.trans_lt h) (by positivity)
      have := (zpow_lt_zpow_iff_right₀ one_lt_two).mp hunit
      omega
  rw [hround]
  refine lt_of_le_of_lt (Nat.min_le_right _ _) (lt_of_le_of_lt ?_ hlast)
  exact Nat.add_le_add (Nat.mul_le_mul_right _ hlk) hr.width

/-- From a binade on, numbers are multiples of its unit; before, they are less than its start. -/
theorem value_multiple (k j : Nat) :
    (∃ i : Nat, f.value j = i * f.unit k) ∨
      k ≠ 0 ∧ f.value j < 2 ^ f.fractionBits * f.unit k := by
  obtain ⟨l, s, rfl, hs, hl⟩ := f.exists_binade j
  rw [f.value_eq hs.le hl]
  rcases le_or_gt k l with hle | hlt
  · obtain ⟨e, rfl⟩ := Nat.exists_eq_add_of_le hle
    refine .inl ⟨s * 2 ^ e, ?_⟩
    rw [f.unit_add]
    push_cast
    ring
  · obtain ⟨e, rfl⟩ := Nat.exists_eq_add_of_lt hlt
    refine .inr ⟨by omega, ?_⟩
    have hunit := f.unit_pos l
    have hsq : (s : ℚ) < 2 ^ (f.fractionBits + 1) := by exact_mod_cast hs
    have hone : (1 : ℚ) ≤ 2 ^ e := one_le_pow₀ one_le_two
    calc (s : ℚ) * f.unit l < 2 ^ (f.fractionBits + 1) * f.unit l :=
          mul_lt_mul_of_pos_right hsq hunit
      _ ≤ 2 ^ (f.fractionBits + 1) * f.unit l * 2 ^ e := le_mul_of_one_le_right (by positivity) hone
      _ = 2 ^ f.fractionBits * f.unit (l + e + 1) := by
        rw [add_assoc, f.unit_add]
        ring

namespace RoundsTo

variable {q : ℚ} {k r : Nat}

/-- The value of a significand that was rounded, in the units of its binade. -/
theorem value_eq (h : f.RoundsTo q k r) : f.value (k * 2 ^ f.fractionBits + r) = r * f.unit k :=
  f.value_eq h.width h.full

/-- What a ratio is rounded to is the nearest multiple of the unit. -/
theorem nearest_multiple (h : f.RoundsTo q k r) (i : Int) :
    |r * f.unit k - q| ≤ |i * f.unit k - q| ∧
      (|r * f.unit k - q| = |i * f.unit k - q| → i * f.unit k ≠ r * f.unit k → r % 2 = 0) := by
  have hhalf := h.half
  by_cases hi : i = r
  · rw [hi, Int.cast_natCast]
    exact ⟨le_rfl, fun _ hne => absurd rfl hne⟩
  · have hapart := le_abs_sub_mul (f.unit_pos k) hi
    have htriangle := abs_sub_le (i * f.unit k) q ((r : Int) * f.unit k)
    rw [abs_sub_comm q, Int.cast_natCast] at htriangle
    rw [Int.cast_natCast] at hapart
    exact ⟨by linarith, fun heq _ => h.even (by linarith)⟩

/-- What a ratio is rounded to is nearest among the numbers of the format, with either sign. -/
theorem nearest_value (h : f.RoundsTo q k r) {j : Nat} {w : ℚ} (hw : |w| = f.value j) :
    |r * f.unit k - q| ≤ |w - q| ∧
      (|r * f.unit k - q| = |w - q| → w ≠ r * f.unit k → r % 2 = 0) := by
  rcases f.value_multiple k j with ⟨i, hi⟩ | ⟨hpos, hlt⟩
  · obtain ⟨i, rfl⟩ : ∃ i : Int, w = i * f.unit k := by
      rw [hi] at hw
      rcases abs_eq_abs.mp (hw.trans (abs_of_nonneg (hw ▸ abs_nonneg w)).symm) with rfl | rfl
      · exact ⟨i, by push_cast; rfl⟩
      · exact ⟨-i, by push_cast; ring⟩
    exact h.nearest_multiple i
  · -- a number before the binade is farther than the binade's start
    have hle := h.start.resolve_left hpos
    have hstart := (h.nearest_multiple (2 ^ f.fractionBits)).1
    have hwlt : w < 2 ^ f.fractionBits * f.unit k := (le_abs_self w).trans_lt (hw ▸ hlt)
    push_cast at hstart
    rw [abs_of_nonpos (sub_nonpos.mpr hle)] at hstart
    rw [abs_of_neg (by linarith : w - q < 0)]
    exact ⟨by linarith, fun heq _ => absurd heq (by linarith)⟩

end RoundsTo

end Format

namespace Floating

variable {f : Format}

/-- **Rounding a ratio gives the nearest number.** -/
theorem isNearest_ofRatio {n d : Nat} (hn : 0 < n) (hd : 0 < d) (hbits : 0 < f.fractionBits)
    (hfinite : f.roundMagnitude n d < f.infinity) (negative : Bool) :
    (ofRatio f negative n d).IsNearest (withSign negative ((n : ℚ) / d)) := by
  obtain ⟨k, r, hround, hr⟩ := f.exists_roundsTo hn hd
  have hlt := hfinite.trans (infinity_lt f)
  have hmin : f.roundMagnitude n d = k * 2 ^ f.fractionBits + r := by omega
  have hmagnitude : (ofRatio f negative n d).magnitude = f.roundMagnitude n d :=
    magnitude_ofMagnitude negative hlt
  have hx : (ofRatio f negative n d).isFinite = true := by
    rw [isFinite, hmagnitude]
    exact decide_eq_true hfinite
  have hrat : (ofRatio f negative n d).toRat = withSign negative (r * f.unit k) := by
    rw [toRat_eq_withSign hx, hmagnitude, hmin, hr.value_eq, ofRatio,
      negative_ofMagnitude negative hlt]
  -- a number is compared with the ratio as its opposite is with the opposite ratio
  have hnearest : ∀ y : Floating f, y.isFinite = true → ∃ w, y.toRat = withSign negative w ∧
      |w| = f.value y.magnitude := fun y hy =>
    ⟨withSign negative y.toRat, (withSign_withSign negative _).symm, by
      rw [abs_withSign, abs_toRat hy]⟩
  refine ⟨hx, fun y hy => ?_, fun y hy heq hne => ?_⟩ <;> obtain ⟨w, hw, habs⟩ := hnearest y hy
  · rw [hrat, hw, abs_withSign_sub, abs_withSign_sub]
    exact (hr.nearest_value habs).1
  · rw [hrat, hw, abs_withSign_sub, abs_withSign_sub] at heq
    rw [hrat, hw] at hne
    have heven := (hr.nearest_value habs).2 heq fun h => hne (by rw [h])
    have hpow : 2 ^ f.fractionBits % 2 = 0 :=
      Nat.mod_eq_zero_of_dvd (dvd_pow_self 2 hbits.ne')
    rw [hmagnitude, hmin, Nat.add_mod, Nat.mul_mod, hpow, heven]
    rfl

end Floating

end SqlRecord
