import SqlRecord.Proofs.Floating.Nearest

/-!
# Shortest decimals

A decimal with few enough digits for a format is the shortest one of the number that it rounds to:
the number is so close to it that no other decimal with as few digits is as close. Main statement:
`Floating.toRat_shortest`.
-/

namespace SqlRecord

/-! ### Counts of digits -/

namespace Digits

theorem lt_pow_length (n : Nat) : n < 10 ^ (ofNat n).length := by
  have hlength : 0 < (ofNat n).length := List.length_pos_iff.mpr Nat.toDigits_ne_nil
  exact (Nat.length_toDigits_le_iff (by decide) hlength).mp le_rfl

/-- A number with `k + 1` digits is at least the power of ten of `k` and below the next. -/
theorem exists_length {n : Nat} (hn : 0 < n) :
    ∃ k, (ofNat n).length = k + 1 ∧ 10 ^ k ≤ n ∧ n < 10 ^ (k + 1) := by
  have hlength : 0 < (ofNat n).length := List.length_pos_iff.mpr Nat.toDigits_ne_nil
  obtain ⟨k, hk⟩ := Nat.exists_eq_add_one_of_ne_zero hlength.ne'
  refine ⟨k, hk, ?_, hk ▸ lt_pow_length n⟩
  rcases Nat.eq_zero_or_pos k with rfl | hpos
  · exact hn
  · by_contra hlt
    have := length_ofNat_le hpos (Nat.not_le.mp hlt)
    omega

end Digits

/-! ### Decimals -/

namespace Scientific

/-- The number that a decimal denotes. -/
def toRat (d : Scientific) : ℚ := d.digits * 10 ^ d.exponent

theorem toRat_eq_div (d : Scientific) :
    ((d.digits * 10 ^ d.exponent.toNat : Nat) : ℚ) / ((10 ^ (-d.exponent).toNat : Nat) : ℚ) =
      d.toRat := by
  rw [toRat, zpow_eq_div (by norm_num)]
  push_cast
  ring

/-- Dropping zeros at the end keeps the value. -/
theorem toRat_stripFuel (fuel : Nat) (d : Scientific) : (d.stripFuel fuel).toRat = d.toRat := by
  induction fuel generalizing d with
  | zero => rfl
  | succ fuel ih =>
    rw [stripFuel]
    split_ifs with h
    · have hdigits : d.digits = d.digits / 10 * 10 :=
        (Nat.div_mul_cancel (Nat.dvd_of_mod_eq_zero h.1)).symm
      rw [ih, toRat, toRat, zpow_add_one₀ (by norm_num)]
      nth_rewrite 2 [hdigits]
      push_cast
      ring
    · rfl

/-- With as much fuel as digits no trailing zero is left. -/
theorem digits_stripFuel {fuel : Nat} {d : Scientific} (hpos : d.digits ≠ 0)
    (hfuel : d.digits < 10 ^ fuel) : (d.stripFuel fuel).digits % 10 ≠ 0 := by
  induction fuel generalizing d with
  | zero => omega
  | succ fuel ih =>
    rw [stripFuel]
    split_ifs with h
    · refine ih (d := ⟨d.digits / 10, d.exponent + 1⟩) ?_ ?_
      · dsimp only
        omega
      · rw [Nat.pow_succ] at hfuel
        dsimp only
        omega
    · omega

theorem toRat_strip (d : Scientific) : d.strip.toRat = d.toRat := d.toRat_stripFuel _

/-- A decimal that was stripped does not end in zero. -/
theorem digits_strip {d : Scientific} (hpos : d.digits ≠ 0) : d.strip.digits % 10 ≠ 0 := by
  exact digits_stripFuel hpos (Digits.lt_pow_length d.digits)

end Scientific

/-! ### The place of the first digit -/

/-- At one or above, the whole part of a ratio has the digits. -/
theorem floorLog10_spec_of_le {n d : Nat} (hd : 0 < d) (hle : d ≤ n) :
    (10 : ℚ) ^ floorLog10 n d ≤ n / d ∧ (n : ℚ) / d < 10 ^ (floorLog10 n d + 1) := by
  have hdq : (0 : ℚ) < d := Nat.cast_pos.mpr hd
  obtain ⟨k, hk, hlow, hhigh⟩ := Digits.exists_length (Nat.div_pos hle hd)
  rw [Nat.le_div_iff_mul_le hd] at hlow
  rw [Nat.div_lt_iff_lt_mul hd] at hhigh
  rw [floorLog10, if_pos hle, hk, Nat.cast_succ, add_sub_cancel_right, le_div_iff₀ hdq,
    div_lt_iff₀ hdq, zpow_natCast, ← Nat.cast_succ, zpow_natCast]
  exact ⟨by exact_mod_cast hlow, by exact_mod_cast hhigh⟩

/-- Below one, the inverse has them: the first digit is in the place after the point that is their
count, and one place earlier for a power of ten. -/
theorem floorLog10_spec_of_lt {n d : Nat} (hn : 0 < n) (hlt : n < d) :
    (10 : ℚ) ^ floorLog10 n d ≤ n / d ∧ (n : ℚ) / d < 10 ^ (floorLog10 n d + 1) := by
  have hnq : (0 : ℚ) < n := Nat.cast_pos.mpr hn
  have hdq : (0 : ℚ) < d := Nat.cast_pos.mpr (hn.trans hlt)
  have hplace : ∀ j : Nat, (10 : ℚ) ^ (-(j : Int)) ≤ n / d ↔ d ≤ 10 ^ j * n := by
    intro j
    rw [le_div_iff₀ hdq, zpow_neg, zpow_natCast, inv_mul_le_iff₀ (by positivity)]
    exact_mod_cast Iff.rfl
  obtain ⟨k, hk, hlow, hhigh⟩ := Digits.exists_length (Nat.div_pos hlt.le hn)
  rw [floorLog10, if_neg hlt.not_ge]
  dsimp only
  rw [hk, Nat.succ_sub_one]
  split_ifs with hpower
  · have hd : d = 10 ^ k * n := by
      rw [← hpower.2, Nat.div_mul_cancel (Nat.dvd_of_mod_eq_zero hpower.1)]
    have heq : (n : ℚ) / d = 10 ^ (-(k : Int)) := by
      rw [hd, zpow_neg, zpow_natCast]
      push_cast
      field_simp
    rw [heq]
    exact ⟨le_rfl, zpow_lt_zpow_right₀ (by norm_num) (by omega)⟩
  · rw [Nat.div_lt_iff_lt_mul hn] at hhigh
    have hne : 10 ^ k * n < d := by
      refine lt_of_le_of_ne ((Nat.le_div_iff_mul_le hn).mp hlow) fun heq => hpower ⟨?_, ?_⟩
      · rw [← heq, Nat.mul_mod_left]
      · rw [← heq, Nat.mul_div_cancel _ hn]
    refine ⟨(hplace (k + 1)).mpr hhigh.le, not_le.mp fun h => ?_⟩
    have hexponent : -((k + 1 : Nat) : Int) + 1 = -(k : Int) := by omega
    rw [hexponent, hplace] at h
    omega

/-- `floorLog10` is the place of the first digit of the ratio. -/
theorem floorLog10_spec {n d : Nat} (hn : 0 < n) (hd : 0 < d) :
    (10 : ℚ) ^ floorLog10 n d ≤ n / d ∧ (n : ℚ) / d < 10 ^ (floorLog10 n d + 1) := by
  rcases le_or_gt d n with hle | hlt
  · exact floorLog10_spec_of_le hd hle
  · exact floorLog10_spec_of_lt hn hlt

/-! ### The shortest decimal -/

namespace Floating

variable {f : Format}

/-- A ratio that rounds to a number with a full significand is close to it. -/
theorem abs_value_sub_of_roundMagnitude {n d : Nat} (hd : 0 < d)
    (hfull : 2 ^ f.fractionBits ≤ f.roundMagnitude n d)
    (hfinite : f.roundMagnitude n d < f.infinity) :
    |f.value (f.roundMagnitude n d) - n / d| * 2 ^ (f.fractionBits + 1) ≤
      f.value (f.roundMagnitude n d) := by
  have hpow : 0 < 2 ^ f.fractionBits := Nat.pow_pos (by decide)
  have hn : 0 < n := by
    refine Nat.pos_of_ne_zero fun hzero => ?_
    rw [hzero, f.roundMagnitude_zero] at hfull
    omega
  obtain ⟨k, r, hround, hr⟩ := f.exists_roundsTo hn hd
  have hmin : f.roundMagnitude n d = k * 2 ^ f.fractionBits + r := by omega
  have hsignificand : (2 : ℚ) ^ f.fractionBits ≤ r := by
    have : 2 ^ f.fractionBits ≤ r := by
      rcases hr.full with rfl | hle
      · omega
      · exact hle
    exact_mod_cast this
  rw [hmin, hr.value_eq, pow_succ]
  calc |r * f.unit k - n / d| * (2 ^ f.fractionBits * 2)
      ≤ f.unit k / 2 * (2 ^ f.fractionBits * 2) :=
        mul_le_mul_of_nonneg_right hr.half (by positivity)
    _ = 2 ^ f.fractionBits * f.unit k := by ring
    _ ≤ r * f.unit k := mul_le_mul_of_nonneg_right hsignificand (f.unit_pos k).le

/-- The decimals on a grid are tried next to the number only, and one that is that close and rounds
to the number is found. -/
theorem isSome_onGrid? {m n d j : Nat} {exponent : Int} (hd : 0 < d)
    (hclose : |(n : ℚ) / d - j * 10 ^ exponent| < 10 ^ exponent)
    (hback : readsBack f m ⟨j, exponent⟩ = true) :
    (onGrid? f m n d exponent).isSome = true := by
  generalize ha : n * 10 ^ (-exponent).toNat = a
  generalize hb : d * 10 ^ exponent.toNat = b
  have hbpos : 0 < b := hb ▸ Nat.mul_pos hd (Nat.pow_pos (by decide))
  have hbq : (0 : ℚ) < b := Nat.cast_pos.mpr hbpos
  have hgrid : (0 : ℚ) < 10 ^ exponent := by positivity
  have hscaled : (n : ℚ) / d = a / b * 10 ^ exponent := by
    rw [← ha, ← hb, zpow_eq_div (by norm_num) exponent]
    push_cast
    field_simp
  -- counted in the grid, the number is less than one away
  rw [hscaled, ← sub_mul, abs_mul, abs_of_pos hgrid, mul_lt_iff_lt_one_left hgrid, abs_lt,
    lt_sub_iff_add_lt, sub_lt_iff_lt_add, lt_div_iff₀ hbq, div_lt_iff₀ hbq] at hclose
  have hlow : j * b < a + b := by
    have : (j : ℚ) * b < a + b := by linarith
    exact_mod_cast this
  have hhigh : a < (j + 1) * b := by
    have : (a : ℚ) < (j + 1) * b := by linarith
    exact_mod_cast this
  have hnext : a < b * (a / b + 1) := Nat.lt_mul_div_succ a hbpos
  have hneighbour : a / b = j ∨ a / b + 1 = j := by
    have h₁ : a / b < j + 1 := (Nat.div_lt_iff_lt_mul hbpos).mpr hhigh
    have h₂ : j < a / b + 2 := by
      refine Nat.lt_of_mul_lt_mul_right (a := b) ?_
      rw [Nat.add_mul]
      rw [Nat.mul_add, Nat.mul_comm b] at hnext
      omega
    omega
  rw [onGrid?, ha, hb]
  rcases hneighbour with h | h <;> rw [h, hback]
  · cases readsBack f m ⟨j + 1, exponent⟩ <;> rfl
  · cases readsBack f m ⟨a / b, exponent⟩ <;> rfl

/-- A decimal that is found on a grid has the grid's exponent. -/
theorem exponent_onGrid? {m n d : Nat} {exponent : Int} {s : Scientific}
    (h : onGrid? f m n d exponent = some s) : s.exponent = exponent := by
  rw [onGrid?] at h
  split at h
  next =>
    split_ifs at h
    · exact Option.some.inj h ▸ rfl
    · exact Option.some.inj h ▸ rfl
  next => exact Option.some.inj h ▸ rfl
  next => exact Option.some.inj h ▸ rfl
  next => cases h

/-- What is found on a grid is on the finer grids as well. -/
theorem toRat_onGrid? {m n d c k : Nat} {top : Int} {s : Scientific} (hk : k ≤ c)
    (h : onGrid? f m n d (top - k) = some s) :
    s.toRat = ((s.digits * 10 ^ (c - k) : Nat) : ℚ) * 10 ^ (top - c) := by
  have hexponent : s.exponent = ((c - k : Nat) : Int) + (top - c) := by
    rw [exponent_onGrid? h, Nat.cast_sub hk]
    ring
  rw [Scientific.toRat, hexponent, zpow_add₀ (by norm_num), zpow_natCast]
  push_cast
  ring

/-- Reading back depends on the number that a decimal denotes. -/
theorem readsBack_of_toRat_eq {m : Nat} {d e : Scientific} (h : d.toRat = e.toRat) :
    readsBack f m d = readsBack f m e := by
  have hpow : ∀ k : Nat, ((10 ^ k : Nat) : ℚ) ≠ 0 := fun k => by positivity
  rw [← d.toRat_eq_div, ← e.toRat_eq_div, div_eq_div_iff (hpow _) (hpow _)] at h
  exact readsBack_congr (by exact_mod_cast h)

/-- A search that succeeds at a place finds what is there or before. -/
theorem exists_findSome?_range {α : Type} {g : Nat → Option α} {c n : Nat} (hc : c < n)
    (h : (g c).isSome = true) :
    ∃ k a, k ≤ c ∧ g k = some a ∧ (List.range n).findSome? g = some a := by
  have hsome : ((List.range (c + 1)).findSome? g).isSome = true :=
    List.findSome?_isSome_iff.mpr ⟨c, List.mem_range.mpr c.lt_succ_self, h⟩
  obtain ⟨a, ha⟩ := Option.isSome_iff_exists.mp hsome
  obtain ⟨k, hk, hg⟩ := List.exists_of_findSome?_eq_some ha
  obtain ⟨rest, rfl⟩ := Nat.exists_eq_add_of_lt hc
  refine ⟨k, a, Nat.lt_succ_iff.mp (List.mem_range.mp hk), hg, ?_⟩
  rw [Nat.add_right_comm, List.range_add, List.findSome?_append, ha, Option.some_or]

/-- A decimal with few digits that is as close to a number as rounding allows is on the grid of its
first digits. -/
theorem exists_multiple {v : ℚ} {c : Nat} {exponent : Int} {d : Scientific}
    (hdigits : d.digits < 10 ^ (c + 1)) (hlow : (10 : ℚ) ^ (exponent + c) ≤ v)
    (hclose : |v - d.toRat| * (8 * 10 ^ (c + 1)) ≤ v) :
    ∃ j : Nat, d.toRat = j * 10 ^ exponent := by
  rcases le_or_gt exponent d.exponent with hle | hlt
  · obtain ⟨e, he⟩ := Int.exists_add_of_le hle
    refine ⟨d.digits * 10 ^ e, ?_⟩
    rw [Scientific.toRat, he, zpow_add₀ (by norm_num), zpow_natCast]
    push_cast
    ring
  · -- on a finer grid it would be too far below the number
    exfalso
    have hunit : (0 : ℚ) < 10 ^ d.exponent := by positivity
    have hcount : (1 : ℚ) ≤ 10 ^ (c + 1) := one_le_pow₀ (by norm_num)
    have hnumber : (10 : ℚ) ^ (c + 1) * 10 ^ d.exponent ≤ v := by
      refine le_trans ?_ hlow
      rw [← zpow_natCast, ← zpow_add₀ (by norm_num)]
      exact zpow_le_zpow_right₀ (by norm_num) (by push_cast; omega)
    have hdecimal : d.toRat ≤ 10 ^ (c + 1) * 10 ^ d.exponent - 10 ^ d.exponent := by
      have : (d.digits : ℚ) + 1 ≤ 10 ^ (c + 1) := by exact_mod_cast hdigits
      have := mul_le_mul_of_nonneg_right this hunit.le
      rw [Scientific.toRat]
      linarith
    have habs := le_abs_self (v - d.toRat)
    generalize (10 : ℚ) ^ d.exponent = u at *
    generalize (10 : ℚ) ^ (c + 1) = t at *
    have hdistance : (v - d.toRat) * (8 * t) ≤ v :=
      (mul_le_mul_of_nonneg_right habs (by positivity)).trans hclose
    have hscaled := mul_le_mul_of_nonneg_right hdecimal (by positivity : 0 ≤ 8 * t)
    have hcounted := mul_le_mul_of_nonneg_right hnumber (by linarith : 0 ≤ 8 * t - 1)
    have hpos : 0 < t * u := by positivity
    linarith

/-- On that grid, such a decimal is next to the number. -/
theorem abs_sub_lt_of_close {v q : ℚ} {c : Nat} {top : Int} (hhigh : v < 10 ^ (top + 1))
    (hclose : |v - q| * (8 * 10 ^ (c + 1)) ≤ v) : |v - q| * 8 < 10 ^ (top - c) := by
  have hbound : v < 10 ^ (top - c) * 10 ^ (c + 1) := by
    refine hhigh.trans_eq ?_
    rw [← zpow_natCast, ← zpow_add₀ (by norm_num)]
    congr 1
    push_cast
    ring
  refine lt_of_mul_lt_mul_right ?_ (by positivity : (0 : ℚ) ≤ 10 ^ (c + 1))
  rw [mul_assoc]
  exact hclose.trans_lt hbound

/-- Two multiples of a unit that are both close to a number are one. -/
theorem eq_of_close {v u : ℚ} {i j : Nat} (hi : |v - i * u| * 8 < u) (hj : |v - j * u| * 8 < u) :
    i = j := by
  have hu : 0 < u := lt_of_le_of_lt (by positivity) hi
  by_contra hne
  have hapart := le_abs_sub_mul hu (i := i) (j := j) (by omega)
  have htriangle := abs_sub_le (i * u) v (j * u)
  rw [abs_sub_comm (i * u) v] at htriangle
  push_cast at hapart
  linarith

/-- A decimal that rounds to a number with a full significand is close to it. -/
theorem abs_value_sub_toRat {m c : Nat} (hfull : 2 ^ f.fractionBits ≤ m) (hfinite : m < f.infinity)
    (hbits : 8 * 10 ^ (c + 1) ≤ 2 ^ (f.fractionBits + 1)) {d : Scientific}
    (hback : readsBack f m d = true) :
    |f.value m - d.toRat| * (8 * 10 ^ (c + 1)) ≤ f.value m := by
  obtain rfl := beq_iff_eq.mp hback
  have hdistance := abs_value_sub_of_roundMagnitude (Nat.pow_pos (by decide)) hfull hfinite
  rw [d.toRat_eq_div] at hdistance
  refine le_trans (mul_le_mul_of_nonneg_left ?_ (abs_nonneg _)) hdistance
  exact_mod_cast hbits

/-- A number other than zero has a significand other than zero. -/
theorem significand_ne_zero {x : Floating f} {negative : Bool} {significand : Nat} {exponent : Int}
    (h : x.datum = .finite negative significand exponent) (hne : x.magnitude ≠ 0) :
    significand ≠ 0 := by
  rintro rfl
  have hmagnitude := roundMagnitude_of_datum h
  rw [Nat.zero_mul, f.roundMagnitude_zero] at hmagnitude
  exact hne hmagnitude.symm

/-- The ratio of which a number's shortest decimal is made. -/
theorem value_eq_ratio {x : Floating f} {negative : Bool} {significand : Nat} {exponent : Int}
    (h : x.datum = .finite negative significand exponent) :
    f.value x.magnitude =
      ((significand * 2 ^ exponent.toNat : Nat) : ℚ) / ((2 ^ (-exponent).toNat : Nat) : ℚ) := by
  rw [value_magnitude h, zpow_eq_div two_ne_zero exponent]
  push_cast
  ring

/-- **A decimal with few enough digits is the shortest one of the number it rounds to.** -/
theorem toRat_shortest {x : Floating f} {negative : Bool} {significand : Nat} {exponent : Int}
    (hx : x.isFinite = true) (h : x.datum = .finite negative significand exponent)
    (hfull : 2 ^ f.fractionBits ≤ x.magnitude) {c : Nat} (hc : c < 17)
    (hbits : 8 * 10 ^ (c + 1) ≤ 2 ^ (f.fractionBits + 1)) {d : Scientific}
    (hdigits : d.digits < 10 ^ (c + 1)) (hback : readsBack f x.magnitude d = true) :
    (shortest f x.magnitude significand exponent).toRat = d.toRat := by
  have hpow : ∀ b k : Nat, 0 < b → 0 < b ^ k := fun b k => Nat.pow_pos
  have hsignificand : significand ≠ 0 :=
    significand_ne_zero h ((hpow 2 f.fractionBits (by decide)).trans_le hfull).ne'
  have hvalue := value_eq_ratio h
  have hclose := fun {s : Scientific} (hs : readsBack f x.magnitude s = true) =>
    abs_value_sub_toRat hfull (of_decide_eq_true hx) hbits hs
  rw [shortest]
  generalize hn : significand * 2 ^ exponent.toNat = n at hvalue
  generalize hb : 2 ^ (-exponent).toNat = b at hvalue
  have hnpos : 0 < n := hn ▸ Nat.mul_pos (Nat.pos_of_ne_zero hsignificand) (hpow _ _ (by decide))
  have hbpos : 0 < b := hb ▸ hpow _ _ (by decide)
  obtain ⟨hlow, hhigh⟩ := floorLog10_spec hnpos hbpos
  rw [hvalue] at hclose
  generalize floorLog10 n b = top at hlow hhigh ⊢
  -- on the grid of the digits that count, what rounds to the number is next to it
  have hnear := fun {s : Scientific} (hs : readsBack f x.magnitude s = true) =>
    abs_sub_lt_of_close hhigh (hclose hs)
  -- the decimal is on this grid, where it is found unless a shorter one is
  obtain ⟨j, hj⟩ : ∃ j : Nat, d.toRat = j * 10 ^ (top - c) :=
    exists_multiple hdigits (by rwa [sub_add_cancel]) (hclose hback)
  have hgrid : readsBack f x.magnitude ⟨j, top - c⟩ = true :=
    (readsBack_of_toRat_eq (d := ⟨j, top - c⟩) (e := d) hj.symm).trans hback
  have hdnear := hnear hback
  rw [hj] at hdnear
  have hsome := isSome_onGrid? hbpos
    ((le_mul_of_one_le_right (abs_nonneg _) (by norm_num)).trans_lt hdnear) hgrid
  obtain ⟨k, s, hk, hs, hfound⟩ := exists_findSome?_range
    (g := fun (k : Nat) => onGrid? f x.magnitude n b (top - k)) hc hsome
  -- and a shorter one is on it as well, so that both are the same
  have hmultiple := toRat_onGrid? hk hs
  have hsnear := hnear (readsBack_onGrid? hs)
  rw [hmultiple] at hsnear
  rw [hfound, Option.getD_some, Scientific.toRat_strip, hmultiple, hj, eq_of_close hsnear hdnear]

/-- The shortest decimal does not end in a zero. -/
theorem digits_shortest {m significand : Nat} {exponent : Int}
    (h : (shortest f m significand exponent).toRat ≠ 0) :
    (shortest f m significand exponent).digits % 10 ≠ 0 := by
  rw [shortest, Scientific.toRat_strip] at h
  rw [shortest]
  refine Scientific.digits_strip fun hzero => h ?_
  rw [Scientific.toRat, hzero, Nat.cast_zero, zero_mul]

end Floating

end SqlRecord
