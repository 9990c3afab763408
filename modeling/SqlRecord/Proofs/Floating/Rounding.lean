import SqlRecord.Floating.Basic
import Mathlib

/-!
# Rounding of ratios

Rounding depends on a ratio alone, not on the two numbers that write it (`roundMagnitude_congr`),
and what a finite pattern denotes rounds to that pattern (`roundMagnitude_of_datum`).
-/

namespace SqlRecord

/-- A power with an integer exponent as a ratio of powers. -/
theorem zpow_eq_div {b : ℚ} (hb : b ≠ 0) (k : Int) : b ^ k = b ^ k.toNat / b ^ (-k).toNat := by
  rw [← zpow_natCast, ← zpow_natCast, ← zpow_sub₀ hb]
  congr 1
  omega

/-- `floorLog2` is the integer logarithm of the ratio. -/
theorem floorLog2_eq {n d : Nat} (hn : 0 < n) (hd : 0 < d) :
    floorLog2 n d = Int.log 2 ((n : ℚ) / d) := by
  have hdq : (0 : ℚ) < d := Nat.cast_pos.mpr hd
  have hratio : (0 : ℚ) < (n : ℚ) / d := div_pos (Nat.cast_pos.mpr hn) hdq
  have htwo : (1 : Nat) < 2 := by decide
  have hnlow : (2 : ℚ) ^ n.log2 ≤ n := by exact_mod_cast Nat.log2_self_le hn.ne'
  have hnhigh : (n : ℚ) < 2 ^ (n.log2 + 1) := by exact_mod_cast Nat.lt_log2_self
  have hdlow : (2 : ℚ) ^ d.log2 ≤ d := by exact_mod_cast Nat.log2_self_le hd.ne'
  have hdhigh : (d : ℚ) < 2 ^ (d.log2 + 1) := by exact_mod_cast Nat.lt_log2_self
  have hpow : ∀ m : Nat, (0 : ℚ) < 2 ^ m := fun m => by positivity
  -- the difference of the logarithms is one too great at most
  have hlow : (2 : ℚ) ^ ((n.log2 : Int) - d.log2 - 1) ≤ n / d := by
    rw [sub_sub, zpow_sub₀ (by norm_num), zpow_natCast,
      show (d.log2 : Int) + 1 = (d.log2 + 1 : Nat) by push_cast; rfl, zpow_natCast]
    exact div_le_div₀ (by positivity) hnlow hdq hdhigh.le
  have hhigh : (n : ℚ) / d < 2 ^ ((n.log2 : Int) - d.log2 + 1) := by
    rw [show (n.log2 : Int) - d.log2 + 1 = ((n.log2 + 1 : Nat) : Int) - d.log2 by push_cast; ring,
      zpow_sub₀ (by norm_num), zpow_natCast, zpow_natCast]
    exact div_lt_div₀ hnhigh hdlow (by positivity) (hpow _)
  -- which of the two it is, is tested by cross-multiplication
  have htest : ∀ k : Int, n * 2 ^ (-k).toNat < d * 2 ^ k.toNat ↔ (n : ℚ) / d < 2 ^ k := by
    intro k
    rw [zpow_eq_div (by norm_num), div_lt_div_iff₀ hdq (hpow _), mul_comm _ (d : ℚ)]
    exact_mod_cast Iff.rfl
  rw [floorLog2]
  have h₁ := (Int.zpow_le_iff_le_log htwo hratio).mp (by rwa [Nat.cast_ofNat])
  have h₂ := (Int.lt_zpow_iff_log_lt htwo hratio).mp (by rwa [Nat.cast_ofNat])
  split_ifs with h
  · have := (Int.lt_zpow_iff_log_lt htwo hratio).mp (by rw [Nat.cast_ofNat]; exact (htest _).mp h)
    omega
  · have := (Int.zpow_le_iff_le_log htwo hratio).mp
      (by rw [Nat.cast_ofNat]; exact not_lt.mp (mt (htest _).mpr h))
    omega

/-- The exponent of a ratio depends on its value only. -/
theorem floorLog2_congr {n d n' d' : Nat} (hn : 0 < n) (hd : 0 < d) (hd' : 0 < d')
    (h : n * d' = n' * d) : floorLog2 n d = floorLog2 n' d' := by
  have hn' : 0 < n' := by
    refine Nat.pos_of_ne_zero ?_
    rintro rfl
    rw [Nat.zero_mul] at h
    exact (Nat.mul_pos hn hd').ne' h
  have hratio : (n : ℚ) / d = n' / d' := by
    rw [div_eq_div_iff (Nat.cast_ne_zero.mpr hd.ne') (Nat.cast_ne_zero.mpr hd'.ne')]
    exact_mod_cast h
  rw [floorLog2_eq hn hd, floorLog2_eq hn' hd', hratio]

/-! ### Division -/

/-- A common factor does not change the rounded ratio. -/
theorem divNearestEven_mul_left {k : Nat} (hk : 0 < k) (n d : Nat) :
    divNearestEven (k * n) (k * d) = divNearestEven n d := by
  have hleft : 2 * (k * (n % d)) < k * d ↔ 2 * (n % d) < d := by
    rw [Nat.mul_left_comm, Nat.mul_lt_mul_left hk]
  have hright : k * d < 2 * (k * (n % d)) ↔ d < 2 * (n % d) := by
    rw [Nat.mul_left_comm 2 k, Nat.mul_lt_mul_left hk]
  rw [divNearestEven, divNearestEven, Nat.mul_div_mul_left n d hk, Nat.mul_mod_mul_left]
  simp only [hleft, hright]

/-- The rounded ratio depends on the value of the ratio only. -/
theorem divNearestEven_congr {n d n' d' : Nat} (hd : 0 < d) (hd' : 0 < d')
    (h : n * d' = n' * d) : divNearestEven n d = divNearestEven n' d' := by
  rw [← divNearestEven_mul_left hd' n d, ← divNearestEven_mul_left hd n' d', Nat.mul_comm d' n, h,
    Nat.mul_comm d' d, Nat.mul_comm d n']

theorem divNearestEven_mul_right {d : Nat} (hd : 0 < d) (m : Nat) :
    divNearestEven (m * d) d = m := by
  rw [divNearestEven, Nat.mul_div_cancel m hd, Nat.mul_mod_left, if_pos (by simpa using hd)]

theorem divNearestEven_of_lt {n d : Nat} (h : 2 * n < d) : divNearestEven n d = 0 := by
  have hlt : n < d := by omega
  rw [divNearestEven, Nat.div_eq_of_lt hlt, Nat.mod_eq_of_lt hlt, if_pos h]

/-! ### Magnitudes -/

namespace Format

variable (f : Format)

/-- **Rounding depends on the ratio alone.** -/
theorem roundMagnitude_congr {n d n' d' : Nat} (hd : 0 < d) (hd' : 0 < d')
    (h : n * d' = n' * d) : f.roundMagnitude n d = f.roundMagnitude n' d' := by
  by_cases hn : n = 0
  · have hn' : n' = 0 := by
      rw [hn, Nat.zero_mul] at h
      exact (Nat.mul_eq_zero.mp h.symm).resolve_right hd.ne'
    rw [hn, hn', roundMagnitude, roundMagnitude, if_pos rfl, if_pos rfl]
  · have hn' : n' ≠ 0 := by
      rintro rfl
      rw [Nat.zero_mul] at h
      exact hn ((Nat.mul_eq_zero.mp h).resolve_right hd'.ne')
    have hscaled : ∀ a b : Nat, n * a * (d' * b) = n' * a * (d * b) := fun a b => by
      rw [Nat.mul_mul_mul_comm, h, Nat.mul_mul_mul_comm]
    rw [roundMagnitude, roundMagnitude, if_neg hn, if_neg hn',
      floorLog2_congr (Nat.pos_of_ne_zero hn) hd hd' h]
    dsimp only
    rw [divNearestEven_congr (Nat.mul_pos hd (Nat.pow_pos (by decide)))
      (Nat.mul_pos hd' (Nat.pow_pos (by decide))) (hscaled _ _)]

theorem roundMagnitude_zero (d : Nat) : f.roundMagnitude 0 d = 0 := by
  rw [roundMagnitude, if_pos rfl]

/-- A ratio below half of the least number rounds to zero. -/
theorem roundMagnitude_of_tiny {n d : Nat} (h : 2 * (n * 2 ^ (-f.leastExponent).toNat) < d)
    (hleast : f.leastExponent ≤ 0) : f.roundMagnitude n d = 0 := by
  by_cases hn : n = 0
  · rw [hn, roundMagnitude_zero]
  · have hd : 0 < d := by omega
    have hdq : (0 : ℚ) < d := Nat.cast_pos.mpr hd
    have hratio : (0 : ℚ) < (n : ℚ) / d :=
      div_pos (Nat.cast_pos.mpr (Nat.pos_of_ne_zero hn)) hdq
    -- so small a ratio is rounded at the least exponent, where it is less than a half
    have hlog : floorLog2 n d < f.leastExponent := by
      rw [floorLog2_eq (Nat.pos_of_ne_zero hn) hd,
        ← Int.lt_zpow_iff_log_lt (by decide : (1 : Nat) < 2) hratio, Nat.cast_ofNat,
        zpow_eq_div (by norm_num), Int.toNat_of_nonpos hleast, pow_zero,
        div_lt_div_iff₀ hdq (by positivity), one_mul]
      have : n * 2 ^ (-f.leastExponent).toNat < d := by omega
      exact_mod_cast this
    have hq : max f.leastExponent (floorLog2 n d - f.fractionBits) = f.leastExponent := by omega
    rw [roundMagnitude, if_neg hn]
    dsimp only
    rw [hq, Int.toNat_of_nonpos hleast, Nat.pow_zero, Nat.mul_one, divNearestEven_of_lt h,
      Int.sub_self]
    simp

/-- The magnitude of a number in the format: the exponent is the least one, or the significand has
its full width. -/
theorem roundMagnitude_exact {significand : Nat} {exponent : Int} (hpos : significand ≠ 0)
    (hwidth : significand < 2 ^ (f.fractionBits + 1)) (hleast : f.leastExponent ≤ exponent)
    (hfull : f.leastExponent < exponent → 2 ^ f.fractionBits ≤ significand) :
    f.roundMagnitude (significand * 2 ^ exponent.toNat) (2 ^ (-exponent).toNat) =
      min f.infinity ((exponent - f.leastExponent).toNat * 2 ^ f.fractionBits + significand) := by
  have hpow : ∀ k : Nat, 0 < 2 ^ k := fun k => Nat.pow_pos (by decide)
  have hn : 0 < significand * 2 ^ exponent.toNat :=
    Nat.mul_pos (Nat.pos_of_ne_zero hpos) (hpow _)
  have hvalue : ((significand * 2 ^ exponent.toNat : Nat) : ℚ) / ((2 ^ (-exponent).toNat : Nat) : ℚ)
      = significand * 2 ^ exponent := by
    rw [zpow_eq_div (by norm_num : (2 : ℚ) ≠ 0) exponent]
    push_cast
    ring
  have hsig : (0 : ℚ) < significand * 2 ^ exponent := by
    have : (0 : ℚ) < significand := Nat.cast_pos.mpr (Nat.pos_of_ne_zero hpos)
    positivity
  have hhigh : floorLog2 (significand * 2 ^ exponent.toNat) (2 ^ (-exponent).toNat) <
      f.fractionBits + 1 + exponent := by
    rw [floorLog2_eq hn (hpow _), hvalue,
      ← Int.lt_zpow_iff_log_lt (by decide : (1 : Nat) < 2) hsig, Nat.cast_ofNat,
      zpow_add₀ (by norm_num)]
    refine mul_lt_mul_of_pos_right ?_ (by positivity)
    exact_mod_cast hwidth
  -- the number is rounded at its own exponent
  have hq : max f.leastExponent (floorLog2 (significand * 2 ^ exponent.toNat)
      (2 ^ (-exponent).toNat) - f.fractionBits) = exponent := by
    rcases hleast.lt_or_eq with hlt | heq
    · have hlow : (f.fractionBits : Int) + exponent ≤
          floorLog2 (significand * 2 ^ exponent.toNat) (2 ^ (-exponent).toNat) := by
        rw [floorLog2_eq hn (hpow _), hvalue,
          ← Int.zpow_le_iff_le_log (by decide : (1 : Nat) < 2) hsig, Nat.cast_ofNat,
          zpow_add₀ (by norm_num), zpow_natCast]
        refine mul_le_mul_of_nonneg_right ?_ (by positivity)
        exact_mod_cast hfull hlt
      omega
    · omega
  -- so that nothing is rounded away
  have hdiv : divNearestEven (significand * 2 ^ exponent.toNat * 2 ^ (-exponent).toNat)
      (2 ^ (-exponent).toNat * 2 ^ exponent.toNat) = significand := by
    rw [Nat.mul_assoc, Nat.mul_comm (2 ^ exponent.toNat)]
    exact divNearestEven_mul_right (Nat.mul_pos (hpow _) (hpow _)) significand
  rw [roundMagnitude, if_neg hn.ne']
  dsimp only
  rw [hq, hdiv]

end Format

namespace Floating

variable {f : Format}

/-- **What a finite pattern denotes rounds to that pattern.** -/
theorem roundMagnitude_of_datum {x : Floating f} {negative : Bool} {significand : Nat}
    {exponent : Int} (h : x.datum = .finite negative significand exponent) :
    f.roundMagnitude (significand * 2 ^ exponent.toNat) (2 ^ (-exponent).toNat) = x.magnitude := by
  have hsplit := Nat.div_add_mod x.magnitude (2 ^ f.fractionBits)
  have hfraction : x.magnitude % 2 ^ f.fractionBits < 2 ^ f.fractionBits :=
    Nat.mod_lt _ (Nat.pow_pos (by decide))
  have hpow : 2 ^ (f.fractionBits + 1) = 2 ^ f.fractionBits + 2 ^ f.fractionBits := by
    rw [Nat.pow_succ, Nat.mul_two]
  rw [datum] at h
  split_ifs at h with hnan hinf hfield
  all_goals
    obtain ⟨-, rfl, rfl⟩ := Datum.finite.inj h
    have hfinite : x.magnitude < f.infinity := by omega
  -- at the least exponent the significand is the fraction
  · rw [hfield, Nat.mul_zero, Nat.zero_add] at hsplit
    rw [hsplit]
    by_cases hzero : x.magnitude = 0
    · rw [hzero, Nat.zero_mul, f.roundMagnitude_zero]
    · rw [f.roundMagnitude_exact hzero (by omega) le_rfl fun h => absurd h (lt_irrefl _),
        Int.sub_self]
      simpa using hfinite.le
  -- above it, the fraction with a leading bit
  · have hone : 1 ≤ x.magnitude / 2 ^ f.fractionBits := Nat.one_le_iff_ne_zero.mpr hfield
    rw [f.roundMagnitude_exact (by omega) (by omega) (by omega) fun _ => by omega]
    have hoffset : (f.leastExponent + ((x.magnitude / 2 ^ f.fractionBits : Nat) : Int) - 1 -
        f.leastExponent).toNat = x.magnitude / 2 ^ f.fractionBits - 1 := by omega
    have hsum : (x.magnitude / 2 ^ f.fractionBits - 1) * 2 ^ f.fractionBits +
        (2 ^ f.fractionBits + x.magnitude % 2 ^ f.fractionBits) = x.magnitude := by
      rw [← Nat.add_assoc, ← Nat.succ_mul, Nat.succ_eq_add_one, Nat.sub_add_cancel hone,
        Nat.mul_comm]
      exact hsplit
    rw [hoffset, hsum]
    exact Nat.min_eq_right hfinite.le

end Floating

end SqlRecord
