import SqlRecord.Proofs.Floating.RoundTrip

/-!
# Single precision in double precision

Every finite number of single precision is one of double precision, so that widening is exact and
narrowing undoes it. Main statement: `Floating.convert_convert`.
-/

namespace SqlRecord

namespace Floating

variable {f : Format}

/-- The significand of a finite number fits its format, and so does its exponent. -/
theorem datum_bounds {x : Floating f} {negative : Bool} {significand : Nat} {exponent : Int}
    (h : x.datum = .finite negative significand exponent) :
    significand < 2 ^ (f.fractionBits + 1) ∧ f.leastExponent ≤ exponent ∧
      (exponent : Int) < f.leastExponent + 2 ^ f.exponentBits := by
  have hfraction : x.magnitude % 2 ^ f.fractionBits < 2 ^ f.fractionBits :=
    Nat.mod_lt _ (Nat.pow_pos (by decide))
  have hpow : 2 ^ (f.fractionBits + 1) = 2 ^ f.fractionBits + 2 ^ f.fractionBits := by
    rw [Nat.pow_succ, Nat.mul_two]
  have hfield : x.magnitude / 2 ^ f.fractionBits < 2 ^ f.exponentBits := by
    rw [Nat.div_lt_iff_lt_mul (Nat.pow_pos (by decide)), ← Nat.pow_add]
    exact x.magnitude_lt
  have hexponent : ((2 ^ f.exponentBits : Nat) : Int) = 2 ^ f.exponentBits := by push_cast; rfl
  rw [datum] at h
  generalize x.magnitude / 2 ^ f.fractionBits = field at h hfield
  rw [← hexponent]
  split_ifs at h with hnan hinf hzero
  all_goals obtain ⟨-, rfl, rfl⟩ := Datum.finite.inj h
  · exact ⟨by omega, le_rfl, by omega⟩
  · exact ⟨by omega, by omega, by omega⟩

/-- A magnitude with a full significand denotes that significand at its exponent. -/
theorem datum_ofMagnitude (negative : Bool) {significand : Nat} {exponent : Int}
    (hfull : 2 ^ f.fractionBits ≤ significand) (hwidth : significand < 2 ^ (f.fractionBits + 1))
    (hleast : f.leastExponent ≤ exponent)
    (hfinite : (exponent - f.leastExponent).toNat * 2 ^ f.fractionBits + significand <
      f.infinity) :
    (ofMagnitude (f := f) negative
      ((exponent - f.leastExponent).toNat * 2 ^ f.fractionBits + significand)).datum =
        .finite negative significand exponent := by
  have hpos : 0 < 2 ^ f.fractionBits := Nat.pow_pos (by decide)
  have hlt := hfinite.trans (infinity_lt f)
  obtain ⟨k, rfl⟩ : ∃ k, significand = 2 ^ f.fractionBits + k := ⟨_, (Nat.add_sub_of_le hfull).symm⟩
  have hk : k < 2 ^ f.fractionBits := by
    rw [Nat.pow_succ] at hwidth
    omega
  -- the exponent is in the field above the fraction, one more for the leading bit
  have hmagnitude : (exponent - f.leastExponent).toNat * 2 ^ f.fractionBits +
      (2 ^ f.fractionBits + k) =
        k + ((exponent - f.leastExponent).toNat + 1) * 2 ^ f.fractionBits := by ring
  rw [datum, magnitude_ofMagnitude negative hlt, negative_ofMagnitude negative hlt]
  rw [hmagnitude] at hfinite ⊢
  rw [Nat.add_mul_div_right _ _ hpos, Nat.div_eq_of_lt hk, Nat.add_mul_mod_self_right,
    Nat.mod_eq_of_lt hk, if_neg (by omega), if_neg (by omega), if_neg (by omega)]
  congr 1
  omega

/-- A power of two moves from the significand to the exponent. -/
theorem scaled_congr (significand k : Nat) (exponent : Int) :
    significand * 2 ^ exponent.toNat * 2 ^ (-(exponent - k)).toNat =
      significand * 2 ^ k * 2 ^ (exponent - k).toNat * 2 ^ (-exponent).toNat := by
  have hexponents : exponent.toNat + (-(exponent - k)).toNat =
      k + (exponent - k).toNat + (-exponent).toNat := by omega
  calc significand * 2 ^ exponent.toNat * 2 ^ (-(exponent - k)).toNat
      = significand * 2 ^ (exponent.toNat + (-(exponent - k)).toNat) := by ring
    _ = significand * 2 ^ (k + (exponent - k).toNat + (-exponent).toNat) := by rw [hexponents]
    _ = significand * 2 ^ k * 2 ^ (exponent - k).toNat * 2 ^ (-exponent).toNat := by ring

/-- A number whose significand has full width once it is moved up is represented exactly. -/
theorem datum_ofScaled (negative : Bool) {significand k : Nat} {exponent : Int}
    (hfull : 2 ^ f.fractionBits ≤ significand * 2 ^ k)
    (hwidth : significand * 2 ^ k < 2 ^ (f.fractionBits + 1))
    (hleast : f.leastExponent ≤ exponent - k)
    (hfinite : (exponent - k - f.leastExponent).toNat * 2 ^ f.fractionBits + significand * 2 ^ k <
      f.infinity) :
    (ofScaled f negative significand exponent).datum =
      .finite negative (significand * 2 ^ k) (exponent - k) := by
  have hpos : significand * 2 ^ k ≠ 0 := ((Nat.pow_pos (by decide)).trans_le hfull).ne'
  have hround : f.roundMagnitude (significand * 2 ^ exponent.toNat) (2 ^ (-exponent).toNat) =
      (exponent - k - f.leastExponent).toNat * 2 ^ f.fractionBits + significand * 2 ^ k := by
    rw [f.roundMagnitude_congr (Nat.pow_pos (by decide)) (Nat.pow_pos (by decide))
        (scaled_congr significand k exponent),
      f.roundMagnitude_exact hpos hwidth hleast fun _ => hfull]
    exact Nat.min_eq_right hfinite.le
  rw [ofScaled, ofRatio, hround]
  exact datum_ofMagnitude negative hfull hwidth hleast hfinite

/-- **Widening is exact**: a number that is not zero keeps its value. -/
theorem datum_convert {x : Binary32} {negative : Bool} {significand : Nat} {exponent : Int}
    (h : x.datum = .finite negative significand exponent) (hpos : significand ≠ 0) :
    ∃ k : Nat, (x.convert .binary64).datum =
      .finite negative (significand * 2 ^ k) (exponent - k) := by
  obtain ⟨hwidth, hleast, hgreatest⟩ := datum_bounds h
  have hlow : 2 ^ significand.log2 ≤ significand := Nat.log2_self_le hpos
  have hhigh : significand < 2 ^ (significand.log2 + 1) := Nat.lt_log2_self
  have hlog : significand.log2 < 24 := (Nat.log2_lt hpos).mpr hwidth
  have hleast32 : Format.binary32.leastExponent = -149 := by decide
  have hleast64 : Format.binary64.leastExponent = -1074 := by decide
  rw [hleast32] at hleast hgreatest
  have hgreatest : exponent < 107 := hgreatest
  -- the significand is moved up to the full width
  obtain ⟨k, hk⟩ : ∃ k, significand.log2 + k = 52 := ⟨52 - significand.log2, by omega⟩
  refine ⟨k, ?_⟩
  have hfull : 2 ^ Format.binary64.fractionBits ≤ significand * 2 ^ k := by
    calc 2 ^ 52 = 2 ^ significand.log2 * 2 ^ k := by rw [← Nat.pow_add, hk]
      _ ≤ significand * 2 ^ k := Nat.mul_le_mul_right _ hlow
  have hbelow : significand * 2 ^ k < 2 ^ (Format.binary64.fractionBits + 1) := by
    calc significand * 2 ^ k < 2 ^ (significand.log2 + 1) * 2 ^ k :=
          Nat.mul_lt_mul_of_pos_right hhigh (Nat.pow_pos (by decide))
      _ = 2 ^ 53 := by rw [← Nat.pow_add, Nat.add_right_comm, hk]
  rw [convert, h]
  refine datum_ofScaled negative hfull hbelow (by omega) ?_
  have hinfinity : 1181 * 2 ^ 52 + 2 ^ 53 < Format.binary64.infinity := by decide
  have hcount : (exponent - k - Format.binary64.leastExponent).toNat ≤ 1181 := by omega
  exact (Nat.add_lt_add_of_le_of_lt (Nat.mul_le_mul_right _ hcount) hbelow).trans hinfinity

/-- A zero stays a zero of the same sign. -/
theorem convert_of_datum_zero (g : Format) {x : Floating f} {negative : Bool} {exponent : Int}
    (h : x.datum = .finite negative 0 exponent) : x.convert g = ofMagnitude negative 0 := by
  rw [convert, h]
  dsimp only
  rw [ofScaled, ofRatio, Nat.zero_mul, Format.roundMagnitude_zero]

/-- **Narrowing undoes widening.** -/
theorem convert_convert {x : Binary32} (h : x.isFinite = true) :
    (x.convert .binary64).convert .binary32 = x := by
  obtain ⟨significand, exponent, hdatum, -⟩ := exists_datum h
  have hmagnitude := roundMagnitude_of_datum hdatum
  by_cases hpos : significand = 0
  · subst hpos
    rw [Nat.zero_mul, Format.roundMagnitude_zero] at hmagnitude
    have hwide : (x.convert .binary64).datum = .finite x.negative 0 (-1074) := by
      rw [convert_of_datum_zero .binary64 hdatum]
      cases x.negative <;> decide
    rw [convert_of_datum_zero .binary32 hwide, hmagnitude, ofMagnitude_magnitude]
  · obtain ⟨k, hwide⟩ := datum_convert hdatum hpos
    rw [convert.eq_def .binary32, hwide]
    dsimp only
    rw [ofScaled, ofRatio, ← Format.roundMagnitude_congr _ (Nat.pow_pos (by decide))
      (Nat.pow_pos (by decide)) (scaled_congr significand k exponent), hmagnitude,
      ofMagnitude_magnitude]

/-- A number of single precision that is finite once widened was finite before. -/
theorem isFinite_of_convert {x : Binary32} (h : (x.convert .binary64).isFinite = true) :
    x.isFinite = true := by
  by_contra hfinite
  have hle : Format.binary32.infinity ≤ x.magnitude :=
    Nat.not_lt.mp fun hlt => hfinite (decide_eq_true hlt)
  rcases Nat.lt_or_eq_of_le hle with hnan | hinfinite
  · have hdatum : x.datum = .nan := if_pos hnan
    have hwide : (canonicalNaN : Binary64).isFinite = false := by decide
    rw [convert, hdatum] at h
    exact Bool.noConfusion (h.symm.trans hwide)
  · have hdatum : x.datum = .infinite x.negative := by
      rw [datum, if_neg (by omega), if_pos hinfinite]
    have hwide : (ofMagnitude x.negative Format.binary64.infinity : Binary64).isFinite = false := by
      cases x.negative <;> decide
    rw [convert, hdatum] at h
    exact Bool.noConfusion (h.symm.trans hwide)

end Floating

end SqlRecord
