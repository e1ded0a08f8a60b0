import LineWatch.Proofs.Number.Growth
import LineWatch.Proofs.Number.Shortest

/-!
# Decimal numbers are rounded once

A decimal number whose rounding is a positive binary64 number is read as that number, and as its
negative behind a minus sign: it is neither too large nor too small to be looked at, and rounding
does not depend on the sign.
-/

namespace LineWatch

theorem divHalfEven_neg (n : ℤ) {d : ℕ} (hd : 0 < d) : divHalfEven (-n) d = -divHalfEven n d := by
  have hd' : (0 : ℤ) < d := by exact_mod_cast hd
  have hsplit := Int.mul_ediv_add_emod n d
  have hnonneg := Int.emod_nonneg n hd'.ne'
  have hlt := Int.emod_lt_of_pos n hd'
  by_cases hr : n % d = 0
  · have hq : -n / d = -(n / d) := Int.neg_ediv_of_dvd (Int.dvd_of_emod_eq_zero hr)
    have hr' : -n % d = 0 := Int.emod_eq_zero_of_dvd (Int.dvd_neg.mpr (Int.dvd_of_emod_eq_zero hr))
    simp [divHalfEven, hq, hr, hr', hd]
  · have hpos : 0 < n % d := by omega
    have hq : -n / d = -(n / d) - 1 := by
      rw [Int.ediv_eq_iff_of_pos hd']
      constructor <;> linarith
    have hr' : -n % d = d - n % d := by
      rw [Int.emod_def, hq]
      linarith
    simp only [divHalfEven, hq, hr']
    split_ifs <;> omega

theorem roundHalfEven_neg (q : ℚ) : roundHalfEven (-q) = -roundHalfEven q :=
  divHalfEven_neg q.num q.den_pos

theorem ulp_neg (q : ℚ) : ulp (-q) = ulp q := by
  simp [ulp, binaryExponent, magnitude_eq_abs]

theorem nearest_neg (q : ℚ) : nearest (-q) = -nearest q := by
  rw [nearest, nearest, ulp_neg, neg_div, roundHalfEven_neg]
  push_cast
  ring

namespace Binary64

variable {x q : ℚ}

theorem twoPow_le_tenPow : twoPow 1280 ≤ 10 ^ (400 : ℤ) := by
  have hpow : ((2 : ℚ) ^ 16) ^ 80 ≤ ((10 : ℚ) ^ 5) ^ 80 :=
    pow_le_pow_left₀ (by norm_num) (by norm_num) 80
  rw [← pow_mul, ← pow_mul] at hpow
  exact hpow

theorem tenPow_le_twoPow : (10 : ℚ) ^ (-400 : ℤ) ≤ twoPow (-1280) := by
  rw [twoPow, zpow_neg, zpow_neg]
  exact inv_anti₀ (by positivity) twoPow_le_tenPow

/-- What is rounded to a positive binary64 number lies between these powers of ten. -/
theorem bounds_of_nearest_eq (hx : nearest x = q) (hpos : 0 < q) (hq : q < overflowBound) :
    (10 : ℚ) ^ (-400 : ℤ) < x ∧ x < 10 ^ (400 : ℤ) := by
  constructor
  · by_contra! hle
    have hsmall : nearest (twoPow (-1280)) = 0 := by
      have hulp : twoPow (-1074) ≤ ulp (twoPow (-1280)) := twoPow_le_twoPow (le_max_right _ _)
      have hhalf : twoPow (-1280) < twoPow (-1075) := twoPow_lt_iff.mpr (by decide)
      have hhalf' : twoPow (-1075) ≤ twoPow (-1074) / 2 := twoPow_le_half (by decide)
      refine nearest_eq_of_abs_lt 0 (by simp) ?_
      rw [sub_zero, abs_of_pos (twoPow_pos _)]
      linarith
    have hmono := nearest_mono (hle.trans tenPow_le_twoPow)
    rw [hx, hsmall] at hmono
    exact absurd hpos (not_lt.mpr hmono)
  · by_contra! hle
    have hexponent : binaryExponent (twoPow 1024) = 1024 := by
      have habs : |twoPow 1024| = twoPow 1024 := abs_of_pos (twoPow_pos _)
      exact binaryExponent_eq habs.ge (habs.trans_lt (twoPow_lt_iff.mpr (by omega)))
    obtain ⟨k, hk⟩ : ∃ k : ℤ, twoPow 1024 = k * ulp (twoPow 1024) := by
      rw [ulp, hexponent]
      exact twoPow_eq_mul (by decide)
    have hbig : twoPow 1024 ≤ twoPow 1280 := twoPow_le_twoPow (by decide)
    have hmono := nearest_mono ((hbig.trans twoPow_le_tenPow).trans hle)
    rw [hx, nearest_eq_self k hk] at hmono
    exact absurd hq (not_lt.mpr hmono)

/-- A decimal number between these powers of ten has its first digit between these places. -/
theorem place_bounds {m : ℕ} {e : ℤ} (hlo : (10 : ℚ) ^ (-400 : ℤ) < m * 10 ^ e)
    (hhi : m * 10 ^ e < (10 : ℚ) ^ (400 : ℤ)) (hm : 0 < m) :
    -400 < ((Nat.toDigits 10 m).length : ℤ) + e ∧ ((Nat.toDigits 10 m).length : ℤ) + e ≤ 400 := by
  obtain ⟨hdigits, hdigits'⟩ := Decimal.toDigits_bounds hm
  have hlen : 0 < (Nat.toDigits 10 m).length := Nat.length_toDigits_pos
  have hpow : (0 : ℚ) < 10 ^ e := by positivity
  constructor
  · have hlt : (10 : ℚ) ^ (-400 : ℤ) < 10 ^ (((Nat.toDigits 10 m).length : ℤ) + e) := by
      rw [zpow_add₀ (by norm_num), zpow_natCast]
      exact hlo.trans (mul_lt_mul_of_pos_right (by exact_mod_cast hdigits') hpow)
    exact (zpow_lt_zpow_iff_right₀ (by norm_num)).mp hlt
  · have hlt : (10 : ℚ) ^ ((((Nat.toDigits 10 m).length - 1 : ℕ) : ℤ) + e) < 10 ^ (400 : ℤ) := by
      rw [zpow_add₀ (by norm_num), zpow_natCast]
      exact (mul_le_mul_of_nonneg_right (by exact_mod_cast hdigits) hpow.le).trans_lt hhi
    have := (zpow_lt_zpow_iff_right₀ (by norm_num)).mp hlt
    omega

/-- The decimal number `m * 10 ^ e` is read as the number that it is rounded to. -/
theorem ofDecimal_eq {m : ℕ} {e : ℤ} (hx : nearest (m * 10 ^ e) = q) (hpos : 0 < q)
    (hq : q < overflowBound) (negative : Bool) :
    ofDecimal negative m e = .finite (if negative then -q else q) := by
  obtain ⟨hlo, hhi⟩ := bounds_of_nearest_eq hx hpos hq
  have hm : 0 < m := by
    refine Nat.pos_of_ne_zero fun h => ?_
    rw [h, Nat.cast_zero, zero_mul] at hlo
    exact absurd hlo (not_lt.mpr (zpow_nonneg (by norm_num) _))
  obtain ⟨hlow, hhigh⟩ := place_bounds hlo hhi hm
  have hsmall : ¬(m = 0 ∨ ((Nat.toDigits 10 m).length : ℤ) + e < -400) := by omega
  have hlarge : ¬400 < ((Nat.toDigits 10 m).length : ℤ) + e := by omega
  unfold ofDecimal
  dsimp only
  rw [if_neg hsmall, if_neg hlarge]
  cases negative with
  | false =>
    simp [ofRat, hx, magnitude_eq_abs, abs_of_pos hpos, not_le.mpr hq, hpos.ne']
  | true =>
    simp [ofRat, nearest_neg, hx, magnitude_eq_abs, abs_of_pos hpos, not_le.mpr hq, hpos.ne']

end Binary64

end LineWatch
