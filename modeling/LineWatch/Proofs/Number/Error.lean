import LineWatch.Proofs.Number.Nearest

/-!
# How far rounding goes

A rounded number is off by at most half the distance of its neighbours, which is bounded for all
numbers below a power of two. Hence what is close to an integer rounds to that integer, and
quotients of integers that are not huge are always numbers.
-/

namespace LineWatch

variable {q : ℚ} {e : ℤ}

theorem abs_nearest_sub_le (q : ℚ) : |nearest q - q| ≤ ulp q / 2 := by
  have hu := ulp_pos q
  have hq : nearest q - q = -((q / ulp q - roundHalfEven (q / ulp q)) * ulp q) := by
    rw [nearest, sub_mul, div_mul_cancel₀ _ hu.ne', neg_sub]
  rw [hq, abs_neg, abs_mul, abs_of_pos hu]
  calc |q / ulp q - roundHalfEven (q / ulp q)| * ulp q ≤ 1 / 2 * ulp q :=
        mul_le_mul_of_nonneg_right (abs_sub_roundHalfEven_le _) hu.le
    _ = ulp q / 2 := by ring

theorem ulp_le_of_abs_lt (h : |q| < twoPow e) (he : 0 ≤ e) : ulp q ≤ twoPow (e - 53) := by
  have hexp : binaryExponent q < e := by
    by_cases hq : q = 0
    · subst hq
      exact lt_of_lt_of_le (by decide) he
    · exact twoPow_lt_iff.mp ((binaryExponent_bounds hq).1.trans_lt h)
  exact twoPow_le_twoPow (by omega)

theorem abs_nearest_sub_le_of_abs_lt (h : |q| < twoPow e) (he : 0 ≤ e) :
    |nearest q - q| ≤ twoPow (e - 53) / 2 :=
  (abs_nearest_sub_le q).trans (by linarith [ulp_le_of_abs_lt h he])

theorem roundHalfEven_eq_of_abs_lt {n : ℤ} (h : |q - n| < 1 / 2) : roundHalfEven q = n := by
  have hr := abs_le.mp (abs_sub_roundHalfEven_le q)
  have hn := abs_lt.mp h
  have hlo : (roundHalfEven q : ℚ) < n + 1 := by linarith
  have hhi : (n : ℚ) < roundHalfEven q + 1 := by linarith
  have hlo' : roundHalfEven q < n + 1 := by exact_mod_cast hlo
  have hhi' : n < roundHalfEven q + 1 := by exact_mod_cast hhi
  omega

theorem nearest_eq_self {q : ℚ} (k : ℤ) (h : q = k * ulp q) : nearest q = q :=
  le_antisymm ((nearest_le_of_le_mul k h.le).trans h.ge)
    (h.le.trans (le_nearest_of_mul_le k h.ge))

/-- Integers of 53 bits are binary64 numbers. -/
theorem nearest_intCast {n : ℤ} (h : |(n : ℚ)| < twoPow 53) : nearest n = n := by
  have hgrid : max (binaryExponent n - 52) (-1074) ≤ 0 := by
    by_contra! hcoarse
    exact absurd (twoPow_lt_iff.mpr hcoarse) (not_lt.mpr (ulp_le_of_abs_lt h (by norm_num)))
  obtain ⟨k, hk⟩ := twoPow_eq_mul hgrid
  refine nearest_eq_self (n * k) ?_
  rw [Int.cast_mul, mul_assoc, ulp, ← hk, twoPow, zpow_zero, mul_one]

theorem abs_nearest_lt (h : |q| < twoPow e) (he : 0 ≤ e) : |nearest q| < twoPow (e + 1) := by
  have herr := abs_nearest_sub_le_of_abs_lt h he
  have hle : twoPow (e - 53) ≤ twoPow e := twoPow_le_twoPow (by omega)
  have hdouble : twoPow (e + 1) = 2 * twoPow e := by
    rw [twoPow, twoPow, zpow_add_one₀ (by norm_num), mul_comm]
  have hpos := twoPow_pos (e - 53)
  calc |nearest q| = |nearest q - q + q| := by ring_nf
    _ ≤ |nearest q - q| + |q| := abs_add_le _ _
    _ < twoPow (e + 1) := by linarith

theorem Binary64.quotient?_isSome {n d : ℤ} (h : |(n : ℚ)| < twoPow 1000) (hd : d ≠ 0) :
    (Binary64.quotient? n d).isSome := by
  have hd' : 1 ≤ |(d : ℚ)| := by exact_mod_cast Int.one_le_abs hd
  have hq : |(n : ℚ) / d| < twoPow 1000 := by
    rw [abs_div]
    exact (div_le_self (abs_nonneg _) hd').trans_lt h
  have hlt : |nearest ((n : ℚ) / d)| < overflowBound :=
    (abs_nearest_lt hq (by norm_num)).trans (twoPow_lt_iff.mpr (by norm_num))
  unfold Binary64.quotient? Binary64.ofRat
  dsimp only
  rw [magnitude_eq_abs, if_neg (not_le.mpr hlt)]
  split_ifs <;> rfl

end LineWatch
