import LineWatch.Time.Instant
import Mathlib.Tactic

/-!
# Rounding keeps the order

Rounding to integers and rounding to binary64 are monotone. Two numbers of different precision
are kept apart by a power of two, or by zero, which both of them can represent. Hence the
milliseconds of instants are in the order of the instants.
-/

namespace LineWatch

theorem abs_sub_roundHalfEven_le (q : ℚ) : |q - roundHalfEven q| ≤ 1 / 2 := by
  have hd : (0 : ℚ) < q.den := by exact_mod_cast q.den_pos
  obtain ⟨hlo, hhi⟩ := two_mul_sub_divHalfEven q.num q.den q.den_pos
  have hq : (q - roundHalfEven q) * q.den = q.num - q.den * roundHalfEven q := by
    rw [sub_mul, Rat.mul_den_eq_num, mul_comm (roundHalfEven q : ℚ)]
  have hlo' : -(q.den : ℚ) ≤ 2 * (q.num - q.den * roundHalfEven q) := by exact_mod_cast hlo
  have hhi' : 2 * (q.num - q.den * roundHalfEven q) ≤ (q.den : ℚ) := by exact_mod_cast hhi
  rw [← hq] at hlo' hhi'
  rw [abs_le]
  constructor <;> nlinarith

theorem roundHalfEven_mono {q r : ℚ} (h : q ≤ r) : roundHalfEven q ≤ roundHalfEven r := by
  by_contra! hlt
  have hgap : (roundHalfEven r : ℚ) + 1 ≤ roundHalfEven q := by exact_mod_cast hlt
  have hq := abs_le.mp (abs_sub_roundHalfEven_le q)
  have hr := abs_le.mp (abs_sub_roundHalfEven_le r)
  -- both are the same half between two integers, and so have one rounding
  have he : q = r := by linarith
  rw [he] at hlt
  exact lt_irrefl _ hlt

theorem twoPow_pos (e : ℤ) : 0 < twoPow e := zpow_pos (by norm_num) e

theorem twoPow_le_twoPow {a b : ℤ} (h : a ≤ b) : twoPow a ≤ twoPow b :=
  zpow_le_zpow_right₀ (by norm_num) h

theorem twoPow_lt_iff {a b : ℤ} : twoPow a < twoPow b ↔ a < b :=
  zpow_lt_zpow_iff_right₀ (by norm_num)

/-- A power of two is a multiple of every smaller one. -/
theorem twoPow_eq_mul {a b : ℤ} (h : a ≤ b) : ∃ k : ℤ, twoPow b = k * twoPow a := by
  obtain ⟨n, rfl⟩ := Int.le.dest h
  refine ⟨2 ^ n, ?_⟩
  rw [twoPow, twoPow, zpow_add₀ (by norm_num), zpow_natCast, mul_comm]
  norm_num

theorem magnitude_eq_abs (q : ℚ) : magnitude q = |q| := by
  unfold magnitude
  split_ifs with h
  · exact (abs_of_neg h).symm
  · exact (abs_of_nonneg (not_lt.mp h)).symm

theorem twoPow_log2_le {n : ℕ} (hn : n ≠ 0) : twoPow n.log2 ≤ n := by
  rw [twoPow, zpow_natCast]
  exact_mod_cast Nat.log2_self_le hn

theorem lt_twoPow_log2 (n : ℕ) : (n : ℚ) < twoPow (n.log2 + 1) := by
  rw [twoPow, show ((n.log2 : ℤ) + 1) = ((n.log2 + 1 : ℕ) : ℤ) by push_cast; rfl, zpow_natCast]
  exact_mod_cast Nat.lt_log2_self

theorem binaryExponent_bounds {q : ℚ} (hq : q ≠ 0) :
    twoPow (binaryExponent q) ≤ |q| ∧ |q| < twoPow (binaryExponent q + 1) := by
  have hn : q.num.natAbs ≠ 0 := by simpa using hq
  have habs : |q| = q.num.natAbs / q.den := by
    rw [Nat.cast_natAbs, Int.cast_abs, ← Nat.abs_cast q.den, ← abs_div, Rat.num_div_den]
  have hd : (0 : ℚ) < q.den := by exact_mod_cast q.den_pos
  have hhi : |q| < twoPow (q.num.natAbs.log2 - q.den.log2 + 1) := by
    rw [habs, div_lt_iff₀ hd]
    calc (q.num.natAbs : ℚ) < twoPow (q.num.natAbs.log2 + 1) := lt_twoPow_log2 _
      _ = twoPow (q.num.natAbs.log2 - q.den.log2 + 1) * twoPow q.den.log2 := by
        rw [twoPow, twoPow, twoPow, ← zpow_add₀ (by norm_num)]
        congr 1
        ring
      _ ≤ _ := mul_le_mul_of_nonneg_left (twoPow_log2_le q.den_nz) (twoPow_pos _).le
  have hlo : twoPow (q.num.natAbs.log2 - q.den.log2 - 1) ≤ |q| := by
    rw [habs, le_div_iff₀ hd]
    calc _ ≤ twoPow (q.num.natAbs.log2 - q.den.log2 - 1) * twoPow (q.den.log2 + 1) :=
          mul_le_mul_of_nonneg_left (lt_twoPow_log2 _).le (twoPow_pos _).le
      _ = twoPow q.num.natAbs.log2 := by
        rw [twoPow, twoPow, twoPow, ← zpow_add₀ (by norm_num)]
        congr 1
        ring
      _ ≤ _ := twoPow_log2_le hn
  unfold binaryExponent
  rw [magnitude_eq_abs]
  dsimp only
  split_ifs with h
  · exact ⟨h, hhi⟩
  · exact ⟨hlo, by rw [sub_add_cancel]; exact not_le.mp h⟩

theorem ulp_pos (q : ℚ) : 0 < ulp q := twoPow_pos _

theorem nearest_le_of_le_mul {q : ℚ} (k : ℤ) (h : q ≤ k * ulp q) : nearest q ≤ k * ulp q := by
  have hk : roundHalfEven (q / ulp q) ≤ k := by
    rw [← roundHalfEven_intCast k]
    exact roundHalfEven_mono ((div_le_iff₀ (ulp_pos q)).mpr h)
  exact mul_le_mul_of_nonneg_right (by exact_mod_cast hk) (ulp_pos q).le

theorem le_nearest_of_mul_le {q : ℚ} (k : ℤ) (h : k * ulp q ≤ q) : k * ulp q ≤ nearest q := by
  have hk : k ≤ roundHalfEven (q / ulp q) := by
    rw [← roundHalfEven_intCast k]
    exact roundHalfEven_mono ((le_div_iff₀ (ulp_pos q)).mpr h)
  exact mul_le_mul_of_nonneg_right (by exact_mod_cast hk) (ulp_pos q).le

/-- A number that both precisions can represent keeps two roundings apart. -/
theorem nearest_le_nearest_of_between {q r x : ℚ} (hqx : q ≤ x) (hxr : x ≤ r)
    (hq : ∃ k : ℤ, x = k * ulp q) (hr : ∃ k : ℤ, x = k * ulp r) : nearest q ≤ nearest r := by
  obtain ⟨k, hk⟩ := hq
  obtain ⟨l, hl⟩ := hr
  calc nearest q ≤ x := by rw [hk] at hqx ⊢; exact nearest_le_of_le_mul k hqx
    _ ≤ nearest r := by rw [hl] at hxr ⊢; exact le_nearest_of_mul_le l hxr

theorem nearest_le_of_ulp_eq {q r : ℚ} (h : q ≤ r) (hu : ulp q = ulp r) :
    nearest q ≤ nearest r := by
  unfold nearest
  rw [hu]
  have hdiv : q / ulp r ≤ r / ulp r := div_le_div_of_nonneg_right h (ulp_pos r).le
  exact mul_le_mul_of_nonneg_right (by exact_mod_cast roundHalfEven_mono hdiv) (ulp_pos r).le

/-- If the precision around `r` is the coarser one, the power of two below `|r|` lies above `|q|`
and is a multiple of both precisions. -/
theorem twoPow_between {q r : ℚ} (hq : q ≠ 0) (hr : r ≠ 0) (h : |q| ≤ |r|)
    (hu : ulp q ≠ ulp r) :
    |q| ≤ twoPow (binaryExponent r) ∧ (∃ k : ℤ, twoPow (binaryExponent r) = k * ulp q) ∧
      ∃ k : ℤ, twoPow (binaryExponent r) = k * ulp r := by
  have hqe := binaryExponent_bounds hq
  have hre := binaryExponent_bounds hr
  have hle : binaryExponent q < binaryExponent r + 1 :=
    twoPow_lt_iff.mp (hqe.1.trans_lt (h.trans_lt hre.2))
  have hne : max (binaryExponent q - 52) (-1074) ≠ max (binaryExponent r - 52) (-1074) :=
    fun he => hu (by rw [ulp, ulp, he])
  refine ⟨hqe.2.le.trans (twoPow_le_twoPow (by omega)), twoPow_eq_mul (by omega),
    twoPow_eq_mul (by omega)⟩

theorem nearest_mono {q r : ℚ} (h : q ≤ r) : nearest q ≤ nearest r := by
  by_cases hu : ulp q = ulp r
  · exact nearest_le_of_ulp_eq h hu
  rcases le_or_gt q 0 with hq | hq
  · rcases le_or_gt 0 r with hr | hr
    · exact nearest_le_nearest_of_between hq hr ⟨0, by simp⟩ ⟨0, by simp⟩
    · have hq' : q < 0 := h.trans_lt hr
      have habs : |r| ≤ |q| := by rw [abs_of_neg hr, abs_of_neg hq']; linarith
      obtain ⟨hle, ⟨k, hk⟩, l, hl⟩ := twoPow_between hr.ne hq'.ne habs (Ne.symm hu)
      have hlo := (binaryExponent_bounds hq'.ne).1
      rw [abs_of_neg hq'] at hlo
      rw [abs_of_neg hr] at hle
      refine nearest_le_nearest_of_between (x := -twoPow (binaryExponent q)) (by linarith)
        (by linarith) ⟨-l, ?_⟩ ⟨-k, ?_⟩
      · rw [hl]; push_cast; ring
      · rw [hk]; push_cast; ring
  · have hr : 0 < r := hq.trans_le h
    have habs : |q| ≤ |r| := by rwa [abs_of_pos hq, abs_of_pos hr]
    obtain ⟨hle, hk, hl⟩ := twoPow_between hq.ne' hr.ne' habs hu
    have hlo := (binaryExponent_bounds hr.ne').1
    rw [abs_of_pos hq] at hle
    rw [abs_of_pos hr] at hlo
    exact nearest_le_nearest_of_between hle hlo hk hl

theorem epochMillis_mono {a b : ℤ} (h : a ≤ b) : epochMillis a ≤ epochMillis b := by
  unfold epochMillis
  have hab : (a : ℚ) / 1000000 ≤ b / 1000000 := by
    have : (a : ℚ) ≤ b := by exact_mod_cast h
    linarith
  apply roundHalfEven_mono
  apply nearest_mono
  have hn := nearest_mono hab
  linarith

theorem Instant.millis_le_millis {s t : Instant} (h : s ≤ t) : s.millis ≤ t.millis :=
  epochMillis_mono h

end LineWatch
