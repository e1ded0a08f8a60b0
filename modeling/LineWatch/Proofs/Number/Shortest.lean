import LineWatch.Number.Shortest
import LineWatch.Proofs.Number.Error
import LineWatch.Proofs.Text.Digits

/-!
# Seventeen digits suffice

A number that is nearer to a binary64 number than the 2⁵⁴th part of it rounds to that number, also
below a power of two, where the precision changes. A decimal number of seventeen digits is near
enough, so the search for the shortest decimal number that reads back always succeeds.
-/

namespace LineWatch

section

variable {q x : ℚ}

theorem nearest_eq_of_abs_lt (k : ℤ) (hq : q = k * ulp x) (h : |x - q| < ulp x / 2) :
    nearest x = q := by
  have hu := ulp_pos x
  have hnear : |x / ulp x - k| < 1 / 2 := by
    have hdiv : x / ulp x - k = (x - q) / ulp x := by rw [hq]; field_simp
    rw [hdiv, abs_div, abs_of_pos hu, div_lt_iff₀ hu]
    linarith
  rw [nearest, roundHalfEven_eq_of_abs_lt hnear, hq]

theorem binaryExponent_eq {e : ℤ} (hlo : twoPow e ≤ |q|) (hhi : |q| < twoPow (e + 1)) :
    binaryExponent q = e := by
  have hq : q ≠ 0 := by
    rintro rfl
    exact absurd (abs_zero (α := ℚ) ▸ hlo) (not_le.mpr (twoPow_pos e))
  obtain ⟨hlo', hhi'⟩ := binaryExponent_bounds hq
  have h1 := twoPow_lt_iff.mp (hlo'.trans_lt hhi)
  have h2 := twoPow_lt_iff.mp (hlo.trans_lt hhi')
  omega

theorem twoPow_add (a b : ℤ) : twoPow (a + b) = twoPow a * twoPow b :=
  zpow_add₀ (by norm_num) a b

/-- Different multiples of a number are that far apart. -/
theorem add_le_of_mul_lt_mul {a b : ℤ} {u : ℚ} (hu : 0 < u) (h : a * u < b * u) :
    a * u + u ≤ b * u := by
  have hab : a + 1 ≤ b := by
    have : (a : ℚ) < b := lt_of_mul_lt_mul_right h hu.le
    exact_mod_cast this
  calc a * u + u = ((a + 1 : ℤ) : ℚ) * u := by push_cast; ring
    _ ≤ b * u := mul_le_mul_of_nonneg_right (by exact_mod_cast hab) hu.le

/-- A binary64 number that is not zero is at least one step of its grid. -/
theorem ulp_le_of_nearest_eq (hq : nearest q = q) (hpos : 0 < q) : ulp q ≤ q := by
  have hm : q = roundHalfEven (q / ulp q) * ulp q := hq.symm
  have hstep := add_le_of_mul_lt_mul (a := 0) (b := roundHalfEven (q / ulp q)) (ulp_pos q)
    (by simpa [← hm] using hpos)
  simpa [← hm] using hstep

theorem twoPow_le_half {a b : ℤ} (h : a < b) : twoPow a ≤ twoPow b / 2 := by
  have hdouble : twoPow a * twoPow 1 ≤ twoPow b := by
    rw [← twoPow_add]
    exact twoPow_le_twoPow (by omega)
  have htwo : twoPow 1 = 2 := by norm_num [twoPow]
  rw [htwo] at hdouble
  linarith

theorem lt_twoPow_of_close {e : ℤ} (h : |x - q| * twoPow 54 < q) (hq : q ≤ twoPow e) :
    |x - q| < twoPow (e - 54) := by
  have hsplit : twoPow e = twoPow (e - 54) * twoPow 54 := by rw [← twoPow_add, sub_add_cancel]
  exact lt_of_mul_lt_mul_right (h.trans_le (hsplit ▸ hq)) (twoPow_pos 54).le

/-- Numbers of the binary exponent `k` lie on one grid. -/
theorem ulp_eq {k : ℤ} (hlo : twoPow k ≤ x) (hhi : x < twoPow (k + 1)) :
    ulp x = twoPow (max (k - 52) (-1074)) := by
  have habs : |x| = x := abs_of_pos ((twoPow_pos k).trans_le hlo)
  rw [ulp, binaryExponent_eq (by rwa [habs]) (by rwa [habs])]

/-- The number `q` is the `m`-th one on the grid of its binary exponent `k`. -/
structure IsPlaced (q : ℚ) (k e m : ℤ) : Prop where
  lo : twoPow k ≤ q
  hi : q < twoPow (k + 1)
  eq : q = m * twoPow e
  grid : e = max (k - 52) (-1074)
  grid_le : e ≤ k

theorem exists_isPlaced (hq : nearest q = q) (hpos : 0 < q) : ∃ k e m, IsPlaced q k e m := by
  obtain ⟨hlo, hhi⟩ := binaryExponent_bounds hpos.ne'
  rw [abs_of_pos hpos] at hlo hhi
  have hbelow : ulp q < twoPow (binaryExponent q + 1) :=
    (ulp_le_of_nearest_eq hq hpos).trans_lt hhi
  exact ⟨_, _, _, hlo, hhi, hq.symm, rfl, Int.le_of_lt_add_one (twoPow_lt_iff.mp hbelow)⟩

section

variable {k e m : ℤ}

/-- A power of two above a number of the grid is a step away from it. -/
theorem IsPlaced.add_le (h : IsPlaced q k e m) {a : ℤ} (ha : e ≤ a) (hlt : q < twoPow a) :
    q + twoPow e ≤ twoPow a := by
  obtain ⟨l, hl⟩ := twoPow_eq_mul ha
  rw [h.eq, hl] at hlt ⊢
  exact add_le_of_mul_lt_mul (twoPow_pos e) hlt

theorem IsPlaced.add_le_of_lt (h : IsPlaced q k e m) (hlt : twoPow k < q) :
    twoPow k + twoPow e ≤ q := by
  obtain ⟨l, hl⟩ := twoPow_eq_mul h.grid_le
  rw [h.eq, hl] at hlt ⊢
  exact add_le_of_mul_lt_mul (twoPow_pos e) hlt

/-- A close number is less than half a step away. -/
theorem IsPlaced.abs_sub_lt (h : IsPlaced q k e m) (hclose : |x - q| * twoPow 54 < q) :
    |x - q| < twoPow e / 2 := by
  have hgrid := h.grid
  exact (lt_twoPow_of_close hclose h.hi.le).trans_le (twoPow_le_half (by omega))

/-- Where the binary exponent is the one of `q`, so is the grid. -/
theorem IsPlaced.nearest_eq_of_le (h : IsPlaced q k e m) (hclose : |x - q| * twoPow 54 < q)
    (hx : twoPow k ≤ x) : nearest x = q := by
  have hdist := h.abs_sub_lt hclose
  have hx' : x < twoPow (k + 1) := by
    have hgap := h.add_le (Int.le_add_one h.grid_le) h.hi
    linarith [(abs_lt.mp hdist).2, twoPow_pos e]
  have hulp : ulp x = twoPow e := by rw [ulp_eq hx hx', h.grid]
  exact nearest_eq_of_abs_lt m (hulp ▸ h.eq) (hulp ▸ hdist)

/-- Only if `q` is a power of two can a close number have a smaller binary exponent. -/
theorem IsPlaced.nearest_eq_of_lt (h : IsPlaced q k e m) (hclose : |x - q| * twoPow 54 < q)
    (hx : x < twoPow k) : nearest x = q := by
  have hpower : q = twoPow k := by
    refine le_antisymm (not_lt.mp fun hlt => ?_) h.lo
    have hgap := h.add_le_of_lt hlt
    linarith [(abs_lt.mp (h.abs_sub_lt hclose)).1, twoPow_pos e]
  have hdist := lt_twoPow_of_close hclose hpower.le
  have hbelow : twoPow (k - 54) ≤ twoPow k / 2 := twoPow_le_half (by omega)
  have hdouble : twoPow (k - 1) ≤ twoPow k / 2 := twoPow_le_half (by omega)
  have hx' : twoPow (k - 1) ≤ x := by linarith [(abs_lt.mp hdist).1]
  have hulp : ulp x = twoPow (max (k - 1 - 52) (-1074)) :=
    ulp_eq hx' (by rwa [sub_add_cancel])
  have hgrid := h.grid
  have hgridLe := h.grid_le
  obtain ⟨l, hl⟩ : ∃ l : ℤ, twoPow k = l * ulp x := hulp ▸ twoPow_eq_mul (by omega)
  refine nearest_eq_of_abs_lt l (hpower.trans hl) (hdist.trans_le ?_)
  rw [hulp]
  exact twoPow_le_half (by omega)

end

theorem nearest_eq_of_close (hq : nearest q = q) (hpos : 0 < q) (h : |x - q| * twoPow 54 < q) :
    nearest x = q := by
  obtain ⟨k, e, m, hplaced⟩ := exists_isPlaced hq hpos
  rcases le_or_gt (twoPow k) x with hx | hx
  · exact hplaced.nearest_eq_of_le h hx
  · exact hplaced.nearest_eq_of_lt h hx

end

namespace Decimal

variable {q : ℚ}

theorem toDigits_bounds {n : ℕ} (hn : 0 < n) :
    10 ^ ((Nat.toDigits 10 n).length - 1) ≤ n ∧ n < 10 ^ (Nat.toDigits 10 n).length := by
  have hlen : 0 < (Nat.toDigits 10 n).length := Nat.length_toDigits_pos
  refine ⟨?_, (Nat.length_toDigits_le_iff (by decide) hlen).mp le_rfl⟩
  rcases Nat.eq_or_lt_of_le (show 1 ≤ (Nat.toDigits 10 n).length from hlen) with h | h
  · rw [← h]
    exact hn
  · by_contra! hlt
    have := (Nat.length_toDigits_le_iff (b := 10) (by decide) (by omega)).mpr hlt
    omega

theorem mul_den_eq (hq : 0 < q) : q * q.den = q.num.natAbs := by
  rw [Rat.mul_den_eq_num, Nat.cast_natAbs, abs_of_pos (Rat.num_pos.mpr hq)]

theorem tenPow_eq_mul {a b : ℕ} {z : ℤ} (h : (a : ℤ) = z + b) :
    (10 : ℚ) ^ a = 10 ^ z * 10 ^ b := by
  rw [← zpow_natCast, ← zpow_natCast, ← zpow_add₀ (by norm_num), h]

/-- The lengths of numerator and denominator bound a number from above. -/
theorem lt_tenPow_lengths (hq : 0 < q) :
    q < 10 ^ (((Nat.toDigits 10 q.num.natAbs).length : ℤ) -
      (Nat.toDigits 10 q.den).length + 1) := by
  obtain ⟨-, hnum⟩ := toDigits_bounds (n := q.num.natAbs) (by simpa using hq.ne')
  obtain ⟨hden, -⟩ := toDigits_bounds q.den_pos
  have hlen : 0 < (Nat.toDigits 10 q.den).length := Nat.length_toDigits_pos
  refine lt_of_mul_lt_mul_right ?_ (Nat.cast_nonneg q.den)
  calc q * q.den = q.num.natAbs := mul_den_eq hq
    _ < 10 ^ (Nat.toDigits 10 q.num.natAbs).length := by exact_mod_cast hnum
    _ = 10 ^ (((Nat.toDigits 10 q.num.natAbs).length : ℤ) - (Nat.toDigits 10 q.den).length + 1) *
        10 ^ ((Nat.toDigits 10 q.den).length - 1) := tenPow_eq_mul (by omega)
    _ ≤ _ := mul_le_mul_of_nonneg_left (by exact_mod_cast hden) (by positivity)

theorem tenPow_lengths_le (hq : 0 < q) :
    10 ^ (((Nat.toDigits 10 q.num.natAbs).length : ℤ) -
      (Nat.toDigits 10 q.den).length - 1) ≤ q := by
  obtain ⟨hnum, -⟩ := toDigits_bounds (n := q.num.natAbs) (by simpa using hq.ne')
  obtain ⟨-, hden⟩ := toDigits_bounds q.den_pos
  have hlen : 0 < (Nat.toDigits 10 q.num.natAbs).length := Nat.length_toDigits_pos
  have hd : (0 : ℚ) < q.den := by exact_mod_cast q.den_pos
  refine le_of_mul_le_mul_right ?_ hd
  calc _ ≤ (10 : ℚ) ^ (((Nat.toDigits 10 q.num.natAbs).length : ℤ) -
        (Nat.toDigits 10 q.den).length - 1) * 10 ^ (Nat.toDigits 10 q.den).length :=
        mul_le_mul_of_nonneg_left (by exact_mod_cast hden.le) (by positivity)
    _ = 10 ^ ((Nat.toDigits 10 q.num.natAbs).length - 1) := (tenPow_eq_mul (by omega)).symm
    _ ≤ q.num.natAbs := by exact_mod_cast hnum
    _ = q * q.den := (mul_den_eq hq).symm

theorem exponentOf_bounds (hq : 0 < q) :
    (10 : ℚ) ^ exponentOf q ≤ q ∧ q < (10 : ℚ) ^ (exponentOf q + 1) := by
  unfold exponentOf
  dsimp only
  split_ifs with h
  · exact ⟨h, lt_tenPow_lengths hq⟩
  · exact ⟨tenPow_lengths_le hq, by rw [sub_add_cancel]; exact not_le.mp h⟩

theorem candidate?_reads {top : ℤ} {count : ℕ} {d : Decimal}
    (h : candidate? q top count = some d) : nearest d.toRat = q := by
  unfold candidate? at h
  dsimp only at h
  split_ifs at h with hlow hhigh
  · exact Option.some.inj h ▸ hlow.1
  · exact Option.some.inj h ▸ hhigh

/-- Half a step of a grid of seventeen digits is less than the 2⁵⁴th part of the number. -/
theorem close_of_abs_sub_le {x : ℚ} (hpos : 0 < q)
    (h : |x - q| ≤ 10 ^ (exponentOf q - 16) / 2) : |x - q| * twoPow 54 < q := by
  have hstep : (10 : ℚ) ^ exponentOf q = 10 ^ (exponentOf q - 16) * 10 ^ 16 := by
    rw [← zpow_natCast, ← zpow_add₀ (by norm_num)]
    congr 1
    omega
  have htwo : twoPow 54 = 2 ^ 54 := by norm_num [twoPow]
  have hgrid : (0 : ℚ) < 10 ^ (exponentOf q - 16) := by positivity
  have hlo := (exponentOf_bounds hpos).1
  rw [hstep] at hlo
  rw [htwo]
  linarith

/-- The neighbours of a number among the multiples of `g`. -/
theorem floor_toNat_bounds {g : ℚ} (hpos : 0 < q) (hg : 0 < g) :
    (q / g).floor.toNat * g ≤ q ∧ q < ((q / g).floor.toNat + 1) * g := by
  have hfloor : ((q / g).floor.toNat : ℚ) = ⌊q / g⌋ := by
    have hnonneg : 0 ≤ ⌊q / g⌋ := Int.floor_nonneg.mpr (div_pos hpos hg).le
    exact_mod_cast Int.toNat_of_nonneg hnonneg
  rw [hfloor, ← le_div_iff₀ hg, ← div_lt_iff₀ hg]
  exact ⟨Int.floor_le _, Int.lt_floor_add_one _⟩

/-- Of two neighbours on a grid of seventeen digits, the nearer one reads back. -/
theorem neighbour_reads (hq : nearest q = q) (hpos : 0 < q) {g low high : ℚ}
    (hg : g = 10 ^ (exponentOf q - 16)) (hstep : high = low + g) (hlow : low ≤ q)
    (hhigh : q < high) : nearest low = q ∨ nearest high = q := by
  rcases le_total (q - low) (high - q) with h | h
  · refine .inl (nearest_eq_of_close hq hpos (close_of_abs_sub_le hpos ?_))
    rw [abs_sub_comm, abs_of_nonneg (sub_nonneg.mpr hlow), ← hg]
    linarith
  · refine .inr (nearest_eq_of_close hq hpos (close_of_abs_sub_le hpos ?_))
    rw [abs_of_pos (sub_pos.mpr hhigh), ← hg]
    linarith

theorem exists_candidate? (hq : nearest q = q) (hpos : 0 < q) :
    ∃ d, candidate? q (exponentOf q) 17 = some d := by
  obtain ⟨g, hg⟩ : ∃ g, g = (10 : ℚ) ^ (exponentOf q - 16) := ⟨_, rfl⟩
  have hgrid : 0 < g := by rw [hg]; positivity
  obtain ⟨hlow, hhigh⟩ := floor_toNat_bounds hpos hgrid
  have hreads := neighbour_reads hq hpos hg (by ring) hlow hhigh
  have he : exponentOf q - (17 : ℕ) + 1 = exponentOf q - 16 := by omega
  unfold candidate?
  simp only [he, toRat, ← hg]
  push_cast
  split_ifs with h1 h2
  · exact ⟨_, rfl⟩
  · exact ⟨_, rfl⟩
  · rcases hreads with h | h
    · exact absurd ⟨h, .inl h2⟩ h1
    · exact absurd h h2

theorem nearest_shortest (hq : nearest q = q) (hpos : 0 < q) :
    nearest (shortest q).toRat = q := by
  obtain ⟨d, hd⟩ := exists_candidate? hq hpos
  unfold shortest
  dsimp only
  cases hfound : (List.range' 1 17).findSome? (candidate? q (exponentOf q)) with
  | some d =>
    obtain ⟨count, -, hcount⟩ := List.exists_of_findSome?_eq_some hfound
    exact candidate?_reads hcount
  | none =>
    rw [List.findSome?_eq_none_iff] at hfound
    have hnone := hfound 17 (by decide)
    rw [hd] at hnone
    exact absurd hnone (by simp)

end Decimal

end LineWatch
