import LineWatch.Connection.Backoff
import LineWatch.Proofs.Number.Error

/-!
# Growing delays

A product is rounded, so a delay that is multiplied by a factor of at least one could come out
smaller if the delay were not a binary64 number itself. All delays are: rounding what is rounded
already changes nothing. Hence they stay between the floor and the ceiling, and growth never makes
one smaller.
-/

namespace LineWatch

/-- If rounding gains a power of two, it ends at that power. -/
theorem abs_nearest_of_ulp_lt {q : ℚ} (hq : q ≠ 0) (h : ulp q < ulp (nearest q))
    (hx : nearest q ≠ 0) : |nearest q| = twoPow (binaryExponent (nearest q)) := by
  have hlt := twoPow_lt_iff.mp h
  have hbelow : |q| ≤ twoPow (binaryExponent (nearest q)) :=
    (binaryExponent_bounds hq).2.le.trans (twoPow_le_twoPow (by omega))
  obtain ⟨k, hk⟩ : ∃ k : ℤ, twoPow (binaryExponent (nearest q)) = k * ulp q :=
    twoPow_eq_mul (by omega)
  have hle := nearest_le_of_le_mul k (hk ▸ (abs_le.mp hbelow).2)
  have hge : ((-k : ℤ) : ℚ) * ulp q ≤ nearest q := by
    refine le_nearest_of_mul_le (-k) ?_
    push_cast
    linarith [(abs_le.mp hbelow).1]
  refine le_antisymm (abs_le.mpr ⟨?_, hle.trans hk.ge⟩) (binaryExponent_bounds hx).1
  push_cast at hge
  linarith

theorem nearest_nearest (q : ℚ) : nearest (nearest q) = nearest q := by
  have hmultiple : nearest q = roundHalfEven (q / ulp q) * ulp q := rfl
  by_cases hx : nearest q = 0
  · exact nearest_eq_self 0 (by simp [hx])
  have hq : q ≠ 0 := by
    rintro rfl
    exact hx (nearest_eq_self 0 (by simp))
  -- The grid at the rounded number is at least as fine as before, unless rounding has gained a
  -- power of two.
  rcases le_or_gt (ulp (nearest q)) (ulp q) with hle | hlt
  · have hexponents : max (binaryExponent (nearest q) - 52) (-1074) ≤
        max (binaryExponent q - 52) (-1074) := by
      by_contra! hgt
      exact absurd (twoPow_lt_iff.mpr hgt) (not_lt.mpr hle)
    obtain ⟨m, hm⟩ : ∃ m : ℤ, ulp q = m * ulp (nearest q) := twoPow_eq_mul hexponents
    refine nearest_eq_self (roundHalfEven (q / ulp q) * m) ?_
    rw [Int.cast_mul, mul_assoc, ← hm]
    exact hmultiple
  · have habs := abs_nearest_of_ulp_lt hq hlt hx
    have hexponents := twoPow_lt_iff.mp hlt
    obtain ⟨m, hm⟩ : ∃ m : ℤ, twoPow (binaryExponent (nearest q)) = m * ulp (nearest q) :=
      twoPow_eq_mul (by omega)
    rcases (abs_eq (twoPow_pos _).le).mp habs with h | h
    · exact nearest_eq_self m (h.trans hm)
    · exact nearest_eq_self (-m) (by push_cast; linarith)

namespace Binary64

/-- A number that can be held without another rounding. -/
def IsRounded : Binary64 → Prop
  | .finite q => ofRat q = .finite q
  | _ => True

theorem isRounded_ofRat (q : ℚ) : (ofRat q).IsRounded := by
  unfold ofRat
  dsimp only
  split_ifs with hbig hzero
  · trivial
  · trivial
  · unfold IsRounded ofRat
    dsimp only
    rw [nearest_nearest, if_neg hbig, if_neg]
    rintro ⟨h, hneg⟩
    exact hneg.ne h

theorem le_trans {x y z : Binary64} (hxy : x.le y = true) (hyz : y.le z = true) :
    x.le z = true := by
  cases x <;> cases y <;> cases z <;> simp_all [le, lt, toRat?] <;> grind

theorem le_smaller {x y z : Binary64} (hy : x.le y = true) (hz : x.le z = true) :
    x.le (y.smaller z) = true := by
  unfold smaller
  split
  · exact hz
  · exact hy

theorem smaller_le {y z : Binary64} (hy : y ≠ .nan) (hz : z ≠ .nan) :
    (y.smaller z).le z = true := by
  unfold smaller
  cases y <;> cases z <;> simp_all [le, lt, toRat?] <;> grind

theorem ne_nan_of_le {x y : Binary64} (h : x.le y = true) : x ≠ .nan ∧ y ≠ .nan := by
  cases x <;> cases y <;> simp_all [le]

theorem finite_le_finite {p q : ℚ} :
    (Binary64.finite p).le (Binary64.finite q) = true ↔ p ≤ q := by
  change (!decide (q < p)) = true ↔ p ≤ q
  simp

theorem finite_lt_finite {p q : ℚ} :
    (Binary64.finite p).lt (Binary64.finite q) = true ↔ p < q := by
  change decide (p < q) = true ↔ p < q
  exact decide_eq_true_iff

theorem zero_lt_iff {x : Binary64} :
    zero.lt x = true ↔ (∃ p, 0 < p ∧ x = .finite p) ∨ x = .infinite false := by
  cases x with
  | finite q => simp [zero, finite_lt_finite]
  | negativeZero | infinite | nan => simp [lt, zero, toRat?]

theorem one_le_iff {x : Binary64} :
    (Binary64.finite 1).le x = true ↔ (∃ p, 1 ≤ p ∧ x = .finite p) ∨ x = .infinite false := by
  cases x with
  | finite q => simp [finite_le_finite]
  | negativeZero | infinite | nan => simp [le, lt, toRat?]

theorem le_ofRat {p q : ℚ} (hp : IsRounded (.finite p)) (hpos : 0 < p) (h : p ≤ q) :
    (Binary64.finite p).le (ofRat q) = true := by
  have hp' : nearest p = p := by
    unfold IsRounded ofRat at hp
    dsimp only at hp
    split_ifs at hp
    exact Binary64.finite.inj hp
  have hle : p ≤ nearest q := hp' ▸ nearest_mono h
  have hq : ¬q < 0 := not_lt.mpr (hpos.le.trans h)
  unfold ofRat
  dsimp only
  split_ifs with hbig hzero
  · simp [le, lt, hq]
  · exact absurd hzero.2 hq
  · exact finite_le_finite.mpr hle

/-- A positive number does not shrink when it is multiplied by a factor of at least one. -/
theorem mul_grows {x y : Binary64} (hx : x.IsRounded) (hpos : zero.lt x = true)
    (hy : (Binary64.finite 1).le y = true) : x.le (x.mul y) = true ∧ (x.mul y).IsRounded := by
  rcases zero_lt_iff.mp hpos with ⟨p, hp, rfl⟩ | rfl
  · rcases one_le_iff.mp hy with ⟨q, hq, rfl⟩ | rfl
    · have hne : p * q ≠ 0 := (mul_pos hp (by linarith)).ne'
      have hproduct : (Binary64.finite p).mul (.finite q) = ofRat (p * q) := by
        simp [mul, toRat?, hne]
      rw [hproduct]
      exact ⟨le_ofRat hx hp (le_mul_of_one_le_right hp.le hq), isRounded_ofRat _⟩
    · have hproduct : (Binary64.finite p).mul (.infinite false) = .infinite false := by
        simp [mul, toRat?, isNegative, hp.ne', hp.le]
      rw [hproduct]
      exact ⟨rfl, trivial⟩
  · have hproduct : (Binary64.infinite false).mul y = .infinite false := by
      rcases one_le_iff.mp hy with ⟨q, hq, rfl⟩ | rfl
      · have hq' : 0 < q := by linarith
        simp [mul, toRat?, isNegative, hq'.ne', hq'.le]
      · rfl
    rw [hproduct]
    exact ⟨rfl, trivial⟩

theorem zero_lt_of_le {x y : Binary64} (hx : zero.lt x = true) (h : x.le y = true) :
    zero.lt y = true := by
  cases x <;> cases y <;> simp_all [le, lt, toRat?, zero] <;> grind

end Binary64

namespace Backoff

/-- The delay that follows on a delay. -/
def grown (b : Backoff) (delay : Binary64) : Binary64 :=
  (delay.mul b.multiplier).smaller b.ceiling

/-- What a backoff of actual numbers goes by: a positive floor, a ceiling that is not below it, and
a factor of at least one. -/
structure Sound (b : Backoff) : Prop where
  floor : b.floor.IsRounded
  ceiling : b.ceiling.IsRounded
  positive : Binary64.zero.lt b.floor = true
  ordered : b.floor.le b.ceiling = true
  growing : (Binary64.finite 1).le b.multiplier = true

/-- A delay as a sound backoff gives it. -/
structure Within (b : Backoff) (delay : Binary64) : Prop where
  rounded : delay.IsRounded
  floor : b.floor.le delay = true
  ceiling : delay.le b.ceiling = true

variable {b : Backoff} {delay : Binary64}

theorem eq_of_new {floor ceiling multiplier : Binary64}
    (h : Backoff.new floor ceiling multiplier = .ok b) : b = { b with delay := b.floor } := by
  unfold Backoff.new at h
  split_ifs at h
  obtain rfl := Except.ok.inj h
  rfl

theorem Sound.within_floor (h : b.Sound) : b.Within b.floor where
  rounded := h.floor
  floor := by
    rcases Binary64.zero_lt_iff.mp h.positive with ⟨p, -, hp⟩ | hp
    · rw [hp, Binary64.finite_le_finite]
    · rw [hp]
      rfl
  ceiling := h.ordered

theorem Sound.mul_grows (h : b.Sound) (hdelay : b.Within delay) :
    delay.le (delay.mul b.multiplier) = true ∧ (delay.mul b.multiplier).IsRounded :=
  Binary64.mul_grows hdelay.rounded (Binary64.zero_lt_of_le h.positive hdelay.floor) h.growing

theorem Sound.le_grown (h : b.Sound) (hdelay : b.Within delay) :
    delay.le (b.grown delay) = true :=
  Binary64.le_smaller (h.mul_grows hdelay).1 hdelay.ceiling

theorem Sound.within_grown (h : b.Sound) (hdelay : b.Within delay) : b.Within (b.grown delay) where
  rounded := by
    unfold grown Binary64.smaller
    split
    · exact h.ceiling
    · exact (h.mul_grows hdelay).2
  floor := Binary64.le_trans hdelay.floor (h.le_grown hdelay)
  ceiling := Binary64.smaller_le (Binary64.ne_nan_of_le (h.mul_grows hdelay).1).2
    (Binary64.ne_nan_of_le h.ordered).2

end Backoff

end LineWatch
