import Mathlib.Data.Int.Notation
import LineWatch.Time.Date

/-!
# Year, month and day of a date

An era of 400 years that start in March is cut into centuries, these into runs of four years, and
these into years. A leap day is the last one of its year, of a run and of an era, and missing at
the end of the first three centuries. Each day has one place in this order, and with the place
both directions of the calendar are divisions without surprises: a date has a month from 1 to 12,
a day that its month has, and is the date of its year, month and day.
-/

namespace LineWatch

namespace Date

/-- The place of a day in its era: day `t` of year `s` of run `q` of century `c`. -/
structure IsPlace (dayOfEra c q s t : ℤ) : Prop where
  century : 0 ≤ c ∧ c ≤ 3
  run : 0 ≤ q ∧ q ≤ 24
  year : 0 ≤ s ∧ s ≤ 3
  day : 0 ≤ t ∧ t ≤ 365
  leap : t = 365 → s = 3 ∧ (q < 24 ∨ c = 3)
  eq : dayOfEra = 36524 * c + 1461 * q + 365 * s + t

theorem exists_isPlace {n : ℤ} (h : 0 ≤ n ∧ n < daysPerEra) : ∃ c q s t, IsPlace n c q s t := by
  unfold daysPerEra at h
  -- the last day of an era, and that of a run, fall out of a plain division
  obtain ⟨c, hc⟩ : ∃ c, c = min (n / 36524) 3 := ⟨_, rfl⟩
  obtain ⟨r, hr⟩ : ∃ r, r = n - 36524 * c := ⟨_, rfl⟩
  obtain ⟨q, hq⟩ : ∃ q, q = r / 1461 := ⟨_, rfl⟩
  obtain ⟨s, hs⟩ : ∃ s, s = min ((r - 1461 * q) / 365) 3 := ⟨_, rfl⟩
  refine ⟨c, q, s, r - 1461 * q - 365 * s, ?_, ?_, ?_, ?_, ?_, ?_⟩ <;> omega

section

variable {n c q s t : ℤ}

theorem IsPlace.yearOfEra_eq (h : IsPlace n c q s t) :
    (n - n / 1460 + n / 36524 - n / 146096) / 365 = 100 * c + 4 * q + s := by
  obtain ⟨hc, hq, hs, ht, hleap, hn⟩ := h
  -- the three corrections are exact but for the end of a run, of a century and of the era
  have hruns : n / 1460 = 25 * c + q + if 1460 ≤ 24 * c + q + 365 * s + t then 1 else 0 := by
    split <;> omega
  have hcenturies : n / 36524 = c + if 36524 ≤ 1461 * q + 365 * s + t then 1 else 0 := by
    split <;> omega
  have hera : n / 146096 = if 146096 ≤ n then 1 else 0 := by split <;> omega
  rw [hruns, hcenturies, hera]
  split <;> split <;> split <;> omega

theorem IsPlace.dayOfYear_eq (h : IsPlace n c q s t) :
    n - (365 * (100 * c + 4 * q + s) + (100 * c + 4 * q + s) / 4 -
      (100 * c + 4 * q + s) / 100) = t := by
  obtain ⟨hc, hq, hs, ht, hleap, rfl⟩ := h
  omega

end

/-- The month of day `t` of a year that starts in March, and its day of that month. -/
def monthOf (t : ℤ) : ℤ :=
  if (5 * t + 2) / 153 < 10 then (5 * t + 2) / 153 + 3 else (5 * t + 2) / 153 - 9

def dayOf (t : ℤ) : ℤ := t - (153 * ((5 * t + 2) / 153) + 2) / 5 + 1

theorem exists_civil_eq (date : Date) : ∃ era n c q s t, IsPlace n c q s t ∧
    date.day + 719468 = era * daysPerEra + n ∧
    date.civil = ⟨(if monthOf t ≤ 2 then 1 else 0) + (100 * c + 4 * q + s + era * 400),
      monthOf t, dayOf t⟩ := by
  obtain ⟨c, q, s, t, h⟩ := exists_isPlace (n := (date.day + 719468) % daysPerEra)
    ⟨Int.emod_nonneg _ (by decide), Int.emod_lt_of_pos _ (by decide)⟩
  refine ⟨(date.day + 719468) / daysPerEra, _, c, q, s, t, h, (Int.ediv_mul_add_emod _ _).symm, ?_⟩
  simp only [civil, h.yearOfEra_eq, h.dayOfYear_eq, ← monthOf.eq_def, ← dayOf.eq_def,
    Civil.mk.injEq, and_true]
  split <;> omega

theorem monthOf_bounds {t : ℤ} (h : 0 ≤ t ∧ t ≤ 365) : 1 ≤ monthOf t ∧ monthOf t ≤ 12 := by
  unfold monthOf
  split <;> omega

/-- The date of a day of a year that starts in March, from its month and its day of the month. -/
theorem ofCivil_monthOf_dayOf (y : ℤ) {t : ℤ} (h : 0 ≤ t ∧ t ≤ 365) :
    ofCivil ((if monthOf t ≤ 2 then 1 else 0) + y) (monthOf t) (dayOf t) =
      ⟨y / 400 * daysPerEra + (y % 400 * 365 + y % 400 / 4 - y % 400 / 100 + t) - 719468⟩ := by
  have hyear : (if monthOf t ≤ 2 then (if monthOf t ≤ 2 then 1 else 0) + y - 1
      else (if monthOf t ≤ 2 then 1 else 0) + y) = y := by split <;> omega
  have hday : (153 * ((monthOf t + 9) % 12) + 2) / 5 + dayOf t - 1 = t := by
    unfold monthOf dayOf
    split <;> omega
  simp only [ofCivil, hyear, hday]

theorem ofCivil_civil (date : Date) :
    ofCivil date.civil.year date.civil.month date.civil.day = date := by
  obtain ⟨era, n, c, q, s, t, h, hday, hcivil⟩ := exists_civil_eq date
  have hera : (100 * c + 4 * q + s + era * 400) / 400 = era := by
    obtain ⟨hc, hq, hs, -, -, -⟩ := h
    omega
  have hyear : (100 * c + 4 * q + s + era * 400) % 400 = 100 * c + 4 * q + s := by
    obtain ⟨hc, hq, hs, -, -, -⟩ := h
    omega
  rw [hcivil, ofCivil_monthOf_dayOf _ h.day, hera, hyear]
  have ht := h.dayOfYear_eq
  congr 1
  omega

theorem civil_month_bounds (date : Date) : 1 ≤ date.civil.month ∧ date.civil.month ≤ 12 := by
  obtain ⟨era, n, c, q, s, t, h, -, hcivil⟩ := exists_civil_eq date
  rw [hcivil]
  exact monthOf_bounds h.day

theorem dayOf_bounds (year : ℤ) {t : ℤ} (h : 0 ≤ t ∧ t < 365) :
    1 ≤ dayOf t ∧ dayOf t ≤ daysInMonth year (monthOf t) := by
  have hfeb : 28 ≤ if isLeapYear year = true then (29 : ℤ) else 28 := by split <;> omega
  unfold daysInMonth dayOf monthOf
  split <;> split <;> omega

theorem isLeapYear_of_isPlace {n c q s : ℤ} (h : IsPlace n c q s 365) (era : ℤ) :
    isLeapYear (1 + (100 * c + 4 * q + s + era * 400)) = true := by
  obtain ⟨hc, hq, hs, -, hleap, -⟩ := h
  obtain ⟨rfl, hq'⟩ := hleap rfl
  simp only [isLeapYear, Bool.and_eq_true, Bool.or_eq_true, beq_iff_eq, bne_iff_ne]
  omega

theorem civil_day_bounds (date : Date) :
    1 ≤ date.civil.day ∧ date.civil.day ≤ daysInMonth date.civil.year date.civil.month := by
  obtain ⟨era, n, c, q, s, t, h, -, hcivil⟩ := exists_civil_eq date
  rw [hcivil]
  by_cases hlast : t = 365
  · subst hlast
    simp [monthOf, dayOf, daysInMonth, isLeapYear_of_isPlace h era]
  · exact dayOf_bounds _ ⟨h.day.1, by have := h.day.2; omega⟩

theorem civil_year_bounds {date : Date} (h : date.isSupported = true) :
    1 ≤ date.civil.year ∧ date.civil.year ≤ 9999 := by
  obtain ⟨era, n, c, q, s, t, hplace, hday, hcivil⟩ := exists_civil_eq date
  obtain ⟨hc, hq, hs, ht, -, hn⟩ := hplace
  simp only [isSupported, Bool.and_eq_true, decide_eq_true_eq] at h
  rw [hcivil]
  unfold daysPerEra at hday
  simp only [monthOf]
  split <;> split <;> omega

end Date

end LineWatch
