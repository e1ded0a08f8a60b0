import LineWatch.Proofs.Number.Error

/-!
# Milliseconds and back

In the supported years seconds are below `2 ^ 38`, so that binary64 seconds are off by no more than
some microseconds. An instant that is that close to a millisecond counts as this millisecond, and
the instant read off a millisecond is that close to it. It exists for the milliseconds of the
supported years and no others, comes in their order, and lies in the same second.
-/

namespace LineWatch

/-- The first and the last whole millisecond of the supported years. -/
def firstMilli : ℤ := -62135596800000
def lastMilli : ℤ := 253402300799999

variable {micros ms : ℤ}

/-- The two roundings on the way to the milliseconds are off by 2⁻¹⁶ seconds and by 2⁻⁶
milliseconds at most. -/
theorem abs_nearest_millis_sub_le (h : |(micros : ℚ) / 1000000| < twoPow 38) :
    |nearest (nearest ((micros : ℚ) / 1000000) * 1000) - micros / 1000| ≤ 1 / 32 := by
  let seconds := nearest ((micros : ℚ) / 1000000)
  have hseconds : |seconds - micros / 1000000| ≤ twoPow (38 - 53) / 2 :=
    abs_nearest_sub_le_of_abs_lt h (by norm_num)
  have hlt := abs_lt.mp h
  have hs := abs_le.mp hseconds
  norm_num [twoPow] at hlt hs
  have hmillis : |nearest (seconds * 1000) - seconds * 1000| ≤ twoPow (48 - 53) / 2 := by
    refine abs_nearest_sub_le_of_abs_lt ?_ (by norm_num)
    rw [abs_lt]
    norm_num [twoPow]
    constructor <;> linarith
  have hm := abs_le.mp hmillis
  norm_num [twoPow] at hm
  change |nearest (seconds * 1000) - micros / 1000| ≤ 1 / 32
  rw [abs_le]
  constructor <;> linarith

/-- An instant near a millisecond counts as this millisecond. -/
theorem epochMillis_eq_of_near (hms : |(ms : ℚ)| ≤ 253402300800000)
    (h : |(micros : ℚ) - 1000 * ms| ≤ 400) : epochMillis micros = ms := by
  have hms' := abs_le.mp hms
  have hnear := abs_le.mp h
  have hseconds : |(micros : ℚ) / 1000000| < twoPow 38 := by
    rw [abs_lt]
    norm_num [twoPow]
    constructor <;> linarith
  have herr := abs_le.mp (abs_nearest_millis_sub_le hseconds)
  apply roundHalfEven_eq_of_abs_lt
  rw [abs_lt]
  constructor <;> linarith

namespace Instant

/-- The part of the seconds behind the point is less than one second. -/
theorem abs_microsOfSeconds_sub_le (seconds : ℚ) :
    |(microsOfSeconds seconds : ℚ) - seconds * 1000000| ≤ 1 := by
  unfold microsOfSeconds
  let whole : ℤ := if seconds < 0 then -(-seconds).floor else seconds.floor
  have hwhole : |seconds - whole| < 1 := by
    rw [abs_lt]
    simp only [whole]
    split_ifs
    · have h1 := Rat.floor_le (-seconds)
      have h2 := Rat.lt_floor (x := -seconds)
      push_cast
      constructor <;> linarith
    · have h1 := Rat.floor_le seconds
      have h2 := Rat.lt_floor (x := seconds)
      constructor <;> linarith
  have hw := abs_lt.mp hwhole
  let fraction := (seconds - whole) * 1000000
  have hfraction : |nearest fraction - fraction| ≤ twoPow (20 - 53) / 2 := by
    refine abs_nearest_sub_le_of_abs_lt ?_ (by norm_num)
    rw [abs_lt]
    norm_num [twoPow, fraction]
    constructor <;> linarith
  have hf := abs_le.mp hfraction
  norm_num [twoPow] at hf
  have hround := abs_le.mp (abs_sub_roundHalfEven_le (nearest fraction))
  change |((whole * microsPerSecond + roundHalfEven (nearest fraction) : ℤ) : ℚ) -
    seconds * 1000000| ≤ 1
  have hsplit : seconds * 1000000 = whole * 1000000 + fraction := by simp only [fraction]; ring
  rw [hsplit, microsPerSecond, abs_le]
  push_cast
  constructor <;> linarith

theorem abs_microsOfSeconds_nearest_sub_le (hms : |(ms : ℚ)| ≤ 253402300800000) :
    |(microsOfSeconds (nearest ((ms : ℚ) / 1000)) : ℚ) - 1000 * ms| ≤ 20 := by
  have hms' := abs_le.mp hms
  let seconds := nearest ((ms : ℚ) / 1000)
  have hseconds : |seconds - ms / 1000| ≤ twoPow (38 - 53) / 2 := by
    refine abs_nearest_sub_le_of_abs_lt ?_ (by norm_num)
    rw [abs_lt]
    norm_num [twoPow]
    constructor <;> linarith
  have hs := abs_le.mp hseconds
  norm_num [twoPow] at hs
  have hmicros := abs_le.mp (abs_microsOfSeconds_sub_le seconds)
  change |(microsOfSeconds seconds : ℚ) - 1000 * ms| ≤ 20
  rw [abs_le]
  constructor <;> linarith

theorem microsOfSeconds_firstMilli :
    microsOfSeconds (nearest ((firstMilli : ℚ) / 1000)) = firstMicro := by
  decide +kernel

/-- A millisecond of the supported years is that of an instant. -/
theorem exists_ofMillis? (hlo : firstMilli ≤ ms) (hhi : ms ≤ lastMilli) :
    ∃ t, ofMillis? ms = .ok t ∧ t.millis = ms := by
  have hlo' : (-62135596800000 : ℚ) ≤ ms := by exact_mod_cast hlo
  have hhi' : (ms : ℚ) ≤ 253402300799999 := by exact_mod_cast hhi
  have hms : |(ms : ℚ)| ≤ 253402300800000 := abs_le.mpr ⟨by linarith, by linarith⟩
  have herr := abs_microsOfSeconds_nearest_sub_le hms
  have hnear := abs_le.mp herr
  let micros := microsOfSeconds (nearest ((ms : ℚ) / 1000))
  have hsize : ¬twoPow 63 ≤ magnitude (nearest ((ms : ℚ) / 1000)) := by
    rw [not_le, magnitude_eq_abs]
    refine abs_nearest_lt (e := 62) ?_ (by norm_num)
    rw [abs_lt]
    norm_num [twoPow]
    constructor <;> linarith
  have hrange : firstMicro ≤ micros ∧ micros ≤ lastMicro := by
    constructor
    · -- the first millisecond is exact, and the others are too far from it to fall below it
      rcases hlo.eq_or_lt with rfl | hlt
      · exact microsOfSeconds_firstMilli.ge
      · have hlt' : (firstMilli : ℚ) + 1 ≤ ms := by exact_mod_cast hlt
        have : (firstMicro : ℚ) ≤ micros := by
          norm_num [firstMilli] at hlt'
          norm_num [firstMicro]
          linarith
        exact_mod_cast this
    · have : (micros : ℚ) ≤ lastMicro := by
        norm_num [lastMicro]
        linarith
      exact_mod_cast this
  refine ⟨⟨micros, hrange.1, hrange.2⟩, ?_, epochMillis_eq_of_near hms (herr.trans (by norm_num))⟩
  unfold ofMillis?
  dsimp only
  rw [if_neg hsize, ofMicros?, dif_pos hrange]

section

variable {t t' : Instant} {ms' : ℤ}

theorem micros_of_ofMillis? (h : ofMillis? ms = .ok t) :
    t.micros = microsOfSeconds (nearest ((ms : ℚ) / 1000)) := by
  unfold ofMillis? ofMicros? at h
  dsimp only at h
  split_ifs at h
  cases h
  rfl

theorem microsOfSeconds_intCast (n : ℤ) : microsOfSeconds n = n * microsPerSecond := by
  have hwhole : (if (n : ℚ) < 0 then -(-(n : ℚ)).floor else (n : ℚ).floor) = n := by
    split_ifs
    · rw [← Int.cast_neg, Rat.floor_intCast, neg_neg]
    · exact Rat.floor_intCast n
  have hzero : roundHalfEven (nearest 0) = 0 := by decide +kernel
  simp only [microsOfSeconds, hwhole, sub_self, zero_mul, hzero, add_zero]

theorem le_microsOfSeconds {n : ℤ} {q : ℚ} (h0 : 0 ≤ n) (h : (n : ℚ) ≤ q) :
    n * microsPerSecond ≤ microsOfSeconds q := by
  have h0' : (0 : ℚ) ≤ n := by exact_mod_cast h0
  have hq : ¬q < 0 := (h0'.trans h).not_gt
  have hwhole : n ≤ q.floor := Rat.le_floor_iff.mpr h
  have hfraction : 0 ≤ (q - q.floor) * 1000000 := by
    have := Rat.floor_le q
    linarith
  have hround : 0 ≤ roundHalfEven (nearest ((q - q.floor) * 1000000)) := by
    have hzero : roundHalfEven (nearest 0) = 0 := by decide +kernel
    exact hzero ▸ roundHalfEven_mono (nearest_mono hfraction)
  simp only [microsOfSeconds, if_neg hq, microsPerSecond]
  omega

/-- Only milliseconds of the supported years are those of an instant. -/
theorem bounds_of_ofMillis? (h : ofMillis? ms = .ok t) : firstMilli ≤ ms ∧ ms ≤ lastMilli := by
  have hmicros := micros_of_ofMillis? h
  have hlo := t.first_le
  have hhi := t.le_last
  constructor
  · by_contra! hlt
    have hseconds : (ms : ℚ) / 1000 ≤ (firstMilli - 1 : ℤ) / 1000 := by
      have hle : (ms : ℚ) ≤ (firstMilli - 1 : ℤ) := by exact_mod_cast Int.le_sub_one_of_lt hlt
      linarith
    have hbelow : nearest (((firstMilli - 1 : ℤ) : ℚ) / 1000) ≤ firstMilli / 1000 - 1 / 2000 := by
      decide +kernel
    have hrounded := (nearest_mono hseconds).trans hbelow
    have herr := abs_le.mp (abs_microsOfSeconds_sub_le (nearest ((ms : ℚ) / 1000)))
    have hlo' : (firstMicro : ℚ) ≤ t.micros := by exact_mod_cast hlo
    rw [hmicros] at hlo'
    norm_num [firstMicro, firstMilli] at hlo' hrounded
    linarith [herr.2]
  · by_contra! hlt
    have hseconds : ((253402300800 : ℤ) : ℚ) ≤ (ms : ℚ) / 1000 := by
      have hle : ((lastMilli + 1 : ℤ) : ℚ) ≤ ms := by exact_mod_cast hlt
      norm_num [lastMilli] at hle
      norm_num
      linarith
    have hexact : nearest ((253402300800 : ℤ) : ℚ) = (253402300800 : ℤ) :=
      nearest_intCast (by norm_num [twoPow])
    have hle := le_microsOfSeconds (by norm_num) (hexact ▸ nearest_mono hseconds)
    rw [← hmicros] at hle
    norm_num [microsPerSecond] at hle
    norm_num [lastMicro] at hhi
    omega

theorem millis_of_ofMillis? (h : ofMillis? ms = .ok t) : t.millis = ms := by
  obtain ⟨hlo, hhi⟩ := bounds_of_ofMillis? h
  obtain ⟨t', ht', hmillis⟩ := exists_ofMillis? hlo hhi
  rw [ht'] at h
  exact Except.ok.inj h ▸ hmillis

theorem micros_bounds_of_ofMillis? (h : ofMillis? ms = .ok t) :
    1000 * ms - 20 ≤ t.micros ∧ t.micros ≤ 1000 * ms + 20 := by
  obtain ⟨hlo, hhi⟩ := bounds_of_ofMillis? h
  have hlo' : (-62135596800000 : ℚ) ≤ ms := by exact_mod_cast hlo
  have hhi' : (ms : ℚ) ≤ 253402300799999 := by exact_mod_cast hhi
  have hnear := abs_le.mp <| abs_microsOfSeconds_nearest_sub_le <|
    abs_le.mpr ⟨by linarith, by linarith⟩
  rw [← micros_of_ofMillis? h] at hnear
  have hbelow : ((1000 * ms - 20 : ℤ) : ℚ) ≤ t.micros := by push_cast; linarith [hnear.1]
  have habove : (t.micros : ℚ) ≤ (1000 * ms + 20 : ℤ) := by push_cast; linarith [hnear.2]
  exact ⟨by exact_mod_cast hbelow, by exact_mod_cast habove⟩

theorem ofMillis?_mono (h : ofMillis? ms = .ok t) (h' : ofMillis? ms' = .ok t')
    (hle : ms ≤ ms') : t ≤ t' := by
  rcases hle.eq_or_lt with rfl | hlt
  · rw [h] at h'
    exact Except.ok.inj h' ▸ Instant.le_refl t
  · have hbelow := (micros_bounds_of_ofMillis? h).2
    have habove := (micros_bounds_of_ofMillis? h').1
    change t.micros ≤ t'.micros
    omega

/-- The instant of a millisecond lies in the second of this millisecond. -/
theorem micros_ediv_of_ofMillis? (h : ofMillis? ms = .ok t) :
    t.micros / microsPerSecond = ms / 1000 := by
  obtain ⟨hlo, hhi⟩ := micros_bounds_of_ofMillis? h
  unfold microsPerSecond
  by_cases hwhole : ms % 1000 = 0
  · -- a whole second is a binary64 number, and so is exact
    obtain ⟨hfirst, hlast⟩ := bounds_of_ofMillis? h
    have hseconds : (ms : ℚ) / 1000 = (ms / 1000 : ℤ) := by
      have hms : ((1000 * (ms / 1000) : ℤ) : ℚ) = ms := by
        exact_mod_cast Int.mul_ediv_cancel' (Int.dvd_of_emod_eq_zero hwhole)
      push_cast at hms
      linarith
    have hsmall : |((ms / 1000 : ℤ) : ℚ)| < twoPow 53 := by
      have hbound : |ms / 1000| < 9007199254740992 := by
        unfold firstMilli at hfirst
        unfold lastMilli at hlast
        rw [abs_lt]
        omega
      have hbound' : |((ms / 1000 : ℤ) : ℚ)| < 9007199254740992 := by exact_mod_cast hbound
      exact hbound'.trans_eq (by norm_num [twoPow])
    rw [micros_of_ofMillis? h, hseconds, nearest_intCast hsmall, microsOfSeconds_intCast,
      microsPerSecond]
    omega
  · omega

end

theorem firstMilli_le_millis (t : Instant) : firstMilli ≤ t.millis := by
  have h : epochMillis firstMicro = firstMilli := by decide +kernel
  rw [← h]
  exact epochMillis_mono t.first_le

theorem millis_le_succ_lastMilli (t : Instant) : t.millis ≤ lastMilli + 1 := by
  have h : epochMillis lastMicro = lastMilli + 1 := by decide +kernel
  rw [← h]
  exact epochMillis_mono t.le_last

/-- A number of milliseconds has an instant exactly if it lies in the supported years, and the
instant counts as that very millisecond, whatever the two directions have rounded. -/
theorem millis_ofMillis? (ms : ℤ) :
    (ofMillis? ms).toOption.map millis =
      if firstMicro ≤ 1000 * ms ∧ 1000 * ms ≤ lastMicro then some ms else none := by
  have hrange : firstMicro ≤ 1000 * ms ∧ 1000 * ms ≤ lastMicro ↔
      firstMilli ≤ ms ∧ ms ≤ lastMilli := by
    unfold firstMicro lastMicro firstMilli lastMilli
    omega
  rw [if_congr hrange rfl rfl]
  split_ifs with hms
  · obtain ⟨t, ht, hmillis⟩ := exists_ofMillis? hms.1 hms.2
    rw [ht, Except.toOption, Option.map_some, hmillis]
  · cases hof : ofMillis? ms with
    | error e => rfl
    | ok t => exact absurd (bounds_of_ofMillis? hof) hms

/-- Far from 1970 the seconds are off, here by seven microseconds. -/
example :
    (ofMillis? lastMilli).toOption.map (·.micros) = some (1000 * lastMilli - 7) := by
  decide +kernel

end Instant

end LineWatch
