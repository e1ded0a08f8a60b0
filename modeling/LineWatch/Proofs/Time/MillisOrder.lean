import LineWatch.Proofs.Time.Millis

/-!
# Milliseconds in the order of time

A later instant never has an earlier millisecond, whatever the two offsets from UTC. The
millisecond of an instant is at most 531 microseconds away from it, half a millisecond for the last
rounding and the rest for binary64, so instants that are two milliseconds apart have different ones.
One millisecond would not do, as a half goes to the even neighbour from both sides.
-/

namespace LineWatch

/-- The microseconds of a wall-clock time of the supported years, with an offset from UTC that is
less than a day and need not be a whole number of minutes. -/
def IsMoment (micros : ℤ) : Prop :=
  ∃ wall offset : ℤ, (firstMicro ≤ wall ∧ wall ≤ lastMicro) ∧ |offset| < microsPerDay ∧
    micros = wall - offset

theorem Timestamp.isMoment (t : Timestamp) : IsMoment t.micros := by
  refine ⟨t.wall, t.offset.getD 0 * microsPerMinute, ⟨t.first_le, t.le_last⟩, ?_, rfl⟩
  unfold microsPerMinute microsPerDay
  rw [abs_lt]
  cases ho : t.offset with
  | none => norm_num
  | some o =>
    have hlt := t.offset_lt o ho
    simp only [Option.getD_some]
    omega

section

variable {x y : ℤ}

theorem IsMoment.abs_seconds_lt (h : IsMoment x) : |(x : ℚ) / 1000000| < twoPow 38 := by
  obtain ⟨wall, offset, ⟨hfirst, hlast⟩, hoffset, rfl⟩ := h
  rw [abs_lt] at hoffset
  unfold firstMicro at hfirst
  unfold lastMicro at hlast
  unfold microsPerDay at hoffset
  have hbound : |wall - offset| < 270000000000000000 := by
    rw [abs_lt]
    omega
  have hbound' : |((wall - offset : ℤ) : ℚ)| < 270000000000000000 := by exact_mod_cast hbound
  calc |((wall - offset : ℤ) : ℚ) / 1000000| = |((wall - offset : ℤ) : ℚ)| / 1000000 := by
        rw [abs_div, abs_of_pos (a := 1000000) (by norm_num)]
    _ < 270000000000 := by linarith
    _ < twoPow 38 := by norm_num [twoPow]

/-- A moment is at most 531 microseconds away from its millisecond. -/
theorem IsMoment.epochMillis_bounds (h : IsMoment x) :
    x - 531 ≤ 1000 * epochMillis x ∧ 1000 * epochMillis x ≤ x + 531 := by
  have hvalue := abs_le.mp (abs_nearest_millis_sub_le h.abs_seconds_lt)
  have hround := abs_le.mp
    (abs_sub_roundHalfEven_le (nearest (nearest ((x : ℚ) / 1000000) * 1000)))
  have hlo : (x : ℚ) - 532 < 1000 * epochMillis x := by
    unfold epochMillis
    linarith
  have hhi : (1000 : ℚ) * epochMillis x < x + 532 := by
    unfold epochMillis
    linarith
  have hlo' : x - 532 < 1000 * epochMillis x := by exact_mod_cast hlo
  have hhi' : 1000 * epochMillis x < x + 532 := by exact_mod_cast hhi
  omega

/-- Moments that share their millisecond are less than 1063 microseconds apart. -/
theorem epochMillis_lt_of_add_le (hx : IsMoment x) (hy : IsMoment y) (h : x + 1063 ≤ y) :
    epochMillis x < epochMillis y := by
  have hbelow := hx.epochMillis_bounds.2
  have habove := hy.epochMillis_bounds.1
  omega

end

/-- The milliseconds of moments are in the order of the moments, and those of moments at least two
milliseconds apart are different. In particular this is so for timestamps with any offsets. -/
theorem epochMillis_keeps_order :
    (∀ x y : ℤ, IsMoment x → IsMoment y → x ≤ y →
      epochMillis x ≤ epochMillis y ∧ (x + 2000 ≤ y → epochMillis x < epochMillis y)) ∧
    ∀ s t : Timestamp, s.micros ≤ t.micros →
      s.millis ≤ t.millis ∧ (s.micros + 2000 ≤ t.micros → s.millis < t.millis) := by
  have hmoments (x y : ℤ) (hx : IsMoment x) (hy : IsMoment y) (hle : x ≤ y) :
      epochMillis x ≤ epochMillis y ∧ (x + 2000 ≤ y → epochMillis x < epochMillis y) := by
    refine ⟨epochMillis_mono hle, fun hapart => ?_⟩
    have hgap : x + 1063 ≤ y := by omega
    exact epochMillis_lt_of_add_le hx hy hgap
  exact ⟨hmoments, fun s t hle => hmoments s.micros t.micros s.isMoment t.isMoment hle⟩

/-- Two milliseconds before the end of the supported years, half an hour ahead of UTC. -/
def lastEvening : Timestamp := ⟨lastMicro - 2000, some 30, by decide, by decide, by decide⟩

/-- Two milliseconds later, on a clock one hour behind UTC. -/
def lastEveningWest : Timestamp :=
  ⟨lastMicro - 90 * microsPerMinute, some (-60), by decide, by decide, by decide⟩

/-- The first moment of a clock 53 minutes and 28 seconds ahead, and the last evening. -/
theorem epochMillis_keeps_order_at_edges :
    let earliest := firstMicro - 3208 * microsPerSecond
    (IsMoment earliest ∧ IsMoment (earliest + 2000) ∧
        epochMillis earliest < epochMillis (earliest + 2000)) ∧
      lastEvening.micros + 2000 ≤ lastEveningWest.micros ∧
        lastEvening.millis < lastEveningWest.millis := by
  intro earliest
  have hearliest : IsMoment earliest :=
    ⟨firstMicro, 3208 * microsPerSecond, by decide, by decide, rfl⟩
  have hnext : IsMoment (earliest + 2000) :=
    ⟨firstMicro + 2000, 3208 * microsPerSecond, by decide, by decide, by decide⟩
  obtain ⟨hmoments, htimestamps⟩ := epochMillis_keeps_order
  refine ⟨⟨hearliest, hnext, ?_⟩, by decide, ?_⟩
  · exact (hmoments earliest (earliest + 2000) hearliest hnext (by omega)).2 le_rfl
  · exact (htimestamps lastEvening lastEveningWest (by decide)).2 (by decide)

/-- One millisecond is not enough: both halves go to the even neighbour between them. -/
example : epochMillis 1500 = epochMillis 2500 := by decide +kernel

end LineWatch
