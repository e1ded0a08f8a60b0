import LineWatch.Proofs.Time.ZoneMidnight

/-!
# Dates of a zone

The date of a zone changes with whole seconds. It never goes back if no change of the offset puts
the clocks back to the day before. All zones known by name are of this kind, and as their offsets
are less than a day, the dates of a window that keeps away from the ends of the supported years
are supported.
-/

namespace LineWatch.Zone

variable {zone : Zone} {x y current : ℤ} {changes : List OffsetChange} {name : Option String}

theorem offsetFrom_eq_of_ediv_eq (h : x / microsPerSecond = y / microsPerSecond) (current : ℤ)
    (changes : List OffsetChange) :
    offsetFrom x current changes = offsetFrom y current changes := by
  induction changes generalizing current with
  | nil => rfl
  | cons c rest ih =>
    have hpassed : c.utc * microsPerSecond ≤ x ↔ c.utc * microsPerSecond ≤ y := by
      simp only [microsPerSecond] at *
      omega
    simp only [offsetFrom, hpassed, ih]

/-- The local date of an instant is that of its second. -/
theorem dateAt_eq_of_ediv_eq (zone : Zone) (h : x / microsPerSecond = y / microsPerSecond) :
    zone.calendar.dateAt x = zone.calendar.dateAt y := by
  have hoffset : zone.offsetAt x = zone.offsetAt y := offsetFrom_eq_of_ediv_eq h _ _
  simp only [calendar, hoffset, Date.mk.injEq]
  simp only [microsPerSecond, microsPerDay] at *
  omega

/-- The changes come in the order of time, and none puts the clocks back to the day before. -/
def keepsDates : (current : ℤ) → List OffsetChange → Bool
  | _, [] => true
  | current, c :: rest =>
    (c.utc + current - 1) / secondsPerDay ≤ (c.utc + c.offset) / secondsPerDay &&
      rest.all (c.utc < ·.utc) && keepsDates c.offset rest

/-- The number of the day at an instant with that offset. -/
def localDay (x offset : ℤ) : ℤ := (x + offset * microsPerSecond) / microsPerDay

theorem localDay_mono (h : x ≤ y) (offset : ℤ) : localDay x offset ≤ localDay y offset :=
  Int.ediv_le_ediv (by decide) (by omega)

theorem offsetFrom_of_lt (h : ∀ c ∈ changes, x < c.utc * microsPerSecond) :
    offsetFrom x current changes = current := by
  cases changes with
  | nil => rfl
  | cons c rest => rw [offsetFrom, if_neg (not_le.mpr (h c List.mem_cons_self))]

theorem localDay_offsetFrom_mono (hkeep : keepsDates current changes = true) (h : x ≤ y) :
    localDay x (offsetFrom x current changes) ≤ localDay y (offsetFrom y current changes) := by
  induction changes generalizing current x with
  | nil => exact localDay_mono h current
  | cons c rest ih =>
    simp only [keepsDates, Bool.and_eq_true, decide_eq_true_eq, List.all_eq_true] at hkeep
    obtain ⟨⟨hback, hlater⟩, hkeep⟩ := hkeep
    unfold offsetFrom
    by_cases hx : c.utc * microsPerSecond ≤ x
    · rw [if_pos hx, if_pos (hx.trans h)]
      exact ih hkeep h
    · rw [if_neg hx]
      split_ifs with hy
      · -- the change lies between the two instants
        have hat : offsetFrom (c.utc * microsPerSecond) c.offset rest = c.offset :=
          offsetFrom_of_lt fun d hd => mul_lt_mul_of_pos_right (hlater d hd) (by decide)
        have hafter := ih hkeep hy
        rw [hat] at hafter
        refine le_trans ?_ hafter
        simp only [localDay, microsPerSecond, microsPerDay, secondsPerDay] at *
        omega
      · exact localDay_mono h current

/-- The dates of a zone do not go back if the clocks never go back a day. -/
theorem chronological_calendar (h : zone.isRegular = true)
    (hkeep : keepsDates zone.initial zone.changes = true) : zone.calendar.Chronological where
  toRegular := regular_calendar h
  dateAt_mono _ _ hle := localDay_offsetFrom_mono hkeep hle

/-- The date of every zone that has a name never goes back. -/
theorem chronological_of_ofName? (h : ofName? name = some zone) :
    zone.calendar.Chronological := by
  have htable : ∀ entry ∈ table, keepsDates entry.2.initial entry.2.changes = true := by decide
  obtain ⟨key, hmem⟩ := exists_mem_table h
  exact chronological_calendar (isRegular_of_ofName? h) (htable _ hmem)

theorem offsets_lt_of_ofName? (h : ofName? name = some zone) :
    ∀ o ∈ zone.offsets, -secondsPerDay < o ∧ o < secondsPerDay := by
  have htable : ∀ entry ∈ table, ∀ o ∈ entry.2.offsets,
      -secondsPerDay < o ∧ o < secondsPerDay := by decide
  obtain ⟨key, hmem⟩ := exists_mem_table h
  exact htable _ hmem

theorem offsetFrom_mem (x current : ℤ) (changes : List OffsetChange) :
    offsetFrom x current changes ∈ current :: changes.map (·.offset) := by
  induction changes generalizing current with
  | nil => exact List.mem_cons_self
  | cons c rest ih =>
    unfold offsetFrom
    split_ifs
    · exact List.mem_cons_of_mem _ (ih c.offset)
    · exact List.mem_cons_self

/-- In a zone that has a name, a window needs to keep away from the ends of the supported years by
two days at most. -/
theorem spans_of_ofName? (h : ofName? name = some zone) {start stop : ℤ}
    (hstart : firstMilli + millisPerDay ≤ start) (hstop : stop ≤ lastMilli - 2 * millisPerDay) :
    zone.calendar.Spans start stop where
  dates ms t hlo hhi ht := by
    have hoffset := offsets_lt_of_ofName? h _
      (offsetFrom_mem t.micros zone.initial zone.changes)
    obtain ⟨hbelow, habove⟩ := Instant.micros_bounds_of_ofMillis? ht
    simp only [Date.isSupported_iff, calendar, offsetAt]
    simp only [firstMilli, lastMilli, millisPerDay, millisPerHour, microsPerSecond, microsPerDay,
      secondsPerDay] at *
    omega
  last := by
    let last : Date := ⟨2932896⟩
    have hoffset := offsets_lt_of_ofName? h _
      (wallOffsetFrom_mem (last.day * microsPerDay) zone.initial zone.changes)
    have hmidnight : 253402300800000000 - 2 * microsPerDay ≤ zone.calendar.midnight last := by
      simp only [calendar, instantOfWall, last, microsPerSecond, microsPerDay, secondsPerDay] at *
      omega
    have heval : epochMillis (253402300800000000 - 2 * microsPerDay) =
        lastMilli + 1 - 2 * millisPerDay := by decide +kernel
    have hmono := epochMillis_mono hmidnight
    rw [heval] at hmono
    refine ⟨last, by decide, le_trans ?_ hmono⟩
    omega

end LineWatch.Zone
