import LineWatch.Proofs.Kpi.Days

/-!
# Midnights of a zone

A zone whose clocks never skip over a midnight, apart from its own instant, has no midnight after
an instant of its date, and if its offsets differ by no more than a day, then its midnights come in
the order of the dates. All zones known by name are of this kind.
-/

namespace LineWatch.Zone

variable {zone : Zone} {x wall current : ℤ} {changes : List OffsetChange}

def secondsPerDay : ℤ := 86400

/-- No midnight lies strictly between the two ends of a skipped time. -/
def keepsMidnights : (current : ℤ) → List OffsetChange → Bool
  | _, [] => true
  | current, c :: rest =>
    (c.offset ≤ current ||
      (c.utc + current) / secondsPerDay == (c.utc + c.offset - 1) / secondsPerDay) &&
      keepsMidnights c.offset rest

def offsets (zone : Zone) : List ℤ := zone.initial :: zone.changes.map (·.offset)

def isRegular (zone : Zone) : Bool :=
  keepsMidnights zone.initial zone.changes &&
    zone.offsets.all fun a => zone.offsets.all fun b => b - a ≤ secondsPerDay

/-- A midnight that is not after the local time of an instant is not after the instant. -/
theorem sub_wallOffsetFrom_le (hkeep : keepsMidnights current changes = true)
    (hmidnight : microsPerDay ∣ wall)
    (hle : wall ≤ x + offsetFrom x current changes * microsPerSecond) :
    wall - wallOffsetFrom wall current changes * microsPerSecond ≤ x := by
  induction changes generalizing current with
  | nil =>
    simp only [offsetFrom, wallOffsetFrom] at *
    omega
  | cons c rest ih =>
    simp only [keepsMidnights, Bool.and_eq_true, Bool.or_eq_true, decide_eq_true_eq, beq_iff_eq]
      at hkeep
    obtain ⟨hgap, hkeep⟩ := hkeep
    unfold offsetFrom at hle
    unfold wallOffsetFrom
    by_cases hpassed : c.utc * microsPerSecond ≤ x
    · rw [if_pos hpassed] at hle
      split_ifs with hread
      · exact ih hkeep hle
      · -- the wall time is read with the offset before the change, the instant is after it
        obtain ⟨day, hday⟩ := hmidnight
        simp only [microsPerSecond, microsPerDay, secondsPerDay] at *
        omega
    · rw [if_neg hpassed] at hle
      have hread : ¬(c.utc + max current c.offset) * microsPerSecond ≤ wall := by
        simp only [microsPerSecond] at *
        omega
      rw [if_neg hread]
      omega

theorem wallOffsetFrom_mem (wall current : ℤ) (changes : List OffsetChange) :
    wallOffsetFrom wall current changes ∈ current :: changes.map (·.offset) := by
  induction changes generalizing current with
  | nil => exact List.mem_cons_self
  | cons c rest ih =>
    unfold wallOffsetFrom
    split_ifs
    · exact List.mem_cons_of_mem _ (ih c.offset)
    · exact List.mem_cons_self

theorem instantOfWall_le (h : zone.isRegular = true) {wall' : ℤ} (hle : wall + microsPerDay ≤ wall') :
    zone.instantOfWall wall ≤ zone.instantOfWall wall' := by
  simp only [isRegular, Bool.and_eq_true, List.all_eq_true, decide_eq_true_eq] at h
  have hnear := h.2 _ (wallOffsetFrom_mem wall zone.initial zone.changes)
    _ (wallOffsetFrom_mem wall' zone.initial zone.changes)
  simp only [instantOfWall, microsPerSecond, microsPerDay, secondsPerDay] at *
  omega

theorem regular_calendar (h : zone.isRegular = true) : zone.calendar.Regular where
  midnight_mono d d' _ _ hle := by
    change zone.instantOfWall (d.day * microsPerDay) ≤ zone.instantOfWall (d'.day * microsPerDay)
    rcases hle.eq_or_lt with he | hlt
    · rw [he]
    · apply instantOfWall_le h
      simp only [microsPerDay]
      omega
  midnight_le t _ := by
    have hkeep : keepsMidnights zone.initial zone.changes = true := by
      simp only [isRegular, Bool.and_eq_true] at h
      exact h.1
    refine sub_wallOffsetFrom_le hkeep (dvd_mul_left _ _) ?_
    exact Int.ediv_mul_le _ (by decide)

theorem exists_mem_table {name : Option String} (h : ofName? name = some zone) :
    ∃ key, (key, zone) ∈ table := by
  unfold ofName? at h
  split at h
  · cases h
    exact ⟨"UTC", by decide⟩
  · cases h
    exact ⟨"UTC", by decide⟩
  · next key _ =>
    obtain ⟨before, after, htable, -⟩ := List.lookup_eq_some_iff.mp h
    exact ⟨key, by rw [htable]; simp⟩

theorem isRegular_of_ofName? {name : Option String} (h : ofName? name = some zone) :
    zone.isRegular = true := by
  have htable : ∀ entry ∈ table, entry.2.isRegular = true := by decide
  obtain ⟨key, hmem⟩ := exists_mem_table h
  exact htable _ hmem

/-- Every zone that has a name splits time regularly into days. -/
theorem regular_of_ofName? {name : Option String} (h : ofName? name = some zone) :
    zone.calendar.Regular := regular_calendar (isRegular_of_ofName? h)

end LineWatch.Zone
