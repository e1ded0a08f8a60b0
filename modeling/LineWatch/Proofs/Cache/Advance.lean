import LineWatch.Proofs.Cache.Replay

/-!
# Changes newer than all that is known

A change that is later than what its line shows and than every record of the log is never a
duplicate and never stale. The one thing that can keep it out is its key: a key has the millisecond
of a change and not its instant, so a record of the same millisecond and the same status hides the
change, even if another status has come between the two.
-/

namespace LineWatch

namespace LineEntry

variable {id : String} {e : LineEntry} {c : StatusChange} {retention : Retention}

/-- Later than what the line shows, and than every record of its log. -/
structure Before (e : LineEntry) (c : StatusChange) : Prop where
  shown : ∀ line ∈ e.line?, ∀ last ∈ line.lastStatusUpdate, last < c.time
  logged : ∀ r ∈ e.log, r.time < c.time

theorem Before.judge_applied_iff (h : e.Before c) (hr : e.Recorded id) :
    e.judge c = .applied ↔ ∀ r ∈ e.log, r.millis = c.millis → r.newStatus ≠ c.newStatus := by
  have hlater : ∀ held ∈ e.standing?,
      ¬(held.1 = c.newStatus ∧ c.time ≤ held.2) ∧ ¬c.time < held.2 := by
    intro held hheld
    obtain ⟨line, hline, _, hlast⟩ := exists_line_of_standing? hheld
    have hlt : held.2 < c.time := h.shown line hline held.2 hlast
    exact ⟨fun hdup => Instant.not_le.mpr hlt hdup.2, Instant.not_lt.mpr (Instant.le_of_lt hlt)⟩
  rw [LineEntry.judge_applied_iff, and_iff_right hlater, ← Bool.not_eq_true, hasSeen_iff hr,
    List.mem_map]
  simp only [not_exists, not_and, StatusChange.key, Prod.mk.injEq, ne_eq]

theorem Before.log_accept (h : e.Before c) : (e.accept retention c).log =
    (e.log ++ [e.completed c]).drop
      (StatusChange.expired retention (e.log ++ [e.completed c])) := by
  rw [accept, prune_log, log_append, StatusChange.insert_eq_concat]
  · rfl
  · intro last hlast
    rw [completed_time]
    exact Instant.le_of_lt (h.logged last (List.mem_of_getLast? hlast))

theorem Before.getLast?_accept (h : e.Before c) :
    (e.accept retention c).log.getLast? = some (e.completed c) := by
  rw [h.log_accept, StatusChange.getLast?_drop_expired, List.getLast?_concat]

/-- No record that the retention reaches from the change is lost. -/
theorem Before.mem_log_accept (h : e.Before c) {r : StatusChange} (hmem : r ∈ e.log)
    (hin : ∀ span ∈ retention, c.millis - span < r.millis) : r ∈ (e.accept retention c).log := by
  rw [h.log_accept]
  apply StatusChange.mem_drop_expired (List.mem_append_left _ hmem)
  intro span hspan newest hnewest
  rw [List.getLast?_concat, Option.mem_some_iff] at hnewest
  rw [← hnewest, StatusChange.millis, completed_time]
  exact hin span hspan

end LineEntry

namespace LineCache

variable {retention : Retention} {cache : LineCache} {c : StatusChange}

/-- The line and its log have moved on to the change, and nothing else has been lost. -/
structure MovedTo (retention : Retention) (before after : LineCache) (c : StatusChange) :
    Prop where
  line : ∃ line, after.line? c.lineId = some line ∧ line.status = c.newStatus ∧
    line.lastStatusUpdate = some c.time
  newest : (after.log c.lineId).getLast? = some (before.completed c)
  kept : ∀ r ∈ before.log c.lineId, (∀ span ∈ retention, c.millis - span < r.millis) →
    r ∈ after.log c.lineId
  others : ∀ id, id ≠ c.lineId → after.entry id = before.entry id

theorem movedTo_applyChange (h : (cache.entry c.lineId).Before c)
    (hc : cache.judge c = .applied) :
    MovedTo retention cache (cache.applyChange retention c).cache c := by
  have hentry := cache.entry_applyChange retention c
  have hown : (cache.applyChange retention c).cache.entry c.lineId =
      (cache.entry c.lineId).accept retention c := by
    rw [hentry, if_pos rfl, LineEntry.applyChange, judge_entry, if_pos hc]
  constructor
  · have hshown := LineEntry.standing?_accept retention (cache.entry c.lineId) c
    rw [← hown] at hshown
    exact LineEntry.exists_line_of_standing? hshown
  · rw [← entry_log, hown]
    exact h.getLast?_accept
  · intro r hmem hin
    rw [← entry_log, hown]
    exact h.mem_log_accept hmem hin
  · intro id hid
    rw [hentry, if_neg hid]

/-- A change later than all that is known of its line is applied, and line and log move on to it,
exactly if the log has no record of its millisecond and its status. -/
theorem newer_change_applied_iff (retention : Retention) (ops : List CacheOp) (c : StatusChange)
    (h : ((run retention ops).entry c.lineId).Before c) :
    let cache := run retention ops
    let merged := cache.applyChange retention c
    (merged.value = .applied ∧ MovedTo retention cache merged.cache c) ↔
      ∀ r ∈ cache.log c.lineId, r.millis = c.millis → r.newStatus ≠ c.newStatus := by
  intro cache merged
  have hrecorded : (cache.entry c.lineId).Recorded c.lineId :=
    (((coherent_empty retention).performAll ops).entry c.lineId).toRecorded
  have hjudged := h.judge_applied_iff hrecorded
  rw [judge_entry] at hjudged
  rw [value_applyChange]
  constructor
  · rintro ⟨happlied, _⟩
    exact hjudged.mp happlied
  · intro hnew
    have happlied := hjudged.mpr hnew
    exact ⟨happlied, movedTo_applyChange h happlied⟩

/-- A line that goes on and off within a tenth of a millisecond each. -/
def withinMillisecond : List CacheOp :=
  let change (micros : Int) (status : Status) : CacheOp := .update <| .change
    { time := (Instant.ofMicros? micros).getD .epoch, lineId := "a", newStatus := status }
  [change 100 .on, change 200 .off]

/-- The line goes out of order within the same millisecond. -/
theorem newer_change_applied_error :
    let cache := run (Retention.ofDays 1) withinMillisecond
    let c : StatusChange :=
      { time := ⟨300, by decide, by decide⟩, lineId := "a", newStatus := .error }
    let merged := cache.applyChange (Retention.ofDays 1) c
    (cache.entry "a").Before c ∧ merged.value = .applied ∧
      MovedTo (Retention.ofDays 1) cache merged.cache c := by
  intro cache c merged
  have hbefore : (cache.entry "a").Before c := ⟨by decide +kernel, by decide +kernel⟩
  exact ⟨hbefore, (newer_change_applied_iff (Retention.ofDays 1) withinMillisecond c hbefore).mpr
    (by decide +kernel)⟩

/-- The line goes on again within the same millisecond, and keeps the status off for good. -/
theorem newer_change_lost :
    let cache := run (Retention.ofDays 1) withinMillisecond
    let c : StatusChange :=
      { time := ⟨300, by decide, by decide⟩, lineId := "a", newStatus := .on }
    let merged := cache.applyChange (Retention.ofDays 1) c
    (cache.entry "a").Before c ∧ merged.value = .known ∧
      (merged.cache.line? "a").map (·.status) = some .off := by
  intro cache c merged
  exact ⟨⟨by decide +kernel, by decide +kernel⟩, by decide +kernel, by decide +kernel⟩

end LineCache

end LineWatch
