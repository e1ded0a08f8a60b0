import LineWatch.Proofs.Cache.Newest

/-!
# Lines ahead of their logs

The status of a line is never older than the newest record of its log: a change that is applied
moves both, a snapshot moves the line forward only, and after a history the line follows a newer
record. So a change that is applied is not older than the newest record, and becomes the newest
one itself.
-/

namespace LineWatch

namespace LineEntry

variable {id : String} {e : LineEntry} {c : StatusChange} {retention : Retention}

def Ahead (e : LineEntry) : Prop :=
  ∀ last ∈ e.log.getLast?, ∃ held ∈ e.standing?, last.time ≤ held.2

theorem ahead_empty : Ahead {} := by
  intro last hlast
  simp [log] at hlast

theorem Ahead.le_of_applied (h : e.Ahead) (hc : e.judge c = .applied) :
    ∀ last ∈ e.log.getLast?, last.time ≤ c.time := by
  intro last hlast
  obtain ⟨held, hheld, hle⟩ := h last hlast
  have hnot := (((e.judge_applied_iff c).mp hc).1 held hheld).2
  exact Instant.le_trans hle (Instant.not_lt.mp hnot)

theorem Ahead.getLast?_accept (h : e.Ahead) (hc : e.judge c = .applied) :
    (e.accept retention c).log.getLast? = some (e.completed c) := by
  rw [accept, prune_log, StatusChange.getLast?_drop_expired, log_append]
  apply StatusChange.getLast?_insert
  rw [completed_time]
  exact h.le_of_applied hc

theorem getLast?_seedHistory (retention : Retention) (id : String) (e : LineEntry)
    (changes : List StatusChange) :
    (e.seedHistory retention id changes).log.getLast? =
      (e.addRecords id (StatusChange.sort changes)).log.getLast? := by
  rw [seedHistory, followLog_log, prune_log, StatusChange.getLast?_drop_expired]

theorem standing?_seedHistory (retention : Retention) (id : String) (e : LineEntry)
    (changes : List StatusChange) :
    (e.seedHistory retention id changes).standing? =
      laterStanding? ((e.seedHistory retention id changes).log.getLast?.map
        StatusChange.standing) e.standing? := by
  rw [seedHistory, standing?_followLog, standing?_prune, standing?_addRecords, followLog_log]

theorem Ahead.applyChange (h : e.Ahead) (c : StatusChange) :
    (e.applyChange retention c).Ahead := by
  unfold LineEntry.applyChange
  split_ifs with hc
  · intro last hlast
    rw [h.getLast?_accept hc, Option.mem_some_iff] at hlast
    refine ⟨c.standing, standing?_accept retention e c, ?_⟩
    rw [← hlast, completed_time]
    exact Instant.le_refl _
  · exact h

theorem Ahead.seedLine (h : e.Ahead) (line : ProductionLine) : (e.seedLine line).Ahead := by
  intro last hlast
  obtain ⟨held, hheld, hle⟩ := h last hlast
  obtain ⟨later, hlater, hback⟩ := exists_laterStanding?_of_left hheld line.standing?
  rw [← standing?_seedLine] at hlater
  exact ⟨later, hlater, Instant.le_trans hle hback⟩

theorem ahead_seedHistory (retention : Retention) (id : String) (e : LineEntry)
    (changes : List StatusChange) : (e.seedHistory retention id changes).Ahead := by
  intro last hlast
  rw [standing?_seedHistory]
  exact exists_laterStanding?_of_left (Option.mem_map_of_mem _ hlast) _

theorem Ahead.update (h : e.Ahead) (u : LineUpdate) : (e.update retention u).Ahead := by
  cases u with
  | change c => exact h.applyChange c
  | snapshot line => exact h.seedLine line
  | history id changes => exact ahead_seedHistory retention id e changes

theorem Ahead.seedLines (h : e.Ahead) (lines : List ProductionLine) :
    (lines.foldl LineEntry.seedLine e).Ahead := by
  induction lines generalizing e with
  | nil => exact h
  | cons line rest ih => exact ih (h.seedLine line)

end LineEntry

namespace LineCache

variable {retention : Retention} {cache : LineCache}

theorem ahead_perform (hc : cache.Coherent retention) (h : ∀ id, (cache.entry id).Ahead)
    (op : CacheOp) (id : String) : ((cache.perform retention op).entry id).Ahead := by
  cases op with
  | update u =>
    have hr := (hc.entry u.lineId).toRecorded
    change ((cache.update retention u).entry id).Ahead
    rw [entry_update retention hr]
    split_ifs
    · exact (h id).update u
    · exact h id
  | list lines fetchedAt =>
    change ((cache.seedLines lines fetchedAt).cache.entry id).Ahead
    rw [entry_seedLines]
    split_ifs
    · exact LineEntry.ahead_empty
    · exact (h id).seedLines _
  | lineEvent event => exact h id
  | invalidate => exact h id

/-- In every run the lines are ahead of their logs. -/
theorem ahead_run (retention : Retention) (ops : List CacheOp) (id : String) :
    ((run retention ops).entry id).Ahead := by
  induction ops using List.reverseRecOn generalizing id with
  | nil => exact LineEntry.ahead_empty
  | append_singleton ops op ih =>
    rw [run, List.foldl_append]
    exact ahead_perform ((coherent_empty retention).performAll ops) ih op id

end LineCache

end LineWatch
