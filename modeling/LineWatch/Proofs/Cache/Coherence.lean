import LineWatch.Proofs.Cache.Operation

/-!
# Coherence of the cache

In a coherent cache every entry is recorded, a line that has a log is cached, and every line of
the list is cached. No log holds more than its first record from before its retention. Every
operation keeps a cache coherent, whatever lists and histories are merged, so every run ends in
a coherent cache.
-/

namespace LineWatch

/-- Only the first record of a log may lie at or before its retention. -/
def StatusChange.Within (retention : Retention) (log : List StatusChange) : Prop :=
  ∀ span ∈ retention, ∀ newest ∈ log.getLast?, ∀ c ∈ log.tail, newest.millis - span < c.millis

theorem StatusChange.within_drop_expired {log : List StatusChange} (h : Sorted log)
    (retention : Retention) : Within retention (log.drop (expired retention log)) := by
  rintro span rfl newest hn c hc
  rw [getLast?_drop_expired] at hn
  exact h.reach hn hc

namespace LineEntry

variable {id : String} {e : LineEntry} {retention : Retention}

structure Coherent (retention : Retention) (id : String) (e : LineEntry) : Prop
    extends Recorded id e where
  cached : e.log?.isSome → e.line?.isSome
  within : StatusChange.Within retention e.log

theorem coherent_empty (retention : Retention) (id : String) : Coherent retention id {} where
  toRecorded := recorded_empty id
  cached := by simp
  within := by
    intro span _ newest hn
    simp [log] at hn

theorem within_prune (h : e.Recorded id) :
    StatusChange.Within retention (e.prune retention).log := by
  rw [prune_log]
  exact StatusChange.within_drop_expired h.sorted retention

theorem accept_line?_isSome (retention : Retention) (e : LineEntry) (c : StatusChange) :
    (e.accept retention c).line?.isSome := by
  rw [accept, prune_line?]
  rfl

theorem Coherent.applyChange {c : StatusChange} (h : e.Coherent retention id)
    (hid : c.lineId = id) : (e.applyChange retention c).Coherent retention id := by
  unfold LineEntry.applyChange
  split_ifs with hj
  · have hfull := h.toRecorded.appendCompleted hid hj
    exact ⟨hfull.prune, fun _ => accept_line?_isSome retention e c, within_prune hfull⟩
  · exact h

theorem Coherent.seedLine (h : e.Coherent retention id) (line : ProductionLine) :
    (e.seedLine line).Coherent retention id :=
  ⟨h.toRecorded.withLine _, fun _ => rfl, h.within⟩

theorem addRecords_line? (id : String) (e : LineEntry) (changes : List StatusChange) :
    (e.addRecords id changes).line? = e.line? := by
  unfold addRecords
  induction changes generalizing e with
  | nil => rfl
  | cons c rest ih =>
    rw [List.foldl_cons, ih, addRecord]
    split_ifs <;> rfl

theorem followLog_line?_isSome (h : e.log ≠ [] ∨ e.line?.isSome) :
    e.followLog.line?.isSome := by
  unfold followLog
  split
  · next hl =>
    rw [List.getLast?_eq_none_iff] at hl
    exact h.resolve_left (not_not.mpr hl)
  · split
    · next last hlast =>
      split_ifs
      · rfl
      · cases hline : e.line? with
        | none => simp [hline] at hlast
        | some line => rfl
    · rfl

theorem Coherent.seedHistory (h : e.Coherent retention id) (changes : List StatusChange) :
    (e.seedHistory retention id changes).Coherent retention id := by
  have hfilled := h.toRecorded.addRecords (StatusChange.sort changes)
  refine ⟨h.toRecorded.seedHistory changes, fun hl => ?_, ?_⟩
  · rw [LineEntry.seedHistory, followLog_log?] at hl
    apply followLog_line?_isSome
    left
    exact (log_ne_nil_iff hfilled.prune).mpr hl
  · rw [LineEntry.seedHistory, followLog_log]
    exact within_prune hfilled

theorem Coherent.update {u : LineUpdate} (h : e.Coherent retention u.lineId) :
    (e.update retention u).Coherent retention u.lineId := by
  cases u with
  | change c => exact h.applyChange rfl
  | snapshot line => exact h.seedLine line
  | history id changes => exact h.seedHistory changes

/-- A line that is cached stays cached. -/
theorem line?_isSome_update (h : e.line?.isSome) (u : LineUpdate) :
    (e.update retention u).line?.isSome := by
  cases u with
  | change c =>
    change (e.applyChange retention c).line?.isSome
    unfold applyChange
    split_ifs
    · exact accept_line?_isSome retention e c
    · exact h
  | snapshot line => rfl
  | history id changes =>
    apply followLog_line?_isSome
    right
    rw [prune_line?, addRecords_line?]
    exact h

end LineEntry

namespace LineCache

variable {retention : Retention} {cache : LineCache}

structure Coherent (retention : Retention) (cache : LineCache) : Prop where
  entry : ∀ id, (cache.entry id).Coherent retention id
  listed : ∀ id ∈ cache.listIds, (cache.line? id).isSome

theorem coherent_empty (retention : Retention) : Coherent retention empty where
  entry := LineEntry.coherent_empty retention
  listed := by simp [empty]

theorem Coherent.update (h : cache.Coherent retention) (u : LineUpdate) :
    (cache.update retention u).Coherent retention := by
  have hentry := entry_update retention (h.entry u.lineId).toRecorded
  constructor
  · intro id
    rw [hentry]
    split_ifs with hid
    · subst hid
      exact (h.entry _).update
    · exact h.entry id
  · intro id hid
    rw [listIds_update] at hid
    rw [← entry_line?, hentry]
    split_ifs
    · exact LineEntry.line?_isSome_update (h.listed id hid) u
    · exact h.listed id hid

theorem foldl_seedLine_coherent {e : LineEntry} {id : String} (h : e.Coherent retention id)
    (lines : List ProductionLine) : (lines.foldl LineEntry.seedLine e).Coherent retention id := by
  induction lines generalizing e with
  | nil => exact h
  | cons line rest ih => exact ih (h.seedLine line)

theorem foldl_seedLine_isSome (e : LineEntry) {lines : List ProductionLine} (h : lines ≠ []) :
    (lines.foldl LineEntry.seedLine e).line?.isSome := by
  induction lines using List.reverseRecOn with
  | nil => exact absurd rfl h
  | append_singleton rest line _ =>
    rw [List.foldl_append]
    rfl

theorem Coherent.seedLines (h : cache.Coherent retention) (lines : List ProductionLine)
    (fetchedAt : Option Instant) :
    (cache.seedLines lines fetchedAt).cache.Coherent retention := by
  constructor
  · intro id
    rw [entry_seedLines]
    split_ifs
    · exact LineEntry.coherent_empty retention id
    · exact foldl_seedLine_coherent (h.entry id) _
  · -- a fetched line is not removed, and its snapshot has just been merged
    intro id hid
    have hfetched : id ∈ lines.map (·.id) := hid
    obtain ⟨line, hline, hlid⟩ := List.mem_map.mp hfetched
    rw [← entry_line?, entry_seedLines,
      if_neg fun hgone => not_mem_fetched_of_mem_removals hgone hfetched]
    apply foldl_seedLine_isSome
    exact List.ne_nil_of_mem (List.mem_filter.mpr ⟨hline, by simpa using hlid⟩)

theorem Coherent.perform (h : cache.Coherent retention) (op : CacheOp) :
    (cache.perform retention op).Coherent retention := by
  cases op with
  | update u => exact h.update u
  | list lines fetchedAt => exact h.seedLines lines fetchedAt
  | lineEvent _ => exact ⟨h.entry, h.listed⟩
  | invalidate => exact ⟨h.entry, h.listed⟩

theorem Coherent.performAll (h : cache.Coherent retention) (ops : List CacheOp) :
    (ops.foldl (LineCache.perform retention) cache).Coherent retention := by
  induction ops generalizing cache with
  | nil => exact h
  | cons op rest ih => exact ih (h.perform op)

/-- Every run ends in a coherent cache. -/
theorem coherent_run (retention : Retention) (ops : List CacheOp) :
    (run retention ops).Coherent retention :=
  (coherent_empty retention).performAll ops

end LineCache

end LineWatch
