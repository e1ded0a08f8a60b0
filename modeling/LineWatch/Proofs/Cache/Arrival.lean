import LineWatch.Proofs.Cache.Population

/-!
# How a line comes into the cache

A line that is not cached has neither a log nor keys, so an operation makes of it what it would
make of it in an empty cache. There the line is cached afterwards exactly if the operation tells of
it: by a change, a snapshot or a list, or by a record in a history. What was known of a line before
it was removed has no part in this.
-/

namespace LineWatch

/-- Whether an update says anything of its line; a history does by a record of it. -/
def LineUpdate.Tells : LineUpdate → Prop
  | .change _ | .snapshot _ => True
  | .history id changes => ∃ c ∈ changes, c.lineId = id

instance : (u : LineUpdate) → Decidable u.Tells
  | .change _ | .snapshot _ => inferInstanceAs (Decidable True)
  | .history id changes => inferInstanceAs (Decidable (∃ c ∈ changes, c.lineId = id))

def CacheOp.TellsOf (id : String) : CacheOp → Prop
  | .update u => u.lineId = id ∧ u.Tells
  | .list lines _ => id ∈ lines.map (·.id)
  | .lineEvent _ | .invalidate => False

instance (id : String) : (op : CacheOp) → Decidable (op.TellsOf id)
  | .update _ => inferInstanceAs (Decidable (_ ∧ _))
  | .list _ _ => inferInstanceAs (Decidable (_ ∈ _))
  | .lineEvent _ | .invalidate => inferInstanceAs (Decidable False)

/-- Whether an operation takes the line `id` out of the cache as one that was deleted. -/
def CacheOp.Deletes (cache : LineCache) (id : String) : CacheOp → Prop
  | .list lines fetchedAt =>
    (id, Removal.deleted) ∈ (cache.seedEach lines).cache.removals (lines.map (·.id)) fetchedAt
  | .update _ | .lineEvent _ | .invalidate => False

instance (cache : LineCache) (id : String) : (op : CacheOp) → Decidable (op.Deletes cache id)
  | .list _ _ => inferInstanceAs (Decidable (_ ∈ _))
  | .update _ | .lineEvent _ | .invalidate => inferInstanceAs (Decidable False)

namespace LineEntry

variable {id : String} {e : LineEntry} {retention : Retention}

theorem followLog_line?_isSome_iff :
    e.followLog.line?.isSome ↔ e.log ≠ [] ∨ e.line?.isSome := by
  refine ⟨fun h => ?_, followLog_line?_isSome⟩
  by_contra hnot
  rw [not_or, not_not] at hnot
  have hsame : e.followLog = e := by
    rw [followLog, hnot.1]
    rfl
  rw [hsame] at h
  exact hnot.2 h

/-- The log has records after a history if it had some, or the history has some of the line. -/
theorem log_addRecords_ne_nil_iff (h : e.Recorded id) {changes : List StatusChange} :
    (e.addRecords id changes).log ≠ [] ↔ e.log ≠ [] ∨ ∃ c ∈ changes, c.lineId = id := by
  constructor
  · intro hne
    obtain ⟨r, hr⟩ := List.exists_mem_of_ne_nil _ hne
    rcases mem_log_addRecords hr with hr | hr
    · exact .inl (List.ne_nil_of_mem hr)
    · exact .inr ⟨r, hr⟩
  · intro hany
    have hkey : ∃ key, key ∈ (e.addRecords id changes).keys := by
      rcases hany with hne | ⟨c, hc, hid⟩
      · obtain ⟨r, hr⟩ := List.exists_mem_of_ne_nil _ hne
        have hold := (h.mem_keys r.key).mpr (List.mem_map_of_mem hr)
        exact ⟨r.key, (mem_keys_addRecords id e changes _).mpr (.inl hold)⟩
      · exact ⟨c.key, (mem_keys_addRecords id e changes _).mpr (.inr ⟨c, hc, hid, rfl⟩)⟩
    obtain ⟨key, hkey⟩ := hkey
    obtain ⟨r, hr, _⟩ := List.mem_map.mp (((h.addRecords changes).mem_keys key).mp hkey)
    exact List.ne_nil_of_mem hr

theorem prune_log_ne_nil_iff : (e.prune retention).log ≠ [] ↔ e.log ≠ [] := by
  rw [prune_log, ← List.getLast?_isSome, StatusChange.getLast?_drop_expired,
    List.getLast?_isSome]

theorem seedHistory_line?_isSome_iff (h : e.Recorded id) {changes : List StatusChange} :
    (e.seedHistory retention id changes).line?.isSome ↔
      (e.log ≠ [] ∨ ∃ c ∈ changes, c.lineId = id) ∨ e.line?.isSome := by
  rw [LineEntry.seedHistory, followLog_line?_isSome_iff, prune_log_ne_nil_iff,
    log_addRecords_ne_nil_iff h, prune_line?, addRecords_line?]
  simp only [StatusChange.mem_sort]

/-- An update of a line that is not cached brings the line if it tells of it. -/
theorem line?_isSome_update_empty (u : LineUpdate) :
    (({} : LineEntry).update retention u).line?.isSome ↔ u.Tells := by
  cases u with
  | change c => exact iff_of_true (accept_line?_isSome retention {} c) trivial
  | snapshot line => exact iff_of_true rfl trivial
  | history id changes =>
    refine (seedHistory_line?_isSome_iff (recorded_empty id)).trans ?_
    simp [log, LineUpdate.Tells]

end LineEntry

namespace LineCache

variable {retention : Retention} {cache : LineCache} {id : String}

/-- Of a line that is not cached an operation leaves what it leaves in an empty cache. -/
theorem entry_perform_of_away (h : cache.Coherent retention) (hid : cache.line? id = none)
    (op : CacheOp) :
    (cache.perform retention op).entry id = (empty.perform retention op).entry id := by
  have hentry : cache.entry id = {} := (h.entry id).eq_empty hid
  cases op with
  | update u =>
    have hr := (h.entry u.lineId).toRecorded
    have hr' := ((coherent_empty retention).entry u.lineId).toRecorded
    change (cache.update retention u).entry id = (empty.update retention u).entry id
    rw [entry_update retention hr, entry_update retention hr', hentry]
    rfl
  | list lines fetchedAt =>
    change (cache.seedLines lines fetchedAt).cache.entry id =
      (empty.seedLines lines fetchedAt).cache.entry id
    by_cases hfetched : id ∈ lines.map (·.id)
    · have hstays : ∀ cache : LineCache,
          id ∉ ((cache.seedEach lines).cache.removals (lines.map (·.id)) fetchedAt).map (·.1) :=
        fun _ hgone => not_mem_fetched_of_mem_removals hgone hfetched
      rw [entry_seedLines, entry_seedLines, if_neg (hstays cache), if_neg (hstays empty), hentry]
      rfl
    · rw [entry_seedLines_of_not_fetched cache fetchedAt hfetched,
        entry_seedLines_of_not_fetched empty fetchedAt hfetched, hentry, ite_self]
      exact (ite_self _).symm
  | lineEvent event => exact hentry
  | invalidate => exact hentry

/-- In an empty cache a line is there after the operations that tell of it. -/
theorem line?_isSome_perform_empty (op : CacheOp) :
    ((empty.perform retention op).line? id).isSome ↔ op.TellsOf id := by
  cases op with
  | update u =>
    have hr := ((coherent_empty retention).entry u.lineId).toRecorded
    change ((empty.update retention u).line? id).isSome ↔ _
    rw [← entry_line?, entry_update retention hr]
    split_ifs with heq
    · exact (LineEntry.line?_isSome_update_empty u).trans (and_iff_right heq.symm).symm
    · exact iff_of_false Bool.false_ne_true fun htells => heq htells.1.symm
  | list lines fetchedAt =>
    change ((empty.seedLines lines fetchedAt).cache.line? id).isSome ↔ _
    rw [← mem_keys_lines_iff, mem_keys_seedLines_iff Filed.nil]
    exact or_iff_left fun ⟨_, hline, _⟩ => absurd hline (Option.some_ne_none _).symm
  | lineEvent event => exact iff_of_false Bool.false_ne_true not_false
  | invalidate => exact iff_of_false Bool.false_ne_true not_false

/-- Nothing is left of a line that was deleted. -/
theorem line?_perform_of_deletes {op : CacheOp} (h : op.Deletes cache id) :
    (cache.perform retention op).line? id = none := by
  cases op with
  | list lines fetchedAt =>
    have hgone := List.mem_map_of_mem (f := Prod.fst) h
    change (cache.seedLines lines fetchedAt).cache.line? id = none
    rw [← entry_line?, entry_seedLines, if_pos hgone]
  | update u => exact False.elim h
  | lineEvent event => exact False.elim h
  | invalidate => exact False.elim h

end LineCache

end LineWatch
