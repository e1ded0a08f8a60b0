import LineWatch.Proofs.Cache.Filing

/-!
# The lines that a fetched list leaves

A fetched list files its own lines and clears the entries of lines that are gone. A line that is
not on it stays if it was not on the list before either, and nothing tells that the fetch is as new
as the line. The snapshots of the list change neither logs nor their keys, and no entry of a line
that is not on it.
-/

namespace LineWatch

namespace LineEntry

variable {retention : Retention} {id : String} {e : LineEntry}

/-- A line that is not cached has neither a log nor keys. -/
theorem Coherent.eq_empty (h : e.Coherent retention id) (hline : e.line? = none) : e = {} := by
  have hlog : e.log? = none := by
    apply Option.not_isSome_iff_eq_none.mp
    intro hlog
    have hcached := h.cached hlog
    rw [hline] at hcached
    exact Bool.noConfusion hcached
  have hkeys : e.keys? = none := by
    apply Option.not_isSome_iff_eq_none.mp
    rw [← h.logged, hlog]
    exact Bool.false_ne_true
  exact LineEntry.ext hline hlog hkeys

/-- Snapshots of a line change nothing else of its entry. -/
theorem foldl_seedLine_eq (e : LineEntry) (lines : List ProductionLine) :
    ∃ line?, lines.foldl LineEntry.seedLine e = { e with line? := line? } := by
  induction lines generalizing e with
  | nil => exact ⟨e.line?, rfl⟩
  | cons line rest ih =>
    obtain ⟨line?, hrest⟩ := ih (e.seedLine line)
    exact ⟨line?, hrest⟩

end LineEntry

namespace LineCache

variable {cache : LineCache} {fetched : List String} {fetchedAt : Option Instant}
  {lines : List ProductionLine} {id : String}

theorem removal?_eq_none_iff {line : ProductionLine} :
    cache.removal? fetched fetchedAt id line = none ↔
      id ∈ fetched ∨ id ∉ cache.listIds ∧
        ∀ asked ∈ fetchedAt, ∀ last ∈ line.lastStatusUpdate, asked < last := by
  unfold removal?
  split_ifs with hfetched hlisted
  · exact iff_of_true rfl (.inl (List.contains_iff_mem.mp hfetched))
  · rw [List.contains_iff_mem] at hfetched hlisted
    simp [hfetched, hlisted]
  · rw [List.contains_iff_mem] at hfetched hlisted
    rw [or_iff_right hfetched, and_iff_right hlisted]
    cases fetchedAt with
    | none => simp
    | some asked =>
      cases line.lastStatusUpdate with
      | none => simp
      | some last =>
        dsimp only
        split_ifs with hle
        · simpa using Instant.not_lt.mpr hle
        · simpa using Instant.not_le.mp hle

theorem mem_removals_iff (h : Filed cache.lines) :
    id ∈ (cache.removals fetched fetchedAt).map (·.1) ↔
      ∃ line, cache.line? id = some line ∧ cache.removal? fetched fetchedAt id line ≠ none := by
  unfold removals
  constructor
  · intro hmem
    obtain ⟨gone, hgone, rfl⟩ := List.mem_map.mp hmem
    obtain ⟨⟨id, line⟩, hfiled, hwhy⟩ := List.mem_filterMap.mp hgone
    obtain ⟨reason, hreason, rfl⟩ := Option.map_eq_some_iff.mp hwhy
    refine ⟨line, Keyed.get?_of_mem h.nodup hfiled, ?_⟩
    rw [hreason]
    exact Option.some_ne_none reason
  · rintro ⟨line, hline, hwhy⟩
    obtain ⟨reason, hreason⟩ := Option.ne_none_iff_exists'.mp hwhy
    refine List.mem_map.mpr ⟨(id, reason), List.mem_filterMap.mpr ⟨(id, line), ?_, ?_⟩, rfl⟩
    · exact Keyed.mem_of_get? hline
    · rw [hreason]
      rfl

theorem listIds_seedEach (cache : LineCache) (lines : List ProductionLine) :
    (cache.seedEach lines).cache.listIds = cache.listIds := by
  induction lines generalizing cache with
  | nil => rfl
  | cons line rest ih =>
    change ((cache.seedLine line).cache.seedEach rest).cache.listIds = _
    rw [ih, (cache.sameList_seedLine line).listIds]

theorem filter_eq_nil_of_not_fetched (h : id ∉ lines.map (·.id)) :
    lines.filter (·.id = id) = [] := by
  apply List.filter_eq_nil_iff.mpr
  intro line hline hid
  exact h (List.mem_map.mpr ⟨line, hline, of_decide_eq_true hid⟩)

/-- A line of the list is filed, with the log and the keys it had. -/
theorem entry_seedLines_of_fetched (cache : LineCache) (fetchedAt : Option Instant)
    (h : id ∈ lines.map (·.id)) :
    ∃ line, (cache.seedLines lines fetchedAt).cache.entry id =
      { cache.entry id with line? := some line } := by
  obtain ⟨line, hline, hid⟩ := List.mem_map.mp h
  have hne : lines.filter (·.id = id) ≠ [] :=
    List.ne_nil_of_mem (List.mem_filter.mpr ⟨hline, by simpa using hid⟩)
  have hfiled := foldl_seedLine_isSome (cache.entry id) hne
  obtain ⟨line?, heq⟩ := LineEntry.foldl_seedLine_eq (cache.entry id) (lines.filter (·.id = id))
  rw [entry_seedLines, if_neg fun hgone => not_mem_fetched_of_mem_removals hgone h, heq]
  rw [heq] at hfiled
  obtain ⟨shown, hshown⟩ := Option.isSome_iff_exists.mp hfiled
  exact ⟨shown, by rw [← hshown]⟩

/-- Whether a line that is not on the list is removed is up to the cache before the merge. -/
theorem mem_removals_seedEach_iff (hfiled : Filed cache.lines) (h : id ∉ lines.map (·.id)) :
    id ∈ ((cache.seedEach lines).cache.removals (lines.map (·.id)) fetchedAt).map (·.1) ↔
      ∃ line, cache.line? id = some line ∧ ¬(id ∉ cache.listIds ∧
        ∀ asked ∈ fetchedAt, ∀ last ∈ line.lastStatusUpdate, asked < last) := by
  rw [mem_removals_iff (filed_seedEach hfiled lines), ← entry_line?, entry_seedEach,
    filter_eq_nil_of_not_fetched h]
  refine exists_congr fun line => and_congr_right fun _ => ?_
  rw [ne_eq, removal?_eq_none_iff, or_iff_right h, listIds_seedEach]

/-- A line that is not on the list keeps all of its entry or nothing. -/
theorem entry_seedLines_of_not_fetched (cache : LineCache) (fetchedAt : Option Instant)
    (h : id ∉ lines.map (·.id)) :
    (cache.seedLines lines fetchedAt).cache.entry id =
      if id ∈ ((cache.seedEach lines).cache.removals (lines.map (·.id)) fetchedAt).map (·.1)
      then {} else cache.entry id := by
  rw [entry_seedLines, filter_eq_nil_of_not_fetched h]
  rfl

theorem mem_keys_seedLines_iff (hfiled : Filed cache.lines) :
    id ∈ (cache.seedLines lines fetchedAt).cache.lines.keys ↔
      id ∈ lines.map (·.id) ∨ ∃ line, cache.line? id = some line ∧ id ∉ cache.listIds ∧
        ∀ asked ∈ fetchedAt, ∀ last ∈ line.lastStatusUpdate, asked < last := by
  rw [mem_keys_lines_iff, ← entry_line?]
  by_cases hfetched : id ∈ lines.map (·.id)
  · obtain ⟨line, hentry⟩ := cache.entry_seedLines_of_fetched fetchedAt hfetched
    rw [hentry]
    simp [hfetched]
  · rw [entry_seedLines_of_not_fetched cache fetchedAt hfetched, or_iff_right hfetched]
    split_ifs with hgone
    · obtain ⟨line, hline, hnot⟩ := (mem_removals_seedEach_iff hfiled hfetched).mp hgone
      refine iff_of_false Bool.false_ne_true ?_
      rintro ⟨line', hline', hstays⟩
      rw [hline, Option.some.injEq] at hline'
      exact hnot (hline' ▸ hstays)
    · rw [mem_removals_seedEach_iff hfiled hfetched] at hgone
      push Not at hgone
      rw [entry_line?, Option.isSome_iff_exists]
      exact exists_congr fun line => ⟨fun hline => ⟨hline, hgone line hline⟩, And.left⟩

/-- A line that stays without being on the list keeps its entry. -/
theorem entry_seedLines_of_stays (hfetched : id ∉ lines.map (·.id))
    (h : id ∈ (cache.seedLines lines fetchedAt).cache.lines.keys) :
    (cache.seedLines lines fetchedAt).cache.entry id = cache.entry id := by
  have hentry := cache.entry_seedLines_of_not_fetched fetchedAt hfetched
  split_ifs at hentry
  · rw [mem_keys_lines_iff, ← entry_line?, hentry] at h
    exact Bool.noConfusion h
  · exact hentry

/-- A cached line has the log and the keys from before the list. -/
theorem records_seedLines (h : id ∈ (cache.seedLines lines fetchedAt).cache.lines.keys) :
    ∃ line?, (cache.seedLines lines fetchedAt).cache.entry id =
      { cache.entry id with line? := line? } := by
  by_cases hfetched : id ∈ lines.map (·.id)
  · obtain ⟨line, hentry⟩ := cache.entry_seedLines_of_fetched fetchedAt hfetched
    exact ⟨some line, hentry⟩
  · exact ⟨cache.line? id, entry_seedLines_of_stays hfetched h⟩

theorem Coherent.entry_eq_empty {retention : Retention} (h : cache.Coherent retention)
    (hid : id ∉ cache.lines.keys) : cache.entry id = {} := by
  apply (h.entry id).eq_empty
  rw [mem_keys_lines_iff, Option.not_isSome_iff_eq_none] at hid
  exact hid

/-- After a fetched list has been merged the cached lines are those of the list, and the lines
known otherwise that were not on the list before and are not known to be as old as the fetch. Of
other lines nothing is left. The logs and keys of the cached lines are as before, and those that
are not on the list have not changed at all. -/
theorem seedLines_replaces_population (retention : Retention) (ops : List CacheOp)
    (lines : List ProductionLine) (fetchedAt : Option Instant) :
    let before := run retention ops
    let after := (before.seedLines lines fetchedAt).cache
    (∀ id, id ∈ after.lines.keys ↔
      id ∈ lines.map (·.id) ∨ ∃ line, before.line? id = some line ∧ id ∉ lastListed ops ∧
        ∀ asked ∈ fetchedAt, ∀ last ∈ line.lastStatusUpdate, asked < last) ∧
    (∀ id, id ∉ after.lines.keys →
      after.line? id = none ∧ after.logs.get? id = none ∧ after.seen.get? id = none) ∧
    (∀ id, id ∈ after.lines.keys →
      after.logs.get? id = before.logs.get? id ∧ after.seen.get? id = before.seen.get? id) ∧
    (∀ id, id ∈ after.lines.keys → id ∉ lines.map (·.id) →
      after.line? id = before.line? id) := by
  intro before after
  have hcoherent : after.Coherent retention :=
    ((coherent_empty retention).performAll ops).seedLines _ _
  refine ⟨fun id => ?_, fun id hid => ?_, fun id hid => ?_, fun id hid hfetched => ?_⟩
  · rw [← listIds_run retention]
    exact mem_keys_seedLines_iff (filed_run retention ops)
  · have hempty := hcoherent.entry_eq_empty hid
    exact ⟨congrArg LineEntry.line? hempty, congrArg LineEntry.log? hempty,
      congrArg LineEntry.keys? hempty⟩
  · obtain ⟨line?, hentry⟩ := records_seedLines hid
    exact ⟨congrArg LineEntry.log? hentry, congrArg LineEntry.keys? hentry⟩
  · exact congrArg LineEntry.line? (entry_seedLines_of_stays hfetched hid)

end LineCache

end LineWatch
