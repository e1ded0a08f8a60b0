import LineWatch.Proofs.Cache.Recorded

/-!
# Operations on the cache

An update merges a change, a snapshot or a history, and concerns one line. The other operations
concern the line list: they mark it as stale, or replace it by a list that was fetched. A run
performs operations one after the other, beginning with the empty cache.
-/

namespace LineWatch

inductive LineUpdate where
  | change (c : StatusChange)
  | snapshot (line : ProductionLine)
  | history (id : String) (changes : List StatusChange)

def LineUpdate.lineId : LineUpdate → String
  | .change c => c.lineId
  | .snapshot line => line.id
  | .history id _ => id

inductive CacheOp where
  | update (update : LineUpdate)
  | list (lines : List ProductionLine) (fetchedAt : Option Instant)
  | lineEvent (event : StreamEvent)
  | invalidate

namespace LineEntry

def update (retention : Retention) (e : LineEntry) : LineUpdate → LineEntry
  | .change c => e.applyChange retention c
  | .snapshot line => e.seedLine line
  | .history id changes => e.seedHistory retention id changes

end LineEntry

namespace LineCache

variable {retention : Retention} {cache : LineCache} {id : String}

def update (retention : Retention) (cache : LineCache) : LineUpdate → LineCache
  | .change c => (cache.applyChange retention c).cache
  | .snapshot line => (cache.seedLine line).cache
  | .history id changes => (cache.seedHistory retention id changes).cache

def updates (retention : Retention) (us : List LineUpdate) : LineCache :=
  us.foldl (update retention) empty

def perform (retention : Retention) (cache : LineCache) : CacheOp → LineCache
  | .update u => cache.update retention u
  | .list lines fetchedAt => (cache.seedLines lines fetchedAt).cache
  | .lineEvent event => (cache.applyLineEvent event).cache
  | .invalidate => cache.invalidate

def run (retention : Retention) (ops : List CacheOp) : LineCache :=
  ops.foldl (perform retention) empty

theorem entry_update (retention : Retention) {u : LineUpdate}
    (h : (cache.entry u.lineId).Recorded u.lineId) (id : String) :
    (cache.update retention u).entry id =
      if id = u.lineId then (cache.entry id).update retention u else cache.entry id := by
  cases u with
  | change c => exact cache.entry_applyChange retention c id
  | snapshot line => exact cache.entry_seedLine line id
  | history target changes =>
    refine (cache.entry_seedHistory retention target changes h id).trans ?_
    by_cases hid : id = target
    · rw [if_pos hid, hid]
      exact (if_pos rfl).symm
    · exact (if_neg hid).trans (if_neg hid).symm

/-- The line list of both caches is the same, and so is the mark on it. -/
structure SameList (before after : LineCache) : Prop where
  listIds : after.listIds = before.listIds
  stale : after.stale = before.stale

theorem SameList.trans {a b c : LineCache} (hab : SameList a b) (hbc : SameList b c) :
    SameList a c := ⟨hbc.listIds.trans hab.listIds, hbc.stale.trans hab.stale⟩

theorem sameList_prune (retention : Retention) (cache : LineCache) (id : String) :
    SameList cache (cache.prune retention id).1 := by
  unfold prune
  dsimp only
  split_ifs <;> exact ⟨rfl, rfl⟩

theorem sameList_seedLine (cache : LineCache) (line : ProductionLine) :
    SameList cache (cache.seedLine line).cache := by
  unfold seedLine
  split <;> exact ⟨rfl, rfl⟩

theorem sameList_addRecords (cache : LineCache) (id : String) (changes : List StatusChange) :
    SameList cache (cache.addRecords id changes).1 := by
  induction changes generalizing cache with
  | nil => exact ⟨rfl, rfl⟩
  | cons c rest ih =>
    unfold addRecords
    split_ifs
    · exact ih cache
    · have happend : SameList cache (cache.append c) := ⟨rfl, rfl⟩
      have hrest := ih (cache.append c)
      exact happend.trans hrest

theorem sameList_followLog (cache : LineCache) (id : String) :
    SameList cache (cache.followLog id) := by
  rcases cache.followLog_cases id with ⟨latest, _, hc, _⟩ | ⟨hc, _⟩
  · rw [hc]
    exact ⟨rfl, rfl⟩
  · rw [hc]
    exact ⟨rfl, rfl⟩

theorem sameList_seedHistory (retention : Retention) (cache : LineCache) (id : String)
    (changes : List StatusChange) :
    SameList cache (cache.seedHistory retention id changes).cache :=
  ((cache.sameList_addRecords id _).trans (sameList_prune retention _ id)).trans
    (sameList_followLog _ id)

theorem listIds_applyChange (retention : Retention) (cache : LineCache) (c : StatusChange) :
    (cache.applyChange retention c).cache.listIds = cache.listIds := by
  unfold applyChange
  split
  · exact (sameList_prune retention _ _).listIds
  · rfl

theorem stale_applyChange (retention : Retention) (cache : LineCache) (c : StatusChange) :
    (cache.applyChange retention c).cache.stale =
      if cache.judge c = .applied then true else cache.stale := by
  cases hj : cache.judge c <;> simp only [applyChange, hj] <;> rfl

/-- No update touches the order of the line list. -/
theorem listIds_update (retention : Retention) (cache : LineCache) (u : LineUpdate) :
    (cache.update retention u).listIds = cache.listIds := by
  cases u with
  | change c => exact cache.listIds_applyChange retention c
  | snapshot line => exact (cache.sameList_seedLine line).listIds
  | history id changes => exact (cache.sameList_seedHistory retention id changes).listIds

/-- What a fetched list does to an entry before lines that are gone are removed. -/
theorem entry_seedEach (cache : LineCache) (lines : List ProductionLine) (id : String) :
    (cache.seedEach lines).cache.entry id =
      (lines.filter (·.id = id)).foldl LineEntry.seedLine (cache.entry id) := by
  induction lines generalizing cache with
  | nil => rfl
  | cons line rest ih =>
    change ((cache.seedLine line).cache.seedEach rest).cache.entry id = _
    rw [ih, entry_seedLine]
    by_cases h : line.id = id
    · simp [h]
    · simp [h, Ne.symm h]

theorem entry_removeAll (cache : LineCache) (gone : List (String × Removal)) (id : String) :
    (gone.foldl (fun cache g => cache.removeLine g.1) cache).entry id =
      if id ∈ gone.map (·.1) then {} else cache.entry id := by
  induction gone generalizing cache with
  | nil => rfl
  | cons g rest ih =>
    rw [List.foldl_cons, ih, entry_removeLine]
    by_cases h : id = g.1
    · simp [h]
    · simp only [h, if_false, List.map_cons, List.mem_cons, false_or]

theorem not_mem_fetched_of_mem_removals {fetched : List String} {fetchedAt : Option Instant}
    (h : id ∈ (cache.removals fetched fetchedAt).map (·.1)) : id ∉ fetched := by
  obtain ⟨⟨_, reason⟩, hmem, rfl⟩ := List.mem_map.mp h
  obtain ⟨⟨id, line⟩, _, hr⟩ := List.mem_filterMap.mp hmem
  obtain ⟨r, hr, heq⟩ := Option.map_eq_some_iff.mp hr
  rw [← (Prod.ext_iff.mp heq).1]
  intro hf
  unfold removal? at hr
  rw [if_pos (List.contains_iff_mem.mpr hf)] at hr
  exact absurd hr (by simp)

/-- A fetched list merges its snapshots, and clears entries that are not on it. -/
theorem entry_seedLines (cache : LineCache) (lines : List ProductionLine)
    (fetchedAt : Option Instant) (id : String) :
    (cache.seedLines lines fetchedAt).cache.entry id =
      if id ∈ ((cache.seedEach lines).cache.removals (lines.map (·.id)) fetchedAt).map (·.1)
      then {}
      else (lines.filter (·.id = id)).foldl LineEntry.seedLine (cache.entry id) := by
  unfold seedLines
  rw [entry_relist, entry_removeAll, entry_seedEach]

end LineCache

end LineWatch
