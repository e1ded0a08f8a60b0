import LineWatch.Proofs.Cache.Filled
import LineWatch.Proofs.Cache.Filing
import LineWatch.Proofs.Cache.Replay

/-!
# Lines that leave each other alone

An update reads and writes one entry: what it returns, whether it marks the list, and whether it
files a line that was not cached, depends on the entry of its line alone. So updates of different
lines have the same effect in either order, except that the lines they file come in that order.
-/

namespace LineWatch

/-- What an update returns: the verdict on a change, whether the status of a snapshot was taken, or
how many records of a history were added. -/
inductive Returned where
  | verdict (verdict : Verdict)
  | taken (taken : Bool)
  | added (count : Nat)
  deriving DecidableEq, Repr

namespace LineEntry

variable {retention : Retention} {e : LineEntry} {u : LineUpdate} {id : String}

theorem Recorded.update (h : e.Recorded u.lineId) : (e.update retention u).Recorded u.lineId := by
  cases u with
  | change c =>
    change (e.applyChange retention c).Recorded c.lineId
    unfold applyChange
    split_ifs with hj
    · exact (h.appendCompleted rfl hj).prune
    · exact h
  | snapshot line => exact h.withLine _
  | history id changes => exact h.seedHistory changes

def returned (e : LineEntry) : LineUpdate → Returned
  | .change c => .verdict (e.judge c)
  | .snapshot line => .taken (e.newerStatus? line).isNone
  | .history id changes => .added (e.missing id (StatusChange.sort changes)).length

/-- The identifier that an update files, if its line was not cached. -/
def filedBy (retention : Retention) (e : LineEntry) (u : LineUpdate) : List String :=
  if e.line? = none ∧ (e.update retention u).line? ≠ none then [u.lineId] else []

theorem of_mem_filedBy (h : id ∈ e.filedBy retention u) : id = u.lineId ∧ e.line? = none := by
  unfold filedBy at h
  split at h
  · next hnew => exact ⟨List.mem_singleton.mp h, hnew.1⟩
  · exact absurd h List.not_mem_nil

end LineEntry

namespace LineCache

variable {retention : Retention} {cache : LineCache} {u v : LineUpdate} {id : String}

def returned (retention : Retention) (cache : LineCache) : LineUpdate → Returned
  | .change c => .verdict (cache.applyChange retention c).value
  | .snapshot line => .taken (cache.seedLine line).value
  | .history id changes => .added (cache.seedHistory retention id changes).value

theorem added_addRecords (cache : LineCache) (id : String) (changes : List StatusChange) :
    (cache.addRecords id changes).2 = ((cache.entry id).missing id changes).length := by
  induction changes generalizing cache with
  | nil => rfl
  | cons c rest ih =>
    have hseen : (cache.entry id).hasSeen c = cache.hasSeen id c := rfl
    rw [LineEntry.missing, hseen]
    unfold addRecords
    split_ifs with hskip
    · exact ih cache
    · have hid : c.lineId = id := by
        by_contra hne
        exact hskip (.inl hne)
      have hrest := ih (cache.append c)
      rw [entry_append, if_pos hid.symm] at hrest
      exact congrArg (· + 1) hrest

theorem value_seedLine (cache : LineCache) (line : ProductionLine) :
    (cache.seedLine line).value = ((cache.entry line.id).newerStatus? line).isNone := by
  have hn : cache.newerStatus? line = (cache.entry line.id).newerStatus? line := rfl
  cases hk : (cache.entry line.id).newerStatus? line <;> simp [seedLine, hn, hk]

/-- What an update returns depends on the entry of its line. -/
theorem returned_eq (retention : Retention) (cache : LineCache) (u : LineUpdate) :
    cache.returned retention u = (cache.entry u.lineId).returned u := by
  cases u with
  | change c => exact congrArg Returned.verdict (value_applyChange retention cache c)
  | snapshot line => exact congrArg Returned.taken (cache.value_seedLine line)
  | history id changes => exact congrArg Returned.added (cache.added_addRecords id _)

/-- A change that is applied marks the list, and nothing else does. -/
theorem stale_update (retention : Retention) (cache : LineCache) (u : LineUpdate) :
    (cache.update retention u).stale =
      (cache.stale || cache.returned retention u = .verdict .applied) := by
  cases u with
  | change c =>
    rw [returned, value_applyChange, update, stale_applyChange]
    by_cases hj : cache.judge c = .applied <;> simp [hj]
  | snapshot line => simp [update, (cache.sameList_seedLine line).stale, returned]
  | history id changes =>
    simp [update, (cache.sameList_seedHistory retention id changes).stale, returned]

/-- An update files its line, or leaves the lines as they are. -/
theorem lines_update (retention : Retention) (h : (cache.entry u.lineId).Recorded u.lineId) :
    (cache.update retention u).lines = cache.lines ∨
      ∃ line, (cache.update retention u).lines = cache.lines.set u.lineId line := by
  cases u with
  | change c =>
    by_cases hj : cache.judge c = .applied
    · right
      have hlines : (cache.update retention (.change c)).lines =
          ((cache.follow (cache.completed c)).append (cache.completed c)).lines := by
        simp only [update, applyChange, hj, accept]
        exact lines_prune retention _ _
      have hid : (cache.completed c).lineId = c.lineId :=
        (cache.entry c.lineId).completed_lineId c
      exact ⟨_, hlines.trans (congrArg (cache.lines.set · _) hid)⟩
    · left
      rw [update, cache_applyChange_of_refused hj]
  | snapshot line =>
    right
    change ∃ snapshot, (cache.seedLine line).cache.lines = cache.lines.set line.id snapshot
    unfold seedLine
    split <;> exact ⟨_, rfl⟩
  | history id changes =>
    let filled := ((cache.addRecords id (StatusChange.sort changes)).1.prune retention id).1
    have hlines : filled.lines = cache.lines := by rw [lines_prune, lines_addRecords]
    have hentry : filled.entry id =
        ((cache.entry id).addRecords id (StatusChange.sort changes)).prune retention := by
      rw [entry_prune, if_pos rfl, entry_addRecords, if_pos rfl]
    change (filled.followLog id).lines = cache.lines ∨
      ∃ line, (filled.followLog id).lines = cache.lines.set id line
    rcases filled.followLog_cases id with ⟨latest, hlatest, hfollow, _⟩ | ⟨hkeep, _⟩
    · right
      have hrecorded : (filled.entry id).Recorded id := hentry ▸ (h.addRecords _).prune
      have hown : latest.lineId = id := hrecorded.own latest (List.mem_of_getLast? hlatest)
      rw [hfollow, follow, hlines, hown]
      exact ⟨_, rfl⟩
    · left
      rw [hkeep, hlines]

/-- The line of an update is filed behind all others, if it was not cached. -/
theorem keys_lines_update (retention : Retention)
    (h : (cache.entry u.lineId).Recorded u.lineId) :
    (cache.update retention u).lines.keys =
      cache.lines.keys ++ (cache.entry u.lineId).filedBy retention u := by
  have hentry := entry_update retention h u.lineId
  rw [if_pos rfl] at hentry
  rw [LineEntry.filedBy, ← hentry, entry_line?, entry_line?]
  rcases lines_update retention h with hlines | ⟨line, hlines⟩
  · have hline : (cache.update retention u).line? u.lineId = cache.line? u.lineId :=
      congrArg (Keyed.get? · u.lineId) hlines
    rw [hline, if_neg fun hnew => hnew.2 hnew.1, List.append_nil, hlines]
  · have hline : (cache.update retention u).line? u.lineId = some line := by
      rw [line?, hlines, Keyed.get?_set, if_pos rfl]
    have hcached : u.lineId ∈ cache.lines.keys ↔ ¬cache.line? u.lineId = none := by
      rw [mem_keys_lines_iff, Option.isSome_iff_ne_none]
    rw [hline, hlines, Keyed.keys_set]
    by_cases hnew : cache.line? u.lineId = none
    · rw [if_neg fun hin => hcached.mp hin hnew, if_pos ⟨hnew, Option.some_ne_none line⟩]
    · rw [if_pos (hcached.mpr hnew), if_neg fun h => hnew h.1, List.append_nil]

theorem entry_update_of_ne (retention : Retention)
    (h : (cache.entry u.lineId).Recorded u.lineId) (hid : id ≠ u.lineId) :
    (cache.update retention u).entry id = cache.entry id := by
  rw [entry_update retention h, if_neg hid]

theorem recorded_update (retention : Retention) (h : ∀ id, (cache.entry id).Recorded id)
    (u : LineUpdate) (id : String) : ((cache.update retention u).entry id).Recorded id := by
  rw [entry_update retention (h u.lineId)]
  split_ifs with hid
  · rw [hid]
    exact (h u.lineId).update
  · exact h id

/-- However updates are interleaved, a line is what its own updates make of it. -/
theorem entry_foldl_update (retention : Retention) (h : ∀ id, (cache.entry id).Recorded id)
    (us : List LineUpdate) (id : String) :
    (us.foldl (LineCache.update retention) cache).entry id =
      (us.filter (id = ·.lineId)).foldl (LineEntry.update retention) (cache.entry id) := by
  induction us generalizing cache with
  | nil => rfl
  | cons u rest ih =>
    rw [List.foldl_cons, ih (recorded_update retention h u), entry_update retention (h u.lineId)]
    by_cases hid : id = u.lineId
    · rw [if_pos hid, List.filter_cons_of_pos (by simpa using hid), List.foldl_cons]
    · rw [if_neg hid, List.filter_cons_of_neg (by simpa using hid)]

section

variable (retention) (h : ∀ id, (cache.entry id).Recorded id) (hne : u.lineId ≠ v.lineId)

include h hne

theorem returned_update : (cache.update retention u).returned retention v =
    cache.returned retention v := by
  rw [returned_eq, returned_eq, entry_update_of_ne retention (h u.lineId) hne.symm]

theorem stale_update_update :
    ((cache.update retention u).update retention v).stale =
      (cache.stale || cache.returned retention u = .verdict .applied ||
        cache.returned retention v = .verdict .applied) := by
  rw [stale_update, stale_update, returned_update retention h hne]

theorem keys_lines_update_update :
    ((cache.update retention u).update retention v).lines.keys =
      cache.lines.keys ++ (cache.entry u.lineId).filedBy retention u ++
        (cache.entry v.lineId).filedBy retention v := by
  have hother := entry_update_of_ne retention (h u.lineId) hne.symm
  rw [keys_lines_update retention (hother ▸ h v.lineId), hother,
    keys_lines_update retention (h u.lineId)]

end

/-- Updates of different lines have the same effect and return the same in either order, except that
the lines they file come in that order. None of these is on the list. Each update leaves the entries
of all other lines as they are. -/
theorem updates_commute (reached retention : Retention) (ops : List CacheOp) (u v : LineUpdate)
    (hne : u.lineId ≠ v.lineId) :
    let cache := run reached ops
    let first (w : LineUpdate) : LineCache := cache.update retention w
    let filed (w : LineUpdate) : List String := (cache.entry w.lineId).filedBy retention w
    let uv := (first u).update retention v
    let vu := (first v).update retention u
    (∀ id, vu.entry id = uv.entry id) ∧ SameList uv vu ∧
    (first v).returned retention u = cache.returned retention u ∧
    (first u).returned retention v = cache.returned retention v ∧
    uv.lines.keys = cache.lines.keys ++ filed u ++ filed v ∧
    vu.lines.keys = cache.lines.keys ++ filed v ++ filed u ∧
    ∀ w id, (id ∈ filed w → id ∉ cache.listIds) ∧
      (id ≠ w.lineId → (first w).entry id = cache.entry id) := by
  intro cache first filed uv vu
  have hcoherent : cache.Coherent reached := (coherent_empty reached).performAll ops
  have h : ∀ id, (cache.entry id).Recorded id := fun id => (hcoherent.entry id).toRecorded
  refine ⟨fun id => ?_, ⟨?_, ?_⟩, returned_update retention h hne.symm,
    returned_update retention h hne, keys_lines_update_update retention h hne,
    keys_lines_update_update retention h hne.symm, fun w id => ⟨fun hfiled hlisted => ?_,
      entry_update_of_ne retention (h w.lineId)⟩⟩
  · have hswap : [v, u].filter (id = ·.lineId) = [u, v].filter (id = ·.lineId) := by
      by_cases hu : id = u.lineId
      · simp [hu, hne]
      · simp [List.filter_cons, hu]
    exact (entry_foldl_update retention h [v, u] id).trans
      (hswap ▸ (entry_foldl_update retention h [u, v] id).symm)
  · simp only [uv, vu, first, listIds_update]
  · rw [stale_update_update retention h hne, stale_update_update retention h hne.symm,
      Bool.or_right_comm]
  · obtain ⟨rfl, hnew⟩ := LineEntry.of_mem_filedBy hfiled
    have hcached := hcoherent.listed _ hlisted
    rw [← entry_line?, hnew] at hcached
    exact absurd hcached Bool.false_ne_true

/-- Two lines that are not cached, of which one is told of by a change and one by a history. -/
theorem updates_commute_newcomers :
    let u : LineUpdate := .change { time := .epoch, lineId := "b", newStatus := .on }
    let v : LineUpdate :=
      .history "c" [{ time := .epoch, lineId := "c", newStatus := .off }]
    let uv := (empty.update none u).update none v
    let vu := (empty.update none v).update none u
    u.lineId ≠ v.lineId ∧ (∀ id, vu.entry id = uv.entry id) ∧ SameList uv vu ∧
    (empty.update none v).returned none u = .verdict .applied ∧
    (empty.update none u).returned none v = .added 1 ∧
    uv.lines.keys = ["b", "c"] ∧ vu.lines.keys = ["c", "b"] := by
  intro u v uv vu
  have hne : u.lineId ≠ v.lineId := by decide
  obtain ⟨hentry, hlist, hu, hv, huv, hvu, -⟩ := updates_commute none none [] u v hne
  exact ⟨hne, hentry, hlist, hu.trans (by decide +kernel), hv.trans (by decide +kernel),
    huv.trans (by decide +kernel), hvu.trans (by decide +kernel)⟩

end LineCache

end LineWatch
