import LineWatch.Cache.Merge
import Mathlib.Tactic

/-!
# What the cache holds of one line

An entry is the snapshot of a line, its log and the keys of its log, each of which may be absent.
Every merge that concerns one line acts on the entry of this line alone, by an operation on
entries; the entries of all other lines stay as they are.
-/

namespace LineWatch

/-- A status and the time since which it holds. -/
abbrev Standing := Status × Instant

def StatusChange.standing (c : StatusChange) : Standing := (c.newStatus, c.time)

def ProductionLine.standing? (line : ProductionLine) : Option Standing :=
  line.lastStatusUpdate.map (line.status, ·)

@[ext]
structure LineEntry where
  line? : Option ProductionLine := none
  log? : Option (List StatusChange) := none
  keys? : Option (List ChangeKey) := none

namespace LineEntry

def log (e : LineEntry) : List StatusChange := e.log?.getD []

def keys (e : LineEntry) : List ChangeKey := e.keys?.getD []

/-- The status that the snapshot shows, if it tells since when. -/
def standing? (e : LineEntry) : Option Standing := e.line?.bind ProductionLine.standing?

def hasSeen (e : LineEntry) (change : StatusChange) : Bool := e.keys.contains change.key

def append (e : LineEntry) (change : StatusChange) : LineEntry :=
  { e with
    log? := some (StatusChange.insert e.log change)
    keys? := some (if e.keys.contains change.key then e.keys else e.keys ++ [change.key]) }

def prune (retention : Retention) (e : LineEntry) : LineEntry :=
  let count := StatusChange.expired retention e.log
  if count = 0 then e
  else
    let gone := (e.log.take count).map StatusChange.key
    { e with
      log? := some (e.log.drop count)
      keys? := some (e.keys.filter fun key => !gone.contains key) }

def follow (e : LineEntry) (change : StatusChange) : LineEntry :=
  { e with
    line? := some <|
      match e.line? with
      | none => ProductionLine.placeholder change
      | some line => line.withStatus change.newStatus (some change.time) }

def judge (e : LineEntry) (change : StatusChange) : Verdict :=
  match e.line?.bind (LineCache.verdictOf? · change) with
  | some verdict => verdict
  | none => if e.hasSeen change then .known else .applied

def completed (e : LineEntry) (change : StatusChange) : StatusChange :=
  match change.oldStatus, e.line? with
  | none, some line => { change with oldStatus := some line.status }
  | _, _ => change

def accept (retention : Retention) (e : LineEntry) (change : StatusChange) : LineEntry :=
  ((e.follow (e.completed change)).append (e.completed change)).prune retention

def applyChange (retention : Retention) (e : LineEntry) (change : StatusChange) : LineEntry :=
  if e.judge change = .applied then e.accept retention change else e

def newerStatus? (e : LineEntry) (line : ProductionLine) : Option Standing :=
  match e.line? with
  | none => none
  | some cached =>
    match cached.lastStatusUpdate with
    | none => none
    | some since =>
      match line.lastStatusUpdate with
      | none => some (cached.status, since)
      | some fetched => if fetched < since then some (cached.status, since) else none

def seedLine (e : LineEntry) (line : ProductionLine) : LineEntry :=
  { e with
    line? := some <|
      match e.newerStatus? line with
      | some (status, since) => line.withStatus status (some since)
      | none => line }

/-- Adds a record of a history, unless it belongs to another line or is in the log. -/
def addRecord (id : String) (e : LineEntry) (change : StatusChange) : LineEntry :=
  if change.lineId ≠ id ∨ e.hasSeen change then e else e.append change

def addRecords (id : String) (e : LineEntry) (changes : List StatusChange) : LineEntry :=
  changes.foldl (addRecord id) e

def followLog (e : LineEntry) : LineEntry :=
  match e.log.getLast? with
  | none => e
  | some latest =>
    match e.line?.map (·.lastStatusUpdate) with
    | some (some last) => if last < latest.time then e.follow latest else e
    | _ => e.follow latest

def seedHistory (retention : Retention) (id : String) (e : LineEntry)
    (changes : List StatusChange) : LineEntry :=
  ((e.addRecords id (StatusChange.sort changes)).prune retention).followLog

@[simp] theorem completed_lineId (e : LineEntry) (change : StatusChange) :
    (e.completed change).lineId = change.lineId := by
  unfold completed
  split <;> rfl

@[simp] theorem completed_time (e : LineEntry) (change : StatusChange) :
    (e.completed change).time = change.time := by
  unfold completed
  split <;> rfl

@[simp] theorem completed_newStatus (e : LineEntry) (change : StatusChange) :
    (e.completed change).newStatus = change.newStatus := by
  unfold completed
  split <;> rfl

@[simp] theorem completed_key (e : LineEntry) (change : StatusChange) :
    (e.completed change).key = change.key := by
  simp [StatusChange.key, StatusChange.millis]

/-- A change is applied unless the line has its status already, or a newer one, or the log has a
record of its key. -/
theorem judge_applied_iff (e : LineEntry) (change : StatusChange) :
    e.judge change = .applied ↔
      (∀ held ∈ e.standing?,
        ¬(held.1 = change.newStatus ∧ change.time ≤ held.2) ∧ ¬change.time < held.2) ∧
      e.hasSeen change = false := by
  unfold judge standing? ProductionLine.standing?
  cases hline : e.line? with
  | none => cases hs : e.hasSeen change <;> simp
  | some line =>
    cases hlast : line.lastStatusUpdate with
    | none => cases hs : e.hasSeen change <;> simp [LineCache.verdictOf?, hlast]
    | some last =>
      simp only [Option.bind_some, LineCache.verdictOf?, hlast, Option.map_some,
        Option.mem_some_iff, forall_eq']
      by_cases hdup : line.status = change.newStatus ∧ change.time ≤ last
      · simp [hdup]
      · by_cases hold : change.time < last
        · simp [hdup, hold]
        · cases hs : e.hasSeen change <;> simp [hdup, hold]

theorem judge_ne_applied_iff (e : LineEntry) (change : StatusChange) :
    e.judge change ≠ .applied ↔
      (∃ held ∈ e.standing?,
        held.1 = change.newStatus ∧ change.time ≤ held.2 ∨ change.time < held.2) ∨
      e.hasSeen change = true := by
  rw [ne_eq, judge_applied_iff, Classical.not_and_iff_not_or_not, Bool.not_eq_false]
  apply or_congr_left
  push Not
  refine exists_congr fun held => and_congr_right fun _ => ?_
  rw [or_iff_not_imp_left]
  push Not
  rfl

end LineEntry

@[simp] theorem ProductionLine.withStatus_id (line : ProductionLine) (status : Status)
    (since : Option Instant) : (line.withStatus status since).id = line.id := rfl

namespace LineCache

def entry (cache : LineCache) (id : String) : LineEntry :=
  ⟨cache.line? id, cache.logs.get? id, cache.seen.get? id⟩

@[simp] theorem entry_line? (cache : LineCache) (id : String) :
    (cache.entry id).line? = cache.line? id := rfl

@[simp] theorem entry_log? (cache : LineCache) (id : String) :
    (cache.entry id).log? = cache.logs.get? id := rfl

@[simp] theorem entry_keys? (cache : LineCache) (id : String) :
    (cache.entry id).keys? = cache.seen.get? id := rfl

@[simp] theorem entry_log (cache : LineCache) (id : String) :
    (cache.entry id).log = cache.log id := rfl

@[simp] theorem entry_keys (cache : LineCache) (id : String) :
    (cache.entry id).keys = cache.seenKeys id := rfl

/-- The list order and the mark on it are no part of any entry. -/
@[simp] theorem entry_relist (cache : LineCache) (ids : List String) (stale : Bool)
    (id : String) :
    ({ cache with listIds := ids, stale := stale } : LineCache).entry id = cache.entry id := rfl

theorem entry_append (cache : LineCache) (change : StatusChange) (id : String) :
    (cache.append change).entry id =
      if id = change.lineId then (cache.entry id).append change else cache.entry id := by
  split_ifs with h
  · subst h
    ext1 <;> simp [append, LineEntry.append, line?, Keyed.get?_set]
  · ext1 <;> simp [append, line?, Keyed.get?_set, h]

theorem entry_prune (retention : Retention) (cache : LineCache) (target id : String) :
    (cache.prune retention target).1.entry id =
      if id = target then (cache.entry id).prune retention else cache.entry id := by
  by_cases hc : StatusChange.expired retention (cache.log target) = 0
  · have hp : (cache.prune retention target).1 = cache := by simp [prune, hc]
    rw [hp]
    split_ifs with h
    · subst h
      simp [LineEntry.prune, hc]
    · rfl
  · simp only [prune, hc, if_false]
    split_ifs with h
    · subst h
      simp only [LineEntry.prune, entry_log, entry_keys, hc, if_false]
      ext1 <;> simp [line?, Keyed.get?_set]
    · ext1 <;> simp [line?, Keyed.get?_set, h]

theorem entry_follow (cache : LineCache) (change : StatusChange) (id : String) :
    (cache.follow change).entry id =
      if id = change.lineId then (cache.entry id).follow change else cache.entry id := by
  split_ifs with h
  · subst h
    cases hl : cache.line? change.lineId <;> ext1 <;>
      simp_all [follow, LineEntry.follow, line?, Keyed.get?_set]
  · ext1 <;> simp [follow, line?, Keyed.get?_set, h]

theorem entry_setLine (cache : LineCache) (line : ProductionLine) (id : String) :
    (cache.setLine line).entry id =
      if id = line.id then { cache.entry id with line? := some line } else cache.entry id := by
  split_ifs with h
  · subst h
    ext1 <;> simp [setLine, line?, Keyed.get?_set]
  · ext1 <;> simp [setLine, line?, Keyed.get?_set, h]

theorem entry_removeLine (cache : LineCache) (target id : String) :
    (cache.removeLine target).entry id = if id = target then {} else cache.entry id := by
  split_ifs with h <;> ext1 <;> simp [removeLine, line?, Keyed.get?_erase, h]

@[simp] theorem judge_entry (cache : LineCache) (change : StatusChange) :
    (cache.entry change.lineId).judge change = cache.judge change := rfl

theorem completed_entry (cache : LineCache) (change : StatusChange) :
    (cache.entry change.lineId).completed change = cache.completed change := rfl

theorem entry_accept (retention : Retention) (cache : LineCache) (change : StatusChange)
    (id : String) :
    (cache.accept retention change).1.entry id =
      if id = change.lineId then (cache.entry id).accept retention change
      else cache.entry id := by
  have hid : (cache.completed change).lineId = change.lineId :=
    (cache.entry change.lineId).completed_lineId change
  change ((((cache.follow (cache.completed change)).append (cache.completed change)).prune
    retention (cache.completed change).lineId).1).entry id = _
  simp only [entry_prune, entry_append, entry_follow, hid]
  split_ifs with h
  · subst h
    rw [LineEntry.accept, completed_entry]
  · rfl

theorem entry_applyChange (retention : Retention) (cache : LineCache) (change : StatusChange)
    (id : String) :
    (cache.applyChange retention change).cache.entry id =
      if id = change.lineId then (cache.entry id).applyChange retention change
      else cache.entry id := by
  cases hj : cache.judge change
  case applied =>
    simp only [applyChange, hj, entry_accept]
    split_ifs with h
    · subst h
      rw [LineEntry.applyChange, judge_entry, if_pos hj]
    · rfl
  all_goals
    simp only [applyChange, hj]
    split_ifs with h
    · subst h
      rw [LineEntry.applyChange, judge_entry, if_neg (by simp [hj])]
    · rfl

theorem entry_seedLine (cache : LineCache) (line : ProductionLine) (id : String) :
    (cache.seedLine line).cache.entry id =
      if id = line.id then (cache.entry id).seedLine line else cache.entry id := by
  have hn : cache.newerStatus? line = (cache.entry line.id).newerStatus? line := rfl
  by_cases h : id = line.id
  · subst h
    cases hk : (cache.entry line.id).newerStatus? line <;>
      simp [seedLine, LineEntry.seedLine, hn, hk, entry_setLine]
  · cases hk : cache.newerStatus? line <;> simp [seedLine, hk, entry_setLine, h]

/-- The entry after the records of a history. None of them is a record of another line. -/
theorem entry_addRecords (cache : LineCache) (target : String) (changes : List StatusChange)
    (id : String) :
    (cache.addRecords target changes).1.entry id =
      if id = target then (cache.entry id).addRecords id changes else cache.entry id := by
  induction changes generalizing cache with
  | nil => simp [addRecords, LineEntry.addRecords]
  | cons change rest ih =>
    by_cases hskip : change.lineId ≠ target ∨ cache.hasSeen target change
    · rw [addRecords, if_pos hskip, ih]
      split_ifs with h
      · subst h
        have hr : LineEntry.addRecord id (cache.entry id) change = cache.entry id := if_pos hskip
        rw [LineEntry.addRecords, LineEntry.addRecords, List.foldl_cons, hr]
      · rfl
    · have hid : change.lineId = target := by
        by_contra hne
        exact hskip (.inl hne)
      have hstep : (cache.addRecords target (change :: rest)).1 =
          ((cache.append change).addRecords target rest).1 := by
        rw [addRecords, if_neg hskip]
      rw [hstep, ih]
      split_ifs with h
      · subst h
        have hr : LineEntry.addRecord id (cache.entry id) change = (cache.entry id).append change :=
          if_neg hskip
        rw [LineEntry.addRecords, LineEntry.addRecords, List.foldl_cons, hr, entry_append,
          if_pos hid.symm]
      · rw [entry_append, if_neg (hid.symm ▸ h)]

/-- A cache and its entry decide alike whether the line follows its log. -/
theorem followLog_cases (cache : LineCache) (id : String) :
    (∃ latest ∈ (cache.log id).getLast?, cache.followLog id = cache.follow latest ∧
      (cache.entry id).followLog = (cache.entry id).follow latest) ∨
    (cache.followLog id = cache ∧ (cache.entry id).followLog = cache.entry id) := by
  cases hl : (cache.log id).getLast? with
  | none => right; simp [followLog, LineEntry.followLog, hl]
  | some latest =>
    cases hline : cache.line? id with
    | none => left; simp [followLog, LineEntry.followLog, hl, hline]
    | some line =>
      cases hlast : line.lastStatusUpdate with
      | none => left; simp [followLog, LineEntry.followLog, hl, hline, hlast]
      | some last =>
        by_cases hlt : last < latest.time
        · left; simp [followLog, LineEntry.followLog, hl, hline, hlast, hlt]
        · right; simp [followLog, LineEntry.followLog, hl, hline, hlast, hlt]

theorem entry_followLog (cache : LineCache) (target : String)
    (hown : ∀ c ∈ cache.log target, c.lineId = target) (id : String) :
    (cache.followLog target).entry id =
      if id = target then (cache.entry id).followLog else cache.entry id := by
  rcases cache.followLog_cases target with ⟨latest, hl, hc, he⟩ | ⟨hc, he⟩
  · rw [hc, entry_follow, hown latest (List.mem_of_getLast? hl)]
    split_ifs with h
    · subst h
      exact he.symm
    · rfl
  · rw [hc]
    split_ifs with h
    · subst h
      exact he.symm
    · rfl

end LineCache

end LineWatch
