import LineWatch.Cache.Log
import LineWatch.EventStream.Event
import LineWatch.Remote.Error

/-!
# Merging into the cache

Status changes, snapshots and histories are merged so that older data never replace newer
ones. A change is a duplicate if the line has its status already, since a time not before it;
it is stale if it is older than what is known of the line; it is known if the log holds a
record of its key. An applied change marks the line list as stale.
-/

namespace LineWatch

/-- What becomes of a status change. -/
inductive Verdict where
  | applied
  | duplicate
  | stale
  | known
  deriving DecidableEq, Repr

/-- Why a line left the cache. -/
inductive Removal where
  | deleted
  | notListed
  deriving DecidableEq, Repr

def Removal.name : Removal → String
  | .deleted => "deleted"
  | .notListed => "not_listed"

inductive CacheNotice where
  | offered (verdict : Verdict)
  | duplicateDropped (lineId : String) (status : Status)
  | staleDropped (change : StatusChange) (cached : Instant)
  | applied (change : StatusChange)
  | snapshotStatusKept (lineId : String) (status : Status)
  | lineRemoved (lineId : String) (reason : Removal)
  | linesSeeded (count : Nat)
  | historySeeded (lineId : String) (added : Nat)
  | logPruned (lineId : String) (dropped : Nat)
  | lineEvent (type lineId : Option String)
  | listRefreshFailed (error : RemoteError)
  | historyFetchFailed (lineId : String) (error : RemoteError)

namespace CacheNotice

/-- How a notice is written down; a verdict is only counted. -/
def entries : CacheNotice → List Entry
  | .offered _ => []
  | .duplicateDropped lineId status => [⟨"cache.duplicate_dropped", .debug,
      [("line_id", .str lineId), ("status", status.toJson)]⟩]
  | .staleDropped change cached => [⟨"cache.stale_dropped", .debug, [
      ("line_id", .str change.lineId), ("status", change.newStatus.toJson),
      ("event_time", .str change.time.offsetText), ("cached_time", .str cached.offsetText)]⟩]
  | .applied change => [⟨"cache.status_applied", .info, [
      ("line_id", .str change.lineId),
      ("old_status", Json.ofOption Status.toJson change.oldStatus),
      ("new_status", change.newStatus.toJson), ("time", .str change.time.offsetText)]⟩]
  | .snapshotStatusKept lineId status => [⟨"cache.snapshot_status_kept", .debug,
      [("line_id", .str lineId), ("status", status.toJson)]⟩]
  | .lineRemoved lineId reason => [⟨"cache.line_removed", .info,
      [("line_id", .str lineId), ("reason", .str reason.name)]⟩]
  | .linesSeeded count => [⟨"cache.lines_seeded", .info, [("count", Json.ofNat count)]⟩]
  | .historySeeded lineId added => [⟨"cache.history_seeded", .info,
      [("line_id", .str lineId), ("added", Json.ofNat added)]⟩]
  | .logPruned lineId dropped => [⟨"cache.log_pruned", .debug,
      [("line_id", .str lineId), ("dropped", Json.ofNat dropped)]⟩]
  | .lineEvent type lineId => [⟨"cache.line_event", .info,
      [("event_type", Json.ofOption .str type), ("line_id", Json.ofOption .str lineId)]⟩]
  | .listRefreshFailed error => [⟨"cache.list_refresh_failed", .warning,
      [("error", error.message), ("status_code", Json.ofOption .int error.status)]⟩]
  | .historyFetchFailed lineId error => [⟨"cache.history_fetch_failed", .warning,
      [("line_id", .str lineId), ("error", error.message)]⟩]

end CacheNotice

/-- The outcome of a merge: the cache after it, what it returns, and what it reports. -/
structure Merged (α : Type) where
  cache : LineCache
  value : α
  notices : List CacheNotice := []

namespace LineCache

/-- The verdict that the cached status of the line passes on a change. -/
def verdictOf? (line : ProductionLine) (change : StatusChange) : Option Verdict :=
  match line.lastStatusUpdate with
  | none => none
  | some last =>
    if line.status = change.newStatus ∧ change.time ≤ last then some .duplicate
    else if change.time < last then some .stale
    else none

def judge (cache : LineCache) (change : StatusChange) : Verdict :=
  match (cache.line? change.lineId).bind (verdictOf? · change) with
  | some verdict => verdict
  | none => if cache.hasSeen change.lineId change then .known else .applied

/-- The change with the status it replaces, where it does not tell. -/
def completed (cache : LineCache) (change : StatusChange) : StatusChange :=
  match change.oldStatus, cache.line? change.lineId with
  | none, some line => { change with oldStatus := some line.status }
  | _, _ => change

/-- Moves the snapshot of a line to the status of a record. -/
def follow (cache : LineCache) (change : StatusChange) : LineCache :=
  { cache with
    lines := cache.lines.set change.lineId <|
      match cache.line? change.lineId with
      | none => ProductionLine.placeholder change
      | some line => line.withStatus change.newStatus (some change.time) }

def pruneNotice (id : String) (dropped : Nat) : List CacheNotice :=
  if dropped = 0 then [] else [.logPruned id dropped]

/-- What a change does that passes all checks. -/
def accept (retention : Retention) (cache : LineCache) (change : StatusChange) :
    LineCache × List CacheNotice :=
  let change := cache.completed change
  let (pruned, dropped) := ((cache.follow change).append change).prune retention change.lineId
  ({ pruned with stale := true },
    pruneNotice change.lineId dropped ++ [.offered .applied, .applied change])

def rejection (cache : LineCache) (change : StatusChange) : Verdict → List CacheNotice
  | .duplicate => [.offered .duplicate, .duplicateDropped change.lineId change.newStatus]
  | .stale =>
    let cached := (cache.line? change.lineId).bind (·.lastStatusUpdate)
    [.offered .stale, .staleDropped change (cached.getD change.time)]
  | .known => [.offered .known]
  | .applied => []

/-- Merges one live status change. -/
def applyChange (retention : Retention) (cache : LineCache) (change : StatusChange) :
    Merged Verdict :=
  match cache.judge change with
  | .applied =>
    let (cache, notices) := cache.accept retention change
    ⟨cache, .applied, notices⟩
  | verdict => ⟨cache, verdict, cache.rejection change verdict⟩

def invalidate (cache : LineCache) : LineCache := { cache with stale := true }

/-- Merges an event that tells of a line created, changed or deleted: the list has to be fetched
again. -/
def applyLineEvent (cache : LineCache) (event : StreamEvent) : Merged Unit :=
  ⟨cache.invalidate, (), [.lineEvent event.type? event.lineId?]⟩

/-- The cached status and its time, if they are newer than a fetched snapshot. -/
def newerStatus? (cache : LineCache) (line : ProductionLine) : Option (Status × Instant) :=
  match cache.line? line.id with
  | none => none
  | some cached =>
    match cached.lastStatusUpdate with
    | none => none
    | some since =>
      match line.lastStatusUpdate with
      | none => some (cached.status, since)
      | some fetched => if fetched < since then some (cached.status, since) else none

/-- Merges a fetched snapshot; its status counts unless the cached one is newer. The value tells
whether it was taken. -/
def seedLine (cache : LineCache) (line : ProductionLine) : Merged Bool :=
  match cache.newerStatus? line with
  | some (status, since) =>
    ⟨cache.setLine (line.withStatus status (some since)), false,
      [.snapshotStatusKept line.id status]⟩
  | none => ⟨cache.setLine line, true, []⟩

/-- Merges snapshots one after the other. -/
def seedEach (cache : LineCache) : List ProductionLine → Merged Unit
  | [] => ⟨cache, (), []⟩
  | line :: rest =>
    let first := cache.seedLine line
    let later := seedEach first.cache rest
    ⟨later.cache, (), first.notices ++ later.notices⟩

/-- Why a cached line is no longer there, given the identifiers of a list fetched at `fetchedAt`:
it was on the list before, or all that is known of it is older than the fetch. -/
def removal? (cache : LineCache) (fetched : List String) (fetchedAt : Option Instant)
    (id : String) (line : ProductionLine) : Option Removal :=
  if fetched.contains id then none
  else if cache.listIds.contains id then some .deleted
  else
    match fetchedAt, line.lastStatusUpdate with
    | some asked, some last => if last ≤ asked then some .notListed else none
    | _, _ => none

def removals (cache : LineCache) (fetched : List String) (fetchedAt : Option Instant) :
    List (String × Removal) :=
  cache.lines.filterMap fun kv =>
    (cache.removal? fetched fetchedAt kv.1 kv.2).map (kv.1, ·)

/-- Merges a fetched line list, which replaces the list before it. -/
def seedLines (cache : LineCache) (lines : List ProductionLine) (fetchedAt : Option Instant) :
    Merged Unit :=
  let ids := lines.map (·.id)
  let seeded := cache.seedEach lines
  let gone := seeded.cache.removals ids fetchedAt
  let kept := gone.foldl (fun cache g => cache.removeLine g.1) seeded.cache
  ⟨{ kept with listIds := ids, stale := false }, (),
    seeded.notices ++ gone.map (fun g => .lineRemoved g.1 g.2) ++ [.linesSeeded ids.length]⟩

/-- Adds the records of a history that belong to the line and are not in its log yet. -/
def addRecords (cache : LineCache) (id : String) : List StatusChange → LineCache × Nat
  | [] => (cache, 0)
  | change :: rest =>
    if change.lineId ≠ id ∨ cache.hasSeen id change then addRecords cache id rest
    else
      let (cache, added) := addRecords (cache.append change) id rest
      (cache, added + 1)

/-- Lets the status of a line follow the newest record of its log, if that is newer. -/
def followLog (cache : LineCache) (id : String) : LineCache :=
  match (cache.log id).getLast? with
  | none => cache
  | some latest =>
    match (cache.line? id).map (·.lastStatusUpdate) with
    | some (some last) => if last < latest.time then cache.follow latest else cache
    | _ => cache.follow latest

/-- Merges a fetched history; the value is the number of records added. -/
def seedHistory (retention : Retention) (cache : LineCache) (id : String)
    (changes : List StatusChange) : Merged Nat :=
  let (filled, added) := cache.addRecords id (StatusChange.sort changes)
  let (pruned, dropped) := filled.prune retention id
  ⟨pruned.followLog id, added,
    pruneNotice id dropped ++ if added = 0 then [] else [.historySeeded id added]⟩

end LineCache

end LineWatch
