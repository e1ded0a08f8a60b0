import LineWatch.Cache.Keyed
import LineWatch.Line.Change
import LineWatch.Line.Snapshot

/-!
# Cached lines and their logs

The cache holds the latest known snapshot of every line, the status logs, the keys of the
records in each log, and the order of the line list as it was last fetched. The list is stale
when it has to be fetched again before it can be trusted.
-/

namespace LineWatch

structure LineCache where
  lines : Keyed ProductionLine := []
  logs : Keyed (List StatusChange) := []
  seen : Keyed (List ChangeKey) := []
  listIds : List String := []
  stale : Bool := true

namespace LineCache

instance : Inhabited LineCache := ⟨{}⟩

def empty : LineCache := {}

def size (cache : LineCache) : Nat := cache.lines.length

def line? (cache : LineCache) (id : String) : Option ProductionLine := cache.lines.get? id

def log (cache : LineCache) (id : String) : List StatusChange := (cache.logs.get? id).getD []

def seenKeys (cache : LineCache) (id : String) : List ChangeKey := (cache.seen.get? id).getD []

/-- Whether a record with the key of `change` is in the log of its line. -/
def hasSeen (cache : LineCache) (id : String) (change : StatusChange) : Bool :=
  (cache.seenKeys id).contains change.key

/-- The lines in the order of the list, then the lines known from the stream alone. -/
def listLines (cache : LineCache) : List ProductionLine :=
  cache.listIds.filterMap cache.line? ++
    (cache.lines.filter fun kv => !cache.listIds.contains kv.1).map (·.2)

def setLine (cache : LineCache) (line : ProductionLine) : LineCache :=
  { cache with lines := cache.lines.set line.id line }

def removeLine (cache : LineCache) (id : String) : LineCache :=
  { cache with
    lines := cache.lines.erase id
    logs := cache.logs.erase id
    seen := cache.seen.erase id }

end LineCache

/-- A line of which nothing but a status record is known. -/
def ProductionLine.placeholder (change : StatusChange) : ProductionLine :=
  let code := match change.lineCode with
    | some "" | none => change.lineId
    | some code => code
  { id := change.lineId
    code := code
    name := code
    status := change.newStatus
    statusSince := some change.time }

end LineWatch
