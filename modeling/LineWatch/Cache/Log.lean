import LineWatch.Cache.Basic

/-!
# Keeping a status log

A log is in the order of the milliseconds of its records. A record that comes in late is put in
its place behind the records of its millisecond. With a retention a log reaches back that far
from its newest record, and keeps one record from before, which gives the status at that
point.
-/

namespace LineWatch

/-- Milliseconds a log reaches back from its newest record; without a bound it keeps all. -/
abbrev Retention := Option Int

def Retention.ofDays (days : Int) : Retention :=
  if days ≤ 0 then none else some (days * millisPerDay)

namespace StatusChange

def insert (log : List StatusChange) (change : StatusChange) : List StatusChange :=
  match log.getLast? with
  | none => [change]
  | some last => if change.time < last.time then sort (log ++ [change]) else log ++ [change]

/-- How many records at the start of a log are no longer needed. -/
def expired (retention : Retention) (log : List StatusChange) : Nat :=
  match retention, log.getLast? with
  | some span, some newest =>
    (log.takeWhile fun c => c.millis ≤ newest.millis - span).length - 1
  | _, _ => 0

end StatusChange

namespace LineCache

def append (cache : LineCache) (change : StatusChange) : LineCache :=
  let id := change.lineId
  let keys := cache.seenKeys id
  { cache with
    logs := cache.logs.set id (StatusChange.insert (cache.log id) change)
    seen := cache.seen.set id (if keys.contains change.key then keys else keys ++ [change.key]) }

/-- Drops the records of a line that the retention does not reach, and says how many. -/
def prune (retention : Retention) (cache : LineCache) (id : String) : LineCache × Nat :=
  let log := cache.log id
  let count := StatusChange.expired retention log
  if count = 0 then (cache, 0)
  else
    let gone := (log.take count).map StatusChange.key
    ({ cache with
        logs := cache.logs.set id (log.drop count)
        seen := cache.seen.set id ((cache.seenKeys id).filter fun key => !gone.contains key) },
      count)

end LineCache

end LineWatch
