import LineWatch.Interval.Clip

/-!
# Key figures of a sequence of intervals

All durations are milliseconds. Uptime is the share of the elapsed time spent in `on`. The mean
time to repair is the mean length of the intervals in `maintenance` and `error`, and every
interval in `error` is an interruption. A quotient of two integers is rounded once; one too
large for binary64 makes the whole summary fail.
-/

namespace LineWatch

structure Share where
  hours : Binary64
  percentage : Binary64
  deriving DecidableEq, Repr

structure Summary where
  total : Int
  durations : Status → Int
  uptimePercentage : Binary64
  meanRepair : Binary64
  repairs : Nat
  interruptions : Nat
  /-- The statuses in which time was spent. -/
  shares : List (Status × Share)

namespace Summary

def durationIn (intervals : List Interval) (s : Status) : Int :=
  Interval.covered (intervals.filter (·.status == s))

def hundred : Binary64 := .finite 100

def hoursOf? (ms : Int) : Option Binary64 := Binary64.quotient? ms millisPerHour

def percentage? (part total : Int) : Option Binary64 :=
  if total ≤ 0 then some .zero else (Binary64.quotient? part total).map (·.mul hundred)

def repairIntervals (intervals : List Interval) : List Interval :=
  intervals.filter (·.status.needsRepair)

def meanRepair? (intervals : List Interval) : Option Binary64 :=
  let repairs := repairIntervals intervals
  if repairs.isEmpty then some .zero
  else Binary64.quotient? (Interval.covered repairs) repairs.length

def share? (duration total : Int) : Option Share := do
  return ⟨← hoursOf? duration, ← percentage? duration total⟩

/-- The shares of the statuses with a positive duration. -/
def shares? (durations : Status → Int) (total : Int) : List Status → Option (List (Status × Share))
  | [] => some []
  | s :: rest =>
    if durations s ≤ 0 then shares? durations total rest
    else do return (s, ← share? (durations s) total) :: (← shares? durations total rest)

/-- The figures of `intervals` over `total` milliseconds of elapsed time. -/
def over? (intervals : List Interval) (total : Int) : Option Summary := do
  let durations := durationIn intervals
  let uptime ← percentage? (durations .on) total
  let meanRepair ← meanRepair? intervals
  let shares ← shares? durations total Status.all
  return {
    total, durations
    uptimePercentage := uptime
    meanRepair
    repairs := (repairIntervals intervals).length
    interruptions := (intervals.filter (·.status == .error)).length
    shares }

/-- The figures of `intervals` over the time they cover. -/
def of? (intervals : List Interval) : Option Summary := over? intervals (Interval.covered intervals)

/-- The hours spent in a status. -/
def hours? (s : Summary) (status : Status) : Option Binary64 := hoursOf? (s.durations status)

def meanRepairHours (s : Summary) : Binary64 := s.meanRepair.divInt millisPerHour

def sharesJson (shares : List (Status × Share)) : Json := .obj <| shares.map fun p =>
  (p.1.name, .obj [("duration_hours", .float p.2.hours), ("percentage", .float p.2.percentage)])

def toJson (s : Summary) : Json := .obj [
  ("total_ms", .int s.total),
  ("durations_ms", .obj (Status.all.map fun status => (status.name, .int (s.durations status)))),
  ("uptime_percentage", .float s.uptimePercentage),
  ("mttr_ms", .float s.meanRepair),
  ("repair_count", Json.ofNat s.repairs),
  ("interruption_count", Json.ofNat s.interruptions),
  ("status_distribution", sharesJson s.shares)]

end Summary

end LineWatch
