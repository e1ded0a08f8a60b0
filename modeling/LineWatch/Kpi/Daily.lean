import LineWatch.Kpi.Summary
import LineWatch.Kpi.Window
import LineWatch.Time.Zone

/-!
# Key figures by day

A window is split at the local midnights of a calendar into the buckets of consecutive dates,
the first and the last one cut to the window. Each bucket has the figures of the intervals
clipped to it. The days of a single line begin with its first record.
-/

namespace LineWatch

/-- The part of a window that belongs to one date. -/
structure Bucket where
  date : Date
  start : Int
  stop : Int
  deriving DecidableEq, Repr

structure DailyFigures where
  date : Date
  uptimeHours : Binary64
  uptimePercentage : Binary64
  maintenanceHours : Binary64
  errorHours : Binary64
  interruptions : Nat
  meanRepairHours : Binary64
  deriving DecidableEq, Repr

namespace Calendar

/-- The millisecond at which a date starts. -/
def midnightMillis (calendar : Calendar) (date : Date) : Int :=
  epochMillis (calendar.midnight date)

/-- The buckets from `date` on; `fuel` counts the supported dates that are left. -/
def bucketsFrom? (calendar : Calendar) (start stop : Int) :
    (fuel : Nat) → Date → Option (List Bucket)
  | 0, date => if stop ≤ calendar.midnightMillis date then some [] else none
  | fuel + 1, date =>
    let midnight := calendar.midnightMillis date
    if stop ≤ midnight then some []
    else if !date.next.isSupported then none
    else
      let following := calendar.midnightMillis date.next
      (bucketsFrom? calendar start stop fuel date.next).map
        (⟨date, max midnight start, min following stop⟩ :: ·)

def supportedFrom (date : Date) : Nat := (2932896 - date.day).toNat

/-- The buckets of a window that is not empty, from the local date of its start on. -/
def buckets? (calendar : Calendar) (start stop : Int) : Except QueryError (List Bucket) :=
  match Instant.ofMillis? start with
  | .error e => .error (.ofMillisError e)
  | .ok first =>
    let date := calendar.dateAt first.micros
    if !date.isSupported then .error .outOfRange
    else
      match bucketsFrom? calendar start stop (supportedFrom date) date with
      | some buckets => .ok buckets
      | none => .error .outOfRange

/-- The buckets of a window; an empty one has none. -/
def days? (calendar : Calendar) (start stop : Int) : Except QueryError (List Bucket) :=
  if stop ≤ start then .ok [] else calendar.buckets? start stop

end Calendar

namespace DailyFigures

def ofSummary? (date : Date) (s : Summary) : Option DailyFigures := do
  return {
    date
    uptimeHours := ← s.hours? .on
    uptimePercentage := s.uptimePercentage
    maintenanceHours := ← s.hours? .maintenance
    errorHours := ← s.hours? .error
    interruptions := s.interruptions
    meanRepairHours := s.meanRepairHours }

def ofBucket? (intervals : List Interval) (b : Bucket) : Option DailyFigures := do
  ofSummary? b.date (← Summary.of? (Interval.clip intervals b.start b.stop))

def toJson (d : DailyFigures) : Json := .obj [
  ("date", .str (String.ofList d.date.text)),
  ("uptime_hours", .float d.uptimeHours),
  ("uptime_percentage", .float d.uptimePercentage),
  ("maintenance_hours", .float d.maintenanceHours),
  ("error_hours", .float d.errorHours),
  ("interruption_count", Json.ofNat d.interruptions),
  ("mttr_hours", .float d.meanRepairHours)]

end DailyFigures

namespace Kpi

/-- The rows of some buckets. -/
def rowsOf (intervals : List Interval) (buckets : List Bucket) :
    Except QueryError (List DailyFigures) :=
  match buckets.mapM (DailyFigures.ofBucket? intervals) with
  | some rows => .ok rows
  | none => .error .outOfRange

/-- One row for every date of the window in a calendar. -/
def dailyIn (calendar : Calendar) (intervals : List Interval) (start stop : Int) :
    Except QueryError (List DailyFigures) := do
  rowsOf intervals (← calendar.days? start stop)

/-- One row for every date of the window in the zone of that name. An empty window needs no
zone. -/
def daily (zone : Option String) (intervals : List Interval) (start stop : Int) :
    Except QueryError (List DailyFigures) :=
  if stop ≤ start then .ok []
  else
    match Zone.ofName? zone with
    | some z => dailyIn z.calendar intervals start stop
    | none => .error (.unknownZone (zone.getD ""))

/-- The millisecond of the earliest record. -/
def firstMillis? : List StatusChange → Option Int
  | [] => none
  | [c] => some c.millis
  | c :: rest => (firstMillis? rest).map (min c.millis)

def windowEnd (window : Window) (now : Option Timestamp) : Int :=
  Interval.knownEnd window.stop.millis (now.map (·.millis))

/-- What `days` yields for the window of one line. Days before its first record are left out, so
that a window that reaches back to 1970 has no empty rows. -/
def ofLine {α : Type} (days : Int → Int → Except QueryError (List α))
    (changes : List StatusChange) (window : Window) (now : Option Timestamp) :
    Except QueryError (List α) :=
  match firstMillis? changes with
  | none => .ok []
  | some first => days (max window.start.millis first) (windowEnd window now)

/-- The intervals of one line up to the end of a window. -/
def lineIntervals (changes : List StatusChange) (window : Window) (now : Option Timestamp) :
    List Interval :=
  Interval.resolve changes (windowEnd window now)

/-- The rows of one line in a calendar. -/
def lineDailyIn (calendar : Calendar) (changes : List StatusChange) (window : Window)
    (now : Option Timestamp) : Except QueryError (List DailyFigures) :=
  ofLine (dailyIn calendar (lineIntervals changes window now)) changes window now

/-- The rows of one line in the zone of that name. -/
def lineDaily (zone : Option String) (changes : List StatusChange) (window : Window)
    (now : Option Timestamp) : Except QueryError (List DailyFigures) :=
  ofLine (daily zone (lineIntervals changes window now)) changes window now

end Kpi

end LineWatch
