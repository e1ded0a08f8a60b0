import LineWatch.Decode.Scalar

/-!
# Inspection windows

A query names its window by a timeframe: the last hours or days up to now, all time since 1970,
or a pair of times of its own. The bounds of a resolved window are in UTC.
-/

namespace LineWatch

inductive Timeframe where
  | lastDay
  | lastWeek
  | lastMonth
  | all
  | custom
  deriving DecidableEq, Repr

namespace Timeframe

def values : List Timeframe := [.lastDay, .lastWeek, .lastMonth, .all, .custom]

def name : Timeframe → String
  | .lastDay => "24h"
  | .lastWeek => "7d"
  | .lastMonth => "30d"
  | .all => "all"
  | .custom => "custom"

def ofName? (s : String) : Option Timeframe := values.find? (·.name == s)

def ofText (s : String) : Decoded Timeframe :=
  match ofName? s with
  | some t => .ok t
  | none => .fault .notAMember

def decode : Decoder Timeframe
  | .str s => ofText s
  | _ => .fault .notAMember

@[simp] theorem ofName?_name (t : Timeframe) : ofName? t.name = some t := by cases t <;> decide

end Timeframe

/-- Why the figures of a query cannot be given. -/
inductive QueryError where
  | incompleteWindow
  | invertedWindow
  | unknownZone (name : String)
  | yearOutOfRange (year : Int)
  | outOfRange
  deriving DecidableEq, Repr

namespace QueryError

def ofMillisError : Instant.MillisError → QueryError
  | .tooLarge => .outOfRange
  | .yearOutOfRange year => .yearOutOfRange year

/-- True if the query itself is at fault, and not the range of the calendar. -/
def isInvalid : QueryError → Bool
  | .incompleteWindow | .invertedWindow | .unknownZone _ => true
  | _ => false

def message : QueryError → String
  | .incompleteWindow => "custom timeframe requires start_time and end_time"
  | .invertedWindow => "start_time must be before end_time"
  | .unknownZone name => "unknown timezone: " ++ name
  | .yearOutOfRange year => (Instant.MillisError.yearOutOfRange year).message
  | .outOfRange => "instant out of range"

end QueryError

structure Window where
  start : Timestamp
  stop : Timestamp
  deriving DecidableEq, Repr

namespace Window

def toJson (w : Window) : Json := .obj [("start", .str w.start.text), ("end", .str w.stop.text)]

def decode : Decoder Window := Decoder.object fun o =>
  Window.mk <$> Decoder.required "start" Decoder.timestamp o
    <*> Decoder.required "end" Decoder.timestamp o

def ofInstants (start stop : Instant) : Window := ⟨.ofInstant start, .ofInstant stop⟩

end Window

/-- A time that may be missing, moved to UTC. -/
def toUtc? : Option Timestamp → Except QueryError (Option Instant)
  | none => .ok none
  | some t =>
    match t.toInstant? with
    | some i => .ok (some i)
    | none => .error .outOfRange

namespace Timeframe

/-- The window of `days` days up to `now`. -/
def lastDays (days : Int) (now : Instant) : Except QueryError Window :=
  match now.shift? (-(days * microsPerDay)) with
  | some start => .ok (.ofInstants start now)
  | none => .error .outOfRange

/-- The times of the query count for a custom window only, but they have to be readable. -/
def resolve (t : Timeframe) (start stop : Option Timestamp) (now : Instant) :
    Except QueryError Window := do
  let start ← toUtc? start
  let stop ← toUtc? stop
  match t with
  | .lastDay => lastDays 1 now
  | .lastWeek => lastDays 7 now
  | .lastMonth => lastDays 30 now
  | .all => return .ofInstants .epoch now
  | .custom =>
    match start, stop with
    | some start, some stop =>
      if stop < start then throw .invertedWindow
      return .ofInstants start stop
    | _, _ => throw .incompleteWindow

end Timeframe

/-- What all analytics have in common: a window, a selection of lines and a zone for the days. -/
structure Query where
  timeframe : Timeframe := .lastDay
  start : Option Timestamp := none
  stop : Option Timestamp := none
  labelIds : List String := []
  lineIds : List String := []
  zone : Option String := none
  deriving DecidableEq, Repr

namespace Query

def toJson (q : Query) : Json := .obj [
  ("timeframe", .str q.timeframe.name),
  ("start_time", Json.ofOption (.str ·.text) q.start),
  ("end_time", Json.ofOption (.str ·.text) q.stop),
  ("label_ids", Json.ofStrings q.labelIds),
  ("line_ids", Json.ofStrings q.lineIds),
  ("tz", Json.ofOption .str q.zone)]

def decode : Decoder Query := Decoder.object fun o =>
  Query.mk <$> Decoder.defaulted "timeframe" .lastDay Timeframe.decode o
    <*> Decoder.defaulted "start_time" none (Decoder.optional Decoder.timestamp) o
    <*> Decoder.defaulted "end_time" none (Decoder.optional Decoder.timestamp) o
    <*> Decoder.defaulted "label_ids" [] (Decoder.list Decoder.text) o
    <*> Decoder.defaulted "line_ids" [] (Decoder.list Decoder.text) o
    <*> Decoder.defaulted "tz" none (Decoder.optional Decoder.text) o

def window (q : Query) (now : Instant) : Except QueryError Window :=
  q.timeframe.resolve q.start q.stop now

end Query

end LineWatch
