import LineWatch.Line.Change

/-!
# Status intervals

A contiguous span of milliseconds during which a line kept one status. The last interval of a
line is open: its end is the instant up to which it is known.
-/

namespace LineWatch

structure Interval where
  lineId : String
  status : Status
  start : Int
  stop : Int
  isOpen : Bool := false
  deriving DecidableEq, Repr

namespace Interval

def duration (i : Interval) : Int := max 0 (i.stop - i.start)

def Contains (i : Interval) (t : Int) : Prop := i.start ≤ t ∧ t < i.stop

instance (i : Interval) (t : Int) : Decidable (i.Contains t) :=
  inferInstanceAs (Decidable (i.start ≤ t ∧ t < i.stop))

def toJson (i : Interval) : Json := .obj [
  ("line_id", .str i.lineId),
  ("status", i.status.toJson),
  ("start", .int i.start),
  ("end", .int i.stop),
  ("is_open", .bool i.isOpen)]

def decode : Decoder Interval := Decoder.object fun o =>
  Interval.mk <$> Decoder.required "line_id" Decoder.text o
    <*> Decoder.required "status" Status.decode o
    <*> Decoder.required "start" Decoder.int o
    <*> Decoder.required "end" Decoder.int o
    <*> Decoder.defaulted "is_open" false Decoder.bool o

theorem duration_nonneg (i : Interval) : 0 ≤ i.duration := by
  simp only [duration]; omega

end Interval

end LineWatch
