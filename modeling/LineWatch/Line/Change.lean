import LineWatch.Line.Status

/-!
# Status changes

One record of a line's status log. Its new status holds from its time until the next record of
the line.
-/

namespace LineWatch

structure StatusChange where
  time : Instant
  lineId : String
  lineCode : Option String := none
  oldStatus : Option Status := none
  newStatus : Status
  source : String := "unknown"
  sourceDetail : Json := .null
  deriving Repr

/-- What makes two records of one line the same record. -/
abbrev ChangeKey := Int × Status

namespace StatusChange

def millis (c : StatusChange) : Int := c.time.millis

def key (c : StatusChange) : ChangeKey := (c.millis, c.newStatus)

/-- In order of the millisecond; records of one millisecond stay in the order given. -/
def sort (changes : List StatusChange) : List StatusChange :=
  changes.mergeSort fun a b => a.millis ≤ b.millis

def toJson (c : StatusChange) : Json := .obj [
  ("time", .str c.time.text),
  ("line_id", .str c.lineId),
  ("line_code", Json.ofOption .str c.lineCode),
  ("old_status", Json.ofOption Status.toJson c.oldStatus),
  ("new_status", c.newStatus.toJson),
  ("source", .str c.source),
  ("source_detail", c.sourceDetail)]

def decode : Decoder StatusChange := Decoder.object fun o =>
  StatusChange.mk <$> Decoder.required "time" Decoder.instant o
    <*> Decoder.required "line_id" Decoder.text o
    <*> Decoder.defaulted "line_code" none (Decoder.optional Decoder.text) o
    <*> Decoder.defaulted "old_status" none (Decoder.optional Status.decode) o
    <*> Decoder.required "new_status" Status.decode o
    <*> Decoder.defaulted "source" "unknown" Decoder.text o
    <*> Decoder.defaulted "source_detail" .null Decoder.json o

end StatusChange

end LineWatch
