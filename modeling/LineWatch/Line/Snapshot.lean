import LineWatch.Line.Status

/-!
# Snapshots of production lines

A snapshot carries the time of the transition into its status. Where that is not known, the
time of its last update stands in for it.
-/

namespace LineWatch

structure Label where
  id : String
  name : String
  color : Option String := none
  description : Option String := none
  createdAt : Option Timestamp := none
  updatedAt : Option Timestamp := none
  deriving DecidableEq, Repr

namespace Label

def toJson (l : Label) : Json := .obj [
  ("id", .str l.id),
  ("name", .str l.name),
  ("color", Json.ofOption .str l.color),
  ("description", Json.ofOption .str l.description),
  ("created_at", Json.ofOption (.str ·.text) l.createdAt),
  ("updated_at", Json.ofOption (.str ·.text) l.updatedAt)]

def decode : Decoder Label := Decoder.object fun o =>
  Label.mk <$> Decoder.required "id" Decoder.text o
    <*> Decoder.required "name" Decoder.text o
    <*> Decoder.defaulted "color" none (Decoder.optional Decoder.text) o
    <*> Decoder.defaulted "description" none (Decoder.optional Decoder.text) o
    <*> Decoder.defaulted "created_at" none (Decoder.optional Decoder.timestamp) o
    <*> Decoder.defaulted "updated_at" none (Decoder.optional Decoder.timestamp) o

end Label

structure ProductionLine where
  id : String
  code : String
  name : String
  description : Option String := none
  status : Status
  labels : List Label := []
  createdAt : Option Instant := none
  updatedAt : Option Instant := none
  statusSince : Option Instant := none
  deriving DecidableEq, Repr

namespace ProductionLine

def lastStatusUpdate (line : ProductionLine) : Option Instant :=
  line.statusSince <|> line.updatedAt

def fields (line : ProductionLine) : List (String × Json) := [
  ("id", .str line.id),
  ("code", .str line.code),
  ("name", .str line.name),
  ("description", Json.ofOption .str line.description),
  ("status", line.status.toJson),
  ("labels", .arr (line.labels.map Label.toJson)),
  ("created_at", Json.ofOption (.str ·.text) line.createdAt),
  ("updated_at", Json.ofOption (.str ·.text) line.updatedAt),
  ("status_since", Json.ofOption (.str ·.text) line.statusSince)]

def toJson (line : ProductionLine) : Json := .obj line.fields

def ofFields (o : List (String × Json)) : Decoded ProductionLine :=
  ProductionLine.mk <$> Decoder.required "id" Decoder.text o
    <*> Decoder.required "code" Decoder.text o
    <*> Decoder.required "name" Decoder.text o
    <*> Decoder.defaulted "description" none (Decoder.optional Decoder.text) o
    <*> Decoder.required "status" Status.decode o
    <*> Decoder.defaulted "labels" [] (Decoder.list Label.decode) o
    <*> Decoder.defaulted "created_at" none (Decoder.optional Decoder.instant) o
    <*> Decoder.defaulted "updated_at" none (Decoder.optional Decoder.instant) o
    <*> Decoder.defaulted "status_since" none (Decoder.optional Decoder.instant) o

def decode : Decoder ProductionLine := Decoder.object ofFields

/-- The line with another status, reached at `since`. -/
def withStatus (line : ProductionLine) (status : Status) (since : Option Instant) :
    ProductionLine :=
  { line with status := status, statusSince := since }

@[simp] theorem lastStatusUpdate_withStatus (line : ProductionLine) (status : Status)
    (since : Instant) : (line.withStatus status (some since)).lastStatusUpdate = some since := rfl

end ProductionLine

/-- A snapshot with the time the line has spent in its status. -/
structure LineView where
  line : ProductionLine
  elapsedSeconds : Int := 0
  elapsedText : String := "0s"
  deriving DecidableEq, Repr

namespace LineView

def toJson (v : LineView) : Json := .obj (v.line.fields ++ [
  ("status_elapsed_seconds", .int v.elapsedSeconds),
  ("status_elapsed", .str v.elapsedText)])

def decode : Decoder LineView := Decoder.object fun o =>
  LineView.mk <$> ProductionLine.ofFields o
    <*> Decoder.defaulted "status_elapsed_seconds" 0 Decoder.int o
    <*> Decoder.defaulted "status_elapsed" "0s" Decoder.text o

end LineView

end LineWatch
