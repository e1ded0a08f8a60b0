import LineWatch.Line.Change
import LineWatch.Line.Snapshot

/-!
# Events of the stream

The tag of a frame names the kind of event its data spell. Events of one line share a channel;
the handshake and a change without a snapshot have none.
-/

namespace LineWatch

inductive StreamEvent where
  | connected (clientId : Option String)
  | lineStatus (type : Option String) (timestamp : Instant) (id code : String) (status : Status)
  | lineChanged (type : Option String) (timestamp : Instant) (data : Option ProductionLine)
  | lineDeleted (type : Option String) (timestamp : Instant) (id code : String)
  deriving DecidableEq, Repr

/-- The kinds of events a tag can name. -/
inductive EventTag where
  | connected
  | lineStatus
  | lineCreated
  | lineUpdated
  | lineDeleted
  deriving DecidableEq, Repr

namespace EventTag

def all : List EventTag := [.connected, .lineStatus, .lineCreated, .lineUpdated, .lineDeleted]

def name : EventTag → String
  | .connected => "connected"
  | .lineStatus => "line.status"
  | .lineCreated => "line.created"
  | .lineUpdated => "line.updated"
  | .lineDeleted => "line.deleted"

def ofName? (s : String) : Option EventTag := all.find? (·.name == s)

end EventTag

namespace StreamEvent

def type? : StreamEvent → Option String
  | .connected _ => none
  | .lineStatus type .. | .lineChanged type .. | .lineDeleted type .. => type

def timestamp? : StreamEvent → Option Instant
  | .connected _ => none
  | .lineStatus _ t .. | .lineChanged _ t .. | .lineDeleted _ t .. => some t

/-- The line the event is about, if it names one. -/
def lineId? : StreamEvent → Option String
  | .connected _ => none
  | .lineStatus _ _ id .. | .lineDeleted _ _ id _ => some id
  | .lineChanged _ _ data => data.map (·.id)

def channel? : StreamEvent → Option String
  | .connected _ => none
  | .lineStatus _ _ id .. => some ("line.status:" ++ id)
  | .lineChanged _ _ data => data.map fun line => "line:" ++ line.id
  | .lineDeleted _ _ id _ => some ("line:" ++ id)

def status? : StreamEvent → Option Status
  | .lineStatus _ _ _ _ status => some status
  | _ => none

/-- The log record that a status event stands for. -/
def toChange? (event : StreamEvent) (oldStatus : Option Status := none) :
    Option StatusChange :=
  match event with
  | .lineStatus _ t id code status => some {
      time := t
      lineId := id
      lineCode := some code
      oldStatus := oldStatus
      newStatus := status
      source := "stream" }
  | _ => none

def stampFields (type : Option String) (t : Instant) : List (String × Json) :=
  [("type", Json.ofOption .str type), ("timestamp", .str t.text)]

def toJson : StreamEvent → Json
  | .connected clientId => .obj [("client_id", Json.ofOption .str clientId)]
  | .lineStatus type t id code status => .obj (stampFields type t ++
      [("id", .str id), ("code", .str code), ("status", status.toJson)])
  | .lineChanged type t data => .obj (stampFields type t ++
      [("data", Json.ofOption ProductionLine.toJson data)])
  | .lineDeleted type t id code => .obj (stampFields type t ++
      [("id", .str id), ("code", .str code)])

def decodeType (o : List (String × Json)) : Decoded (Option String) :=
  Decoder.defaulted "type" none (Decoder.optional Decoder.text) o

def decodeConnected : Decoder StreamEvent := Decoder.object fun o =>
  connected <$> Decoder.defaulted "client_id" none (Decoder.optional Decoder.text) o

def decodeStatus : Decoder StreamEvent := Decoder.object fun o =>
  lineStatus <$> decodeType o
    <*> Decoder.required "timestamp" Decoder.instant o
    <*> Decoder.required "id" Decoder.text o
    <*> Decoder.required "code" Decoder.text o
    <*> Decoder.required "status" Status.decode o

def decodeChanged : Decoder StreamEvent := Decoder.object fun o =>
  lineChanged <$> decodeType o
    <*> Decoder.required "timestamp" Decoder.instant o
    <*> Decoder.defaulted "data" none (Decoder.optional ProductionLine.decode) o

def decodeDeleted : Decoder StreamEvent := Decoder.object fun o =>
  lineDeleted <$> decodeType o
    <*> Decoder.required "timestamp" Decoder.instant o
    <*> Decoder.required "id" Decoder.text o
    <*> Decoder.required "code" Decoder.text o

def decodeAs : EventTag → Decoder StreamEvent
  | .connected => decodeConnected
  | .lineStatus => decodeStatus
  | .lineCreated | .lineUpdated => decodeChanged
  | .lineDeleted => decodeDeleted

/-- The event that `data` spells under a tag; no data count as an empty object. -/
def ofData (tag : EventTag) (data : String) : Decoded StreamEvent :=
  Decoder.ofText (decodeAs tag) (if data == "" then "\x7b\x7d" else data)

end StreamEvent

end LineWatch
