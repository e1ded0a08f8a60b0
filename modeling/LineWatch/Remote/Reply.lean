import LineWatch.Json.Printer
import LineWatch.Json.Reader
import LineWatch.Line.Change
import LineWatch.Line.Snapshot
import LineWatch.Remote.Error
import LineWatch.Remote.Target

/-!
# Reading replies

Lines and histories come as the `data` of an object. A refusal has an `error` in its place. A
body that is no JSON counts as an empty object, and a reply without data as an empty list. A body
that is nested too deep for the stack is not read at all, whatever its status.
-/

namespace LineWatch

/-- What comes back for a request. -/
inductive Reply where
  /-- While the reply is handled, the stack takes `room` lists and objects of its body within one
  another, and no more. This depends on what the stack holds already and on what else is put on it,
  so it differs from reply to reply. -/
  | received (status : Int) (body : List UInt8) (room : Nat)
  /-- The connection failed. -/
  | broken (message : String)
  /-- Sending the request failed for another reason. -/
  | raised (name message : String)
  deriving DecidableEq, Repr

inductive RemoteNotice where
  | requestFailed (path message : String)
  | errorResponse (path : String) (status : Int) (code : Json)

def RemoteNotice.entry : RemoteNotice → Entry
  | .requestFailed path message => ⟨"upstream.request_failed", .error,
      [("path", .str path), ("error", .str message)]⟩
  | .errorResponse path status code => ⟨"upstream.error_response", .warning,
      [("path", .str path), ("status_code", .int status), ("error_code", code)]⟩

namespace Reply

/-- About the room that there is where requests are sent: a thousand levels of the stack, less those
of the callers. -/
def usualRoom : Nat := 970

/-- A reply whose body is this text. -/
def answered (status : Int) (text : String) : Reply :=
  .received status text.toUTF8.toList usualRoom

/-- Reads the JSON value that a body spells. -/
def parse (body : List UInt8) (room : Nat) : Except Json.ReadError Json :=
  match textOfBytes? body with
  | none => .error .malformed
  | some cs => Json.read { depth := room, countsEmpty := true } cs true

def payload (body : List UInt8) (room : Nat) : Except FetchError Json :=
  match parse body room with
  | .ok v => .ok v
  | .error .malformed => .ok (.obj [])
  | .error (.tooDeep container) => .error (.tooDeep container)

def typeName : Json → String
  | .null => "null"
  | .bool _ => "bool"
  | .int _ => "int"
  | .float _ => "float"
  | .str _ | .broken _ => "str"
  | .arr _ => "list"
  | .obj _ => "object"

/-- The fields of the error part of a refusal. A part that says nothing has none. -/
def errorFields (payload : Json) : Except FetchError (List (String × Json)) :=
  match payload with
  | .obj o =>
    match (Json.field? o "error").getD .null with
    | .obj e => .ok e
    | v => if v.isSubstantial then .error (.brokenEnvelope (typeName v)) else .ok []
  | _ => .ok []

def isRefusal (status : Int) : Bool := 400 ≤ status && status ≤ 599

def refusal (path : String) (status : Int) (error : List (String × Json)) : RemoteError :=
  let part (name : String) : Json := (Json.field? error name).getD .null
  let message := part "message"
  { message := if message.isSubstantial then message
      else .str ("HTTP " ++ String.ofList (intText status) ++ " for " ++ path)
    status := some status
    code := part "code"
    details := part "details" }

/-- The data of a reply to a request for `path`, and what is reported. -/
def data (path : String) : Reply → Except FetchError Json × List RemoteNotice
  | .broken message =>
    (.error (.remote (.ofText ("Network error - " ++ message))), [.requestFailed path message])
  | .raised name message => (.error (.raised name message), [])
  | .received status body room =>
    match payload body room with
    | .error e => (.error e, [])
    | .ok payload =>
      if isRefusal status then
        match errorFields payload with
        | .error e => (.error e, [])
        | .ok error =>
          let e := refusal path status error
          (.error (.remote e), [.errorResponse path status e.code])
      else
        match payload with
        | .obj o => (.ok ((Json.field? o "data").getD .null), [])
        | _ => (.error (.remote (.ofText ("Unexpected response body for " ++ path) status)), [])

def read {α : Type} (path : String) (d : Decoder α) (v : Json) : Except FetchError α :=
  match d v with
  | .ok a => .ok a
  | .outOfRange => .error .outOfRange
  | .invalid errors =>
    .error (.remote (.ofText ("Invalid response body for " ++ path) none
      (FieldError.listJson errors)))

/-- The items of a reply; data that say nothing are no items. -/
def items {α : Type} (path : String) (d : Decoder α) (reply : Reply) :
    Except FetchError (List α) × List RemoteNotice :=
  let (data, notices) := reply.data path
  (data.bind fun v => read path (Decoder.list d) (if v.isSubstantial then v else .arr []), notices)

def lines (reply : Reply) : Except FetchError (List ProductionLine) × List RemoteNotice :=
  reply.items "/lines" ProductionLine.decode

def linePath (id : String) : String := "/lines/" ++ id

def line (id : String) (reply : Reply) : Except FetchError ProductionLine × List RemoteNotice :=
  let path := linePath id
  let (data, notices) := reply.data path
  (data.bind fun
    | .null => .error (.remote (.ofText ("Empty response for " ++ path) (some 404)))
    | v => read path ProductionLine.decode v, notices)

def historyPath (id : String) : String := linePath id ++ "/history"

def history (id : String) (reply : Reply) :
    Except FetchError (List StatusChange) × List RemoteNotice :=
  reply.items (historyPath id) StatusChange.decode

end Reply

namespace Target

def lines (base : String) : String := of base "/lines" none

def line (base id : String) : String := of base (Reply.linePath id) none

/-- The records of a line; `limit` bounds their number, and 0 or no limit means `fallback`. -/
def history (base id : String) (limit : Option Int) (fallback : Int) : String :=
  let limit := match limit with
    | none => fallback
    | some n => if n = 0 then fallback else n
  of base (Reply.historyPath id) (some ("limit=" ++ String.ofList (intText limit)))

end Target

end LineWatch
