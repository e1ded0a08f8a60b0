import LineWatch.Api.Parameters
import LineWatch.Api.Route
import LineWatch.Cache.Basic
import LineWatch.Kpi.Fleet
import LineWatch.Line.Elapsed
import LineWatch.Metrics

/-!
# Answering requests

Every answer is computed from the cache as it is when the request comes in. Parameters are
checked before a line is looked up, and a calculation that leaves the range of the calendar or
of the numbers is an internal error.
-/

namespace LineWatch.Api

/-- What the answers are taken from. -/
structure Service where
  cache : LineCache
  now : Instant
  /-- The state of the stream, if there is one. -/
  stream : Option ConnectionState := none
  metrics : Metrics := {}
  defaultZone : String := "UTC"

inductive Body where
  | empty
  | json (value : Json)
  | samples (lines : List String)

structure Answer where
  status : Int
  body : Body
  /-- The names of the journal entries written on the way. -/
  journal : List String := []
  hasRequestId : Bool := true

/-- Why a request has no answer of its own. -/
inductive Problem where
  | invalid (errors : List FieldError)
  | query (error : QueryError)
  | lineNotFound (id : String)
  | overflow

namespace Answer

def ok (value : Json) : Answer := ⟨200, .json value, [], true⟩

def errorBody (code message : String) (more : List (String × Json)) : Body :=
  .json (.obj [("error", .obj ([("code", .str code), ("message", .str message)] ++ more))])

def internal : Answer :=
  ⟨500, errorBody "INTERNAL_SERVER_ERROR" "An unexpected error occurred" [],
    ["unhandled_exception"], false⟩

def ofProblem : Problem → Answer
  | .invalid errors =>
    ⟨422, errorBody "VALIDATION_ERROR" "Request validation failed"
      [("details", .arr (errors.map faultJson))], ["validation_error"], true⟩
  | .query e =>
    if e.isInvalid then
      ⟨422, errorBody "INVALID_TIMEFRAME" e.message [], ["invalid_timeframe"], true⟩
    else internal
  | .lineNotFound id =>
    ⟨404, errorBody "LINE_NOT_FOUND" ("Line not found: " ++ id) [], [], true⟩
  | .overflow => internal

end Answer

abbrev Outcome (α : Type) := Except Problem α

def ofDecoded {α : Type} : Decoded α → Outcome α
  | .ok a => .ok a
  | .invalid errors => .error (.invalid errors)
  | .outOfRange => .error .overflow

def ofQuery {α : Type} (r : Except QueryError α) : Outcome α := r.mapError .query

def ofOption {α : Type} : Option α → Outcome α
  | some a => .ok a
  | none => .error .overflow

namespace Service

def line (s : Service) (id : String) : Outcome ProductionLine :=
  match s.cache.line? id with
  | some line => .ok line
  | none => .error (.lineNotFound id)

def nowStamp (s : Service) : Timestamp := .ofInstant s.now

def health (s : Service) : Json :=
  let stream := (s.stream.map (·.name)).getD "disabled"
  let healthy := match s.stream with
    | none | some .connected => true
    | _ => false
  .obj [
    ("status", .str (if healthy then "healthy" else "degraded")),
    ("dependencies", .obj [
      ("stream", .str stream),
      ("cache", .obj [("lines", Json.ofNat s.cache.size), ("list_stale", .bool s.cache.stale)])])]

def about : Json := .obj [("name", .str "LineOps Analytics API"), ("version", .str "1.0.0"),
  ("status", .str "running")]

def listLines (s : Service) : Json :=
  let lines := s.cache.listLines
  .obj [
    ("data", .arr (lines.map fun line => (line.viewAt s.now).toJson)),
    ("meta", .obj [("total", Json.ofNat lines.length), ("stale", .bool s.cache.stale)])]

/-- The newest records first; records of one millisecond stay in the order of the log. -/
def newestFirst (log : List StatusChange) (limit : Nat) : List StatusChange :=
  (log.mergeSort fun a b => b.millis ≤ a.millis).take limit

def history (s : Service) (id : String) (limit : Int) : Json :=
  let log := s.cache.log id
  .obj [
    ("data", .arr ((newestFirst log limit.toNat).map StatusChange.toJson)),
    ("meta", .obj [("total", Json.ofNat log.length)])]

def intervals (s : Service) (id : String) (window : Window) : Json :=
  .obj [
    ("data", .arr ((Kpi.intervalsIn window s.nowStamp (s.cache.log id)).map Interval.toJson)),
    ("meta", .obj [("time_range", window.toJson)])]

def counted (items : List Json) : Json :=
  .obj [("data", .arr items), ("meta", .obj [("total", Json.ofNat items.length)])]

def selected (s : Service) (q : Query) : List ProductionLine :=
  Kpi.select s.cache.listLines q.labelIds q.lineIds

def read (s : Service) (ps : Parameters) : Route → Outcome Answer
  | .root => return .ok about
  | .health => return .ok s.health
  | .metrics => return ⟨200, .samples (s.metrics.samples s.cache.size), [], true⟩
  | .lines => return .ok s.listLines
  | .line id => do
    let line ← s.line id
    return .ok (.obj [("data", (line.viewAt s.now).toJson)])
  | .history id => do
    let limit ← ofDecoded (limit ps)
    let _ ← s.line id
    return .ok (s.history id limit)
  | .intervals id => do
    let q ← ofDecoded (query ps)
    let _ ← s.line id
    let window ← ofQuery (q.window s.now)
    return .ok (s.intervals id window)
  | .fleetFigures => do
    let q ← ofDecoded (query ps)
    let window ← ofQuery (q.window s.now)
    let figures ← ofOption (FleetFigures.of? (s.selected q) s.cache.log window s.nowStamp)
    return { Answer.ok (.obj [("data", figures.toJson)]) with journal := ["analytics.aggregate"] }
  | .lineFigures => do
    let q ← ofDecoded (query ps)
    let window ← ofQuery (q.window s.now)
    let figures ← ofOption <| (s.selected q).mapM fun line =>
      LineFigures.of? line (s.cache.log line.id) window s.nowStamp
    return .ok (counted (figures.map LineFigures.toJson))
  | .labelFigures => do
    let q ← ofDecoded (query ps)
    let window ← ofQuery (q.window s.now)
    let figures ← ofOption (Kpi.labels? (s.selected q) s.cache.log window s.nowStamp)
    return .ok (counted (figures.map LabelFigures.toJson))
  | .daily id => do
    let q ← ofDecoded (query ps)
    let _ ← s.line id
    let window ← ofQuery (q.window s.now)
    let zone := q.zone.getD s.defaultZone
    let rows ← ofQuery (Kpi.lineDaily (some zone) (s.cache.log id) window s.nowStamp)
    return .ok (counted (rows.map DailyFigures.toJson))

def detail (status : Int) (text : String) : Answer :=
  ⟨status, .json (.obj [("detail", .str text)]), [], true⟩

/-- Answers a request. An answer to `HEAD` has no body. -/
def answer (s : Service) (method path : String) (ps : Parameters) : Answer :=
  let a := match routing method path with
    | .found route =>
      match s.read ps route with
      | .ok a => a
      | .error problem => .ofProblem problem
    | .redirected => ⟨307, .empty, [], true⟩
    | .methodNotAllowed => detail 405 "Method Not Allowed"
    | .notFound => detail 404 "Not Found"
  if method.toUpper == "HEAD" then { a with body := .empty } else a

end Service

end LineWatch.Api
