import LineWatch.Connection.Backoff
import LineWatch.Decode.Scalar

/-!
# Settings

Every setting has a default, and a variable of its name, in any case, replaces it.
-/

namespace LineWatch

structure Settings where
  remoteUrl : String := "http://localhost:8080/api/v1"
  streamPath : String := "/events/stream"
  connectedEvent : String := "connected"
  streamEnabled : Bool := true
  httpTimeout : Binary64 := .ofInt 10
  historyLimit : Int := 1000
  refreshInterval : Binary64 := .ofInt 5
  retentionDays : Int := 30
  backoffFloor : Binary64 := .ofInt 1
  backoffMultiplier : Binary64 := .ofInt 2
  backoffCeiling : Binary64 := .ofInt 30
  defaultZone : String := "UTC"
  tickerPeriod : Binary64 := .ofInt 1
  appEnv : String := "development"
  appUrl : String := "http://localhost"
  appHost : String := "0.0.0.0"
  appPort : Int := 8000
  logLevel : String := "INFO"
  deriving DecidableEq, Repr

namespace Decoder

def float : Decoder Binary64
  | .float x => .ok x
  | .int i => .ok (.ofInt i)
  | .bool b => .ok (.ofInt (if b then 1 else 0))
  | .str s => floatOfText s
  | _ => .fault .floatText

end Decoder

namespace Settings

def ofFields (o : List (String × Json)) : Decoded Settings :=
  let d : Settings := {}
  let text (name fallback : String) := Decoder.defaulted name fallback Decoder.text o
  let int (name : String) (fallback : Int) := Decoder.defaulted name fallback Decoder.int o
  let float (name : String) (fallback : Binary64) :=
    Decoder.defaulted name fallback Decoder.float o
  Settings.mk <$> text "upstream_api_url" d.remoteUrl
    <*> text "stream_path" d.streamPath
    <*> text "stream_connected_event" d.connectedEvent
    <*> Decoder.defaulted "stream_enabled" d.streamEnabled Decoder.bool o
    <*> float "http_timeout_seconds" d.httpTimeout
    <*> int "history_limit" d.historyLimit
    <*> float "list_refresh_seconds" d.refreshInterval
    <*> int "log_retention_days" d.retentionDays
    <*> float "reconnect_floor_seconds" d.backoffFloor
    <*> float "reconnect_multiplier" d.backoffMultiplier
    <*> float "reconnect_ceiling_seconds" d.backoffCeiling
    <*> text "default_timezone" d.defaultZone
    <*> float "ticker_period_seconds" d.tickerPeriod
    <*> text "app_env" d.appEnv
    <*> text "app_url" d.appUrl
    <*> text "app_host" d.appHost
    <*> int "app_port" d.appPort
    <*> text "log_level" d.logLevel

/-- The settings under the given variables; of two names that differ in case only, the later
one counts. -/
def ofVariables (given : List (String × String)) : Decoded Settings :=
  ofFields (given.foldl (fun o v => Json.put o v.1.toLower (.str v.2)) [])

/-- The text without the slashes at its end. -/
def withoutSlashes (s : String) : String :=
  String.ofList (s.toList.reverse.dropWhile (· == '/')).reverse

def streamUrl (s : Settings) : String := withoutSlashes s.remoteUrl ++ s.streamPath

def backoff (s : Settings) : Except BackoffError Backoff :=
  Backoff.new s.backoffFloor s.backoffCeiling s.backoffMultiplier

def toJson (s : Settings) : Json := .obj [
  ("upstream_api_url", .str s.remoteUrl),
  ("stream_path", .str s.streamPath),
  ("stream_connected_event", .str s.connectedEvent),
  ("stream_enabled", .bool s.streamEnabled),
  ("http_timeout_seconds", .float s.httpTimeout),
  ("history_limit", .int s.historyLimit),
  ("list_refresh_seconds", .float s.refreshInterval),
  ("log_retention_days", .int s.retentionDays),
  ("reconnect_floor_seconds", .float s.backoffFloor),
  ("reconnect_multiplier", .float s.backoffMultiplier),
  ("reconnect_ceiling_seconds", .float s.backoffCeiling),
  ("default_timezone", .str s.defaultZone),
  ("ticker_period_seconds", .float s.tickerPeriod),
  ("app_env", .str s.appEnv),
  ("app_url", .str s.appUrl),
  ("app_host", .str s.appHost),
  ("app_port", .int s.appPort),
  ("log_level", .str s.logLevel)]

end Settings

end LineWatch
