import LineWatch.Cache.Merge
import LineWatch.Connection.Basic
import LineWatch.Json.Printer
import LineWatch.Text.Order

/-!
# Metrics

Counters and gauges are a summary of what has been emitted so far. They are shown as samples, one
line each.
-/

namespace LineWatch

structure Metrics where
  received : Keyed Nat := []
  dropped : Keyed Nat := []
  cacheEvents : Keyed Nat := []
  reconnects : Nat := 0
  backoff : Binary64 := .zero
  state : ConnectionState := .disconnected
  deriving DecidableEq, Repr

namespace Metrics

def count (m : Keyed Nat) (label : String) : Keyed Nat := m.set label ((m.get? label).getD 0 + 1)

/-- The outcome under which a verdict is counted. -/
def outcome : Verdict → String
  | .applied => "applied"
  | .duplicate | .known => "duplicate"
  | .stale => "stale"

def cacheNotice (m : Metrics) : CacheNotice → Metrics
  | .offered verdict => { m with cacheEvents := count m.cacheEvents (outcome verdict) }
  | _ => m

def emission (m : Metrics) : Emission → Metrics
  | .received tag => { m with received := count m.received tag }
  | .dropped reason => { m with dropped := count m.dropped reason.name }
  | .reconnectScheduled => { m with reconnects := m.reconnects + 1 }
  | .backoffShown delay => { m with backoff := delay }
  | .notice (.stateChanged _ state) => { m with state := state }
  | _ => m

def countsJson (m : Keyed Nat) : Json := .obj (m.map fun kv => (kv.1, Json.ofNat kv.2))

def toJson (m : Metrics) (cachedLines : Nat) : Json := .obj [
  ("received", countsJson m.received),
  ("dropped", countsJson m.dropped),
  ("cache_events", countsJson m.cacheEvents),
  ("reconnects", Json.ofNat m.reconnects),
  ("backoff_seconds", .float m.backoff),
  ("cached_lines", Json.ofNat cachedLines),
  ("stream_state", .arr [.str m.state.name])]

/-- The text of a sample's value: shortest decimal, with a power of ten from seven digits on. -/
def valueText (x : Binary64) : List Char :=
  match x with
  | .nan => "NaN".toList
  | .infinite negative => (if negative then '-' else '+') :: "Inf".toList
  | x =>
    let text := x.text
    let whole := text.takeWhile (· != '.')
    if text.contains 'e' || x.isNegative || whole.length ≤ 6 then text
    else
      let digits := whole ++ (text.dropWhile (· != '.')).drop 1
      let kept := (digits.drop 1).reverse.dropWhile (· == '0') |>.reverse
      let mantissa := digits.take 1 ++ (if kept.isEmpty then [] else '.' :: kept)
      mantissa ++ "e+0".toList ++ Nat.toDigits 10 (whole.length - 1)

def escapeLabel (value : String) : List Char :=
  value.toList.flatMap fun c =>
    if c = '\\' then ['\\', '\\'] else if c = '"' then ['\\', '"']
    else if c = '\n' then ['\\', 'n'] else [c]

def sample (name : String) (value : Binary64) : String :=
  name ++ " " ++ String.ofList (valueText value)

def labelled (name label value : String) (x : Binary64) : String :=
  name ++ "\x7b" ++ label ++ "=\"" ++ String.ofList (escapeLabel value) ++ "\"\x7d " ++
    String.ofList (valueText x)

def natValue (n : Nat) : Binary64 := .ofInt n

def counts (name label : String) (m : Keyed Nat) : List String :=
  m.map fun kv => labelled name label kv.1 (natValue kv.2)

def states (m : Metrics) : List String :=
  ConnectionState.all.map fun s =>
    labelled "lineops_stream_state" "lineops_stream_state" s.name
      (natValue (if s = m.state then 1 else 0))

/-- All samples in the order of their texts. -/
def samples (m : Metrics) (cachedLines : Nat) : List String :=
  sortTexts <|
    counts "lineops_stream_events_received_total" "event_type" m.received ++
    counts "lineops_stream_events_dropped_total" "reason" m.dropped ++
    counts "lineops_cache_events_total" "outcome" m.cacheEvents ++ m.states ++ [
      sample "lineops_stream_reconnects_total" (natValue m.reconnects),
      sample "lineops_stream_backoff_seconds" m.backoff,
      sample "lineops_cached_lines_total" (natValue cachedLines)]

end Metrics

end LineWatch
