import LineWatch.Cache.Basic
import LineWatch.Journal
import LineWatch.Line.Elapsed

/-!
# A ticker of elapsed time

A ticker reports the seconds since an instant, which is its own or the last update of a cached
line, sleeps for its period and reports again. A callback that fails ends the ticker, and one
that never returns holds it up until it is stopped.
-/

namespace LineWatch

/-- Where a ticker takes the instant from that it counts from. -/
inductive TickerSource where
  | fixed (since : Option Instant)
  | line (id : String)
  deriving DecidableEq, Repr

def TickerSource.since (cache : LineCache) : TickerSource → Option Instant
  | .fixed since => since
  | .line id => (cache.line? id).bind (·.lastStatusUpdate)

/-- What the callback of a ticker does. -/
structure TickerCallback where
  /-- It fails from this number of seconds on. -/
  failsAt : Option Int := none
  /-- It never returns. -/
  hangs : Bool := false
  deriving DecidableEq, Repr

inductive TickerPhase where
  | stopped
  | sleeping
  | hanging
  deriving DecidableEq, Repr

inductive TickerEvent where
  | tick (seconds : Int)
  | slept
  | failed
  deriving DecidableEq, Repr

/-- How a failed callback is written down. -/
def TickerEvent.failure (error : String) : Entry :=
  ⟨"ticker.callback_failed", .error, [("error", .str error)]⟩

structure Ticker where
  source : TickerSource
  callback : TickerCallback := {}
  phase : TickerPhase := .stopped
  deriving DecidableEq, Repr

namespace Ticker

def isRunning (t : Ticker) : Bool := t.phase != .stopped

/-- The seconds that the ticker shows at `now`. -/
def seconds (t : Ticker) (cache : LineCache) (now : Instant) : Int :=
  elapsedSeconds (t.source.since cache) now

/-- Reports once, and waits for what comes next. -/
def tick (t : Ticker) (seconds : Int) : Ticker × List TickerEvent :=
  if t.callback.failsAt.any (· ≤ seconds) then
    ({ t with phase := .stopped }, [.tick seconds, .failed])
  else if t.callback.hangs then ({ t with phase := .hanging }, [.tick seconds])
  else ({ t with phase := .sleeping }, [.tick seconds, .slept])

/-- Starts the ticker, unless it runs. -/
def start (t : Ticker) (cache : LineCache) (now : Instant) : Ticker × List TickerEvent :=
  match t.phase with
  | .stopped => t.tick (t.seconds cache now)
  | _ => (t, [])

/-- Ends the sleep of the ticker, if it sleeps. -/
def wake (t : Ticker) (cache : LineCache) (now : Instant) : Ticker × List TickerEvent :=
  match t.phase with
  | .sleeping => t.tick (t.seconds cache now)
  | _ => (t, [])

def stop (t : Ticker) : Ticker := { t with phase := .stopped }

end Ticker

end LineWatch
