import LineWatch.Sync.Fetch

/-!
# Keeping the cache in step

Two tasks run beside the event stream. The refresh loop sleeps, and fetches the line list when
it is stale. A resync fetches everything anew after the stream has come back; while one is under
way no other one starts. The first connection needs none, since the cache has just been filled.
-/

namespace LineWatch

/-- What the refresh loop is doing. -/
inductive RefreshPhase where
  | scheduled
  | sleeping
  | waiting (asked : Instant)
  deriving DecidableEq, Repr

/-- What a resync is doing. -/
inductive ResyncPhase where
  | scheduled
  | waiting (awaited : Awaited)
  deriving DecidableEq, Repr

structure Sync where
  cache : LineCache := {}
  retention : Retention := none
  hasConnected : Bool := false
  refresh : Option RefreshPhase := none
  resync : Option ResyncPhase := none

namespace Sync

/-- Hears of a state of the connection; the value tells whether a resync is to run. -/
def hear (s : Sync) (connected : Bool) : Sync × Bool :=
  if !connected then (s, false)
  else if !s.hasConnected then ({ s with hasConnected := true }, false)
  else
    match s.resync with
    | some _ => (s, false)
    | none => ({ s with resync := some .scheduled }, true)

/-- Starts the resync: the list counts as stale from now on, and is asked for. -/
def beginResync (s : Sync) (now : Instant) : Sync × List SyncNotice :=
  ({ s with cache := s.cache.invalidate, resync := some (.waiting (.list now)) },
    [.resyncStarted])

/-- Takes the reply that the resync has waited for. -/
def receiveResync (s : Sync) (awaited : Awaited) (reply : Reply) : Sync × List SyncNotice :=
  let f := receiveBootstrap s.retention s.cache awaited reply
  match f.next with
  | .ok (some next) => ({ s with cache := f.cache, resync := some (.waiting next) }, f.notices)
  | .ok none => ({ s with cache := f.cache, resync := none }, f.notices)
  | .error (.remote e) =>
    ({ s with cache := f.cache, resync := none }, f.notices ++ [.resyncFailed e])
  | .error _ => ({ s with cache := f.cache, resync := none }, f.notices)

/-- The refresh loop wakes up: it asks for the list if that is stale, and sleeps on otherwise. -/
def wakeRefresh (s : Sync) (now : Instant) : Sync :=
  { s with refresh := some (if s.cache.stale then .waiting now else .sleeping) }

def answerRefresh (s : Sync) (asked : Instant) (reply : Reply) : Sync × List SyncNotice :=
  let (cache, notices) := receiveRefresh s.cache asked reply
  ({ s with cache := cache, refresh := some .sleeping }, notices)

end Sync

end LineWatch
