import LineWatch.Cache.Reload
import LineWatch.Remote.Reply

/-!
# Fetching in the background

A bootstrap and a refresh wait for replies, and meanwhile the cache may change. What they wait
for holds all they know: the time the list was asked for, or the lines whose histories are
still to come. A reply is merged into the cache of that moment.
-/

namespace LineWatch

inductive SyncNotice where
  | cache (notice : CacheNotice)
  | remote (notice : RemoteNotice)
  | started (lines : Nat) (streaming : Bool)
  | stopped
  | bootstrapFailed (error : RemoteError)
  | resyncStarted
  | resyncFailed (error : RemoteError)
  | refreshFailed (error : FetchError)

namespace SyncNotice

def failure (name : String) (error : RemoteError) : Entry :=
  ⟨name, .warning, [("error", error.message), ("status_code", Json.ofOption .int error.status)]⟩

def entries : SyncNotice → List Entry
  | .cache n => n.entries
  | .remote n => [n.entry]
  | .started lines streaming => [⟨"sync.started", .info,
      [("lines", Json.ofNat lines), ("streaming", .bool streaming)]⟩]
  | .stopped => [⟨"sync.stopped", .info, []⟩]
  | .bootstrapFailed error => [failure "sync.bootstrap_failed" error]
  | .resyncStarted => [⟨"sync.resync_after_reconnect", .info, []⟩]
  | .resyncFailed error => [failure "sync.resync_failed" error]
  | .refreshFailed error => [⟨"sync.refresh_failed", .error, [("error", error.text)]⟩]

end SyncNotice

/-- The reply that a fetch waits for. -/
inductive Awaited where
  | list (asked : Instant)
  | history (id : String) (rest : List String)
  deriving DecidableEq, Repr

namespace Awaited

def ofIds : List String → Option Awaited
  | [] => none
  | id :: rest => some (.history id rest)

/-- The target of the request. -/
def target (base : String) (historyLimit : Int) : Awaited → String
  | .list _ => Target.lines base
  | .history id _ => Target.history base id none historyLimit

end Awaited

/-- A fetch after a reply: what it reports, and what it waits for next, if it goes on. -/
structure Fetched where
  cache : LineCache
  notices : List SyncNotice
  next : Except FetchError (Option Awaited)

/-- Takes the reply that a bootstrap has waited for. -/
def receiveBootstrap (retention : Retention) (cache : LineCache) (awaited : Awaited)
    (reply : Reply) : Fetched :=
  match awaited with
  | .list asked =>
    let (lines, remote) := reply.lines
    let m := cache.mergeBootstrap asked lines
    ⟨m.cache, remote.map .remote ++ m.notices.map .cache, m.value.map Awaited.ofIds⟩
  | .history id rest =>
    let (changes, remote) := reply.history id
    let m := cache.mergeHistory retention id changes
    ⟨m.cache, remote.map .remote ++ m.notices.map .cache,
      m.value.map fun _ => Awaited.ofIds rest⟩

/-- Takes the reply that a refresh has waited for; its own failure is reported and forgotten. -/
def receiveRefresh (cache : LineCache) (asked : Instant) (reply : Reply) :
    LineCache × List SyncNotice :=
  let (lines, remote) := reply.lines
  let m := cache.mergeRefresh asked lines
  let failed := match m.value with
    | .error e => [SyncNotice.refreshFailed e]
    | .ok _ => []
  (m.cache, remote.map .remote ++ m.notices.map .cache ++ failed)

end LineWatch
