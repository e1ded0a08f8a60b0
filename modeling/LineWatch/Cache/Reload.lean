import LineWatch.Cache.Merge

/-!
# Reloading the cache

A reload asks for the line list and merges what comes back; between the two the cache may
change. A refresh ends there, and an error of the remote side leaves all as it is. A bootstrap
goes on to the history of every line of the list, and skips those that cannot be had.
-/

namespace LineWatch

namespace LineCache

/-- Ends a refresh that was asked for at `asked`; the value tells whether it took place. -/
def mergeRefresh (cache : LineCache) (asked : Instant)
    (result : Except FetchError (List ProductionLine)) : Merged (Except FetchError Bool) :=
  match result with
  | .ok lines =>
    let m := cache.seedLines lines (some asked)
    ⟨m.cache, .ok true, m.notices⟩
  | .error (.remote e) => ⟨cache, .ok false, [.listRefreshFailed e]⟩
  | .error e => ⟨cache, .error e, []⟩

/-- Merges the list of a bootstrap; the value is the lines whose histories come next. -/
def mergeBootstrap (cache : LineCache) (asked : Instant)
    (result : Except FetchError (List ProductionLine)) :
    Merged (Except FetchError (List String)) :=
  match result with
  | .ok lines =>
    let m := cache.seedLines lines (some asked)
    ⟨m.cache, .ok (lines.map (·.id)), m.notices⟩
  | .error e => ⟨cache, .error e, []⟩

/-- Merges the history of a line within a bootstrap. -/
def mergeHistory (retention : Retention) (cache : LineCache) (id : String)
    (result : Except FetchError (List StatusChange)) : Merged (Except FetchError Unit) :=
  match result with
  | .ok changes =>
    let m := cache.seedHistory retention id changes
    ⟨m.cache, .ok (), m.notices⟩
  | .error (.remote e) => ⟨cache, .ok (), [.historyFetchFailed id e]⟩
  | .error e => ⟨cache, .error e, []⟩

/-- Merges the histories of lines one after the other, up to an error that is not the remote
side's. -/
def mergeHistories (retention : Retention) (cache : LineCache)
    (history : String → Except FetchError (List StatusChange)) :
    List String → Merged (Except FetchError Unit)
  | [] => ⟨cache, .ok (), []⟩
  | id :: rest =>
    let first := cache.mergeHistory retention id (history id)
    match first.value with
    | .error e => ⟨first.cache, .error e, first.notices⟩
    | .ok () =>
      let later := mergeHistories retention first.cache history rest
      ⟨later.cache, later.value, first.notices ++ later.notices⟩

/-- A whole bootstrap while nothing else touches the cache. -/
def bootstrap (retention : Retention) (cache : LineCache) (asked : Instant)
    (lines : Except FetchError (List ProductionLine))
    (history : String → Except FetchError (List StatusChange)) :
    Merged (Except FetchError Unit) :=
  let listed := cache.mergeBootstrap asked lines
  match listed.value with
  | .error e => ⟨listed.cache, .error e, listed.notices⟩
  | .ok ids =>
    let later := mergeHistories retention listed.cache history ids
    ⟨later.cache, later.value, listed.notices ++ later.notices⟩

/-- A whole refresh while nothing else touches the cache: nothing happens unless the list is
stale. -/
def refresh (cache : LineCache) (asked : Instant)
    (lines : Except FetchError (List ProductionLine)) : Merged (Except FetchError Bool) :=
  if cache.stale then cache.mergeRefresh asked lines else ⟨cache, .ok false, []⟩

end LineCache

/-- What a reload asks the remote side for. -/
inductive CacheRequest where
  | list
  | history (id : String)
  deriving DecidableEq, Repr

namespace LineCache

def historyRequests (history : String → Except FetchError (List StatusChange)) :
    List String → List CacheRequest
  | [] => []
  | id :: rest => .history id :: match history id with
    | .ok _ | .error (.remote _) => historyRequests history rest
    | .error _ => []

/-- The requests that a bootstrap sends, given the replies. -/
def bootstrapRequests (lines : Except FetchError (List ProductionLine))
    (history : String → Except FetchError (List StatusChange)) : List CacheRequest :=
  .list :: match lines with
    | .ok lines => historyRequests history (lines.map (·.id))
    | .error _ => []

def refreshRequests (cache : LineCache) : List CacheRequest := if cache.stale then [.list] else []

end LineCache

end LineWatch
