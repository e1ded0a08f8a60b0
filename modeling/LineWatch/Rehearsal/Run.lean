import LineWatch.Api.Answer
import LineWatch.Rehearsal.World

/-!
# Running the world

A loop that runs goes on until it has to wait; then the next ready task has its turn, until none
is left. A loop whose cancellation is pending when it has to wait becomes ready again, to be
cancelled. All running is bounded by `patience`, far beyond what a script can use up.
-/

namespace LineWatch

namespace World

def patience : Nat := 100000

def playingOf (w : World) (id : Nat) : Attempt :=
  (w.playing.lookup id).getD (.plays [] false)

def setPlaying (w : World) (id : Nat) (attempt : Attempt) : World :=
  { w with playing := (id, attempt) :: w.playing.filter (·.1 != id) }

/-- The loop has to wait; one that is to be cancelled, or only yields, will be back. -/
def suspend (w : World) (id : Nat) (loop : Loop) : World :=
  let yields := match loop.phase with
    | .handling .. => true
    | _ => false
  if loop.cancelling || yields then w.enqueue (.loop id) else w

def arrive (w : World) (id : Nat) : Arrival → World
  | .frame frame => w.signal id (.frame frame)
  | .failure failure => w.signal id (.broke failure)
  | .stop => w.signal id .ended

/-- Gives a loop the next item of its stream; `none` if it has to wait for one. -/
def feed? (w : World) (id : Nat) : Option World :=
  match w.playingOf id with
  | .plays (.arrival a :: rest) staysOpen =>
    some ((w.setPlaying id (.plays rest staysOpen)).arrive id a)
  | .plays (.cue cue :: rest) staysOpen =>
    some (follow (some id) (w.setPlaying id (.plays rest staysOpen)) cue)
  | .plays [] false => some (w.signal id .ended)
  | .plays [] true =>
    match w.arrivals with
    | a :: rest => some ({ w with arrivals := rest }.arrive id a)
    | [] => none
  | _ => some (w.signal id .ended)

/-- Runs a loop until it has to wait. -/
def drive : (fuel : Nat) → (id : Nat) → World → World
  | 0, _, w => w
  | fuel + 1, id, w =>
    match w.client.loop? id with
    | none => w
    | some loop =>
      match loop.phase with
      | .scheduled => drive fuel id (w.signal id .begun)
      | .opening =>
        match w.playingOf id with
        | .refused failure => drive fuel id (w.signal id (.openFailed failure))
        | .hangs => w.suspend id loop
        | .plays .. => drive fuel id (w.signal id .opened)
      | .receiving =>
        match w.feed? id with
        | some w => drive fuel id w
        | none => w.suspend id loop
      | .handling .. | .sleeping => w.suspend id loop
      | .closing _ => drive fuel id (w.signal id .closed)

/-- A loop comes back from what it has waited for. -/
def resumeLoop (w : World) (id : Nat) : World :=
  match w.client.loop? id with
  | none => w
  | some loop =>
    let w :=
      if loop.cancelling then w.signal id .cancelled
      else
        match loop.phase with
        | .handling .. => w.signal id .resumed
        | .sleeping => w.signal id .woken
        | _ => w
    drive patience id w

def served (w : World) (target : String) : Served :=
  let path := String.ofList (target.toList.takeWhile (· != '?'))
  (w.server.get? path).getD ⟨.answered 404
    "\x7b\"error\": \x7b\"code\": \"NOT_FOUND\", \"message\": \"not found\"\x7d\x7d", false⟩

/-- Sends a request; its reply is there at once, or held. -/
def send (w : World) (task : Task) (awaited : Awaited) : World × Option Reply :=
  let target := awaited.target w.base w.historyLimit
  let w := w.note (.requested target)
  let s := w.served target
  if s.held then ({ w with held := w.held ++ [(task, s.reply)] }, none) else (w, some s.reply)

/-- Carries on a resync with a reply, if it is there, as far as it goes. -/
def continueResync : (fuel : Nat) → Awaited → World × Option Reply → World
  | 0, _, (w, _) => w
  | _, _, (w, none) => w
  | fuel + 1, awaited, (w, some reply) =>
    let (sync, notices) := w.sync.receiveResync awaited reply
    let w := { w with sync := sync }.syncNotices notices
    match sync.resync with
    | some (.waiting next) => continueResync fuel next (w.send .resync next)
    | _ => w

def sleepRefresh (w : World) : World := w.note .refreshSlept

def continueRefresh (asked : Instant) : World × Option Reply → World
  | (w, none) => w
  | (w, some reply) =>
    let (sync, notices) := w.sync.answerRefresh asked reply
    ({ w with sync := sync }.syncNotices notices).sleepRefresh

/-- The reply that has been released for a task. -/
def takeReleased (w : World) (task : Task) : World × Option Reply :=
  ({ w with released := w.released.filter (·.1 != task) }, w.released.lookup task)

def runRefresh (w : World) : World :=
  match w.sync.refresh with
  | none => w
  | some .scheduled => { w with sync := { w.sync with refresh := some .sleeping } }.sleepRefresh
  | some .sleeping =>
    let sync := w.sync.wakeRefresh w.clock
    let w := { w with sync := sync }
    match sync.refresh with
    | some (.waiting asked) => continueRefresh asked (w.send .refresh (.list asked))
    | _ => w.sleepRefresh
  | some (.waiting asked) => continueRefresh asked (w.takeReleased .refresh)

def runResync (w : World) : World :=
  match w.sync.resync with
  | none => w
  | some .scheduled =>
    let (sync, notices) := w.sync.beginResync w.clock
    let awaited := Awaited.list w.clock
    continueResync patience awaited (({ w with sync := sync }.syncNotices notices).send
      .resync awaited)
  | some (.waiting awaited) => continueResync patience awaited (w.takeReleased .resync)

def run (w : World) : Task → World
  | .loop id => w.resumeLoop id
  | .refresh => w.runRefresh
  | .resync => w.runResync

/-- Gives every ready task its turn until none is left. -/
def settle : (fuel : Nat) → World → World
  | 0, w => w
  | fuel + 1, w =>
    match w.ready with
    | [] => w
    | task :: rest => settle fuel ({ w with ready := rest }.run task)

/-- Disconnects, and waits until the loop has ended and the transport is shut. -/
def shutDown (w : World) : World :=
  let waits := w.client.activeLoop?.isSome
  let w := follow none w .disconnect
  (if waits then settle patience w else w).note .transportShut

/-- Follows a cue to its end; `settles` tells whether the ready tasks run afterwards. -/
def perform (w : World) (cue : Cue) (settles : Bool) : World :=
  let w := match cue with
    | .shutDown => w.shutDown
    | cue => follow none w cue
  if settles then settle patience w else w

/-- Releases all held replies. -/
def release (w : World) : World :=
  let tasks := w.held.map (·.1)
  tasks.foldl enqueue { w with released := w.released ++ w.held, held := [] }

/-- Ends the sleep of the refresh loop. -/
def wakeRefresh (w : World) : World :=
  match w.sync.refresh with
  | some .sleeping => w.enqueue .refresh
  | _ => w

/-- The first bootstrap, whose replies are all there at once. -/
def bootstrap : (fuel : Nat) → Awaited → World → Except FetchError World
  | 0, _, w => .ok w
  | fuel + 1, awaited, w =>
    let target := awaited.target w.base w.historyLimit
    let reply := (w.served target).reply
    let f := receiveBootstrap w.sync.retention w.sync.cache awaited reply
    let w := ((w.note (.requested target)).setCache f.cache).syncNotices f.notices
    match f.next with
    | .error (.remote e) => .ok (w.syncNotice (.bootstrapFailed e))
    | .error e => .error e
    | .ok none => .ok w
    | .ok (some next) => bootstrap fuel next w

def entering (w : World) (name : String) (fields : List (String × Json)) : World :=
  w.note (.entry ⟨name, .info, fields⟩)

/-- Starts everything: the cache is filled, the stream is connected if there is one, and the
refresh loop begins. -/
def start (w : World) : Except FetchError World := do
  let w := { w with started := true }.entering "api_starting" []
  let w ← bootstrap patience (.list w.clock) w
  let w :=
    if w.streaming then
      act none w fun c =>
        c.performAll w.callbacks (attachCommands ++ [.listen .resync, .connect])
    else w
  let w := { w with sync := { w.sync with refresh := some .scheduled } }.enqueue .refresh
  let lines := w.sync.cache.size
  let w := w.syncNotice (.started lines w.streaming)
  let w := w.entering "api_started"
    [("lines", Json.ofNat lines), ("stream_enabled", .bool true)]
  return settle patience w

/-- Stops everything in turn: the subscriptions, the tasks, the stream. -/
def stop (w : World) : World :=
  let w := w.entering "api_shutting_down" []
  let w := { w with
    sync := { w.sync with refresh := none, resync := none }
    ready := w.ready.filter fun t => t != .refresh && t != .resync
    held := [], released := [] }
  let leave : List Command := cacheTags.map (fun s => .unsubscribe s.1) ++ [.unlisten .resync]
  let w :=
    if w.streaming then (act none w fun c => c.performAll w.callbacks leave).shutDown else w
  (w.syncNotice .stopped).entering "api_shutdown_complete" []

/-- What requests are answered from. Until the start there is no stream. -/
def service (w : World) : Api.Service where
  cache := w.sync.cache
  now := w.clock
  stream := if w.started && w.streaming then some w.client.state else none
  metrics := w.metrics

end World

end LineWatch
