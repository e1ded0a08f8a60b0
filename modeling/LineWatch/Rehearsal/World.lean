import LineWatch.Connection.Loop
import LineWatch.Metrics
import LineWatch.Rehearsal.Script
import LineWatch.Sync.Basic

/-!
# The world of a rehearsal

The world holds the client, the synchronisation, what is left of the script, and the tasks that
are ready to run, first come first served. All that happens is traced. An emission of the client
takes effect in the world at once: a transport begins to play, the cache takes an event, a
listener or handler is heard of.
-/

namespace LineWatch

inductive Trace where
  | entry (entry : Entry)
  | opened (url : String) (lastEventId : Option String)
  | closed (url : String)
  | transportShut
  | slept (delay : Binary64)
  | refreshSlept
  | told (listener : String) (state : ConnectionState)
  | handled (handler : String) (event : StreamEvent)
  | requested (target : String)

inductive Task where
  | loop (id : Nat)
  | refresh
  | resync
  deriving DecidableEq, Repr

structure World where
  url : String
  client : Client
  sync : Sync := {}
  /-- Whether there is a stream at all. -/
  streaming : Bool := true
  /-- Whether the system has been started. -/
  started : Bool := false
  metrics : Metrics := {}
  handlers : Keyed HandlerScript := []
  /-- The listeners by the name under which they can be taken away. -/
  listeners : Keyed Listener := []
  /-- What the next attempts meet. -/
  attempts : List Attempt := []
  /-- What the attempts under way still have to play. -/
  playing : List (Nat × Attempt) := []
  /-- What has been pushed to open streams and not been taken. -/
  arrivals : List Arrival := []
  ready : List Task := []
  /-- Tasks that wait for a held reply. -/
  held : List (Task × Reply) := []
  /-- Replies that have been released and not been taken. -/
  released : List (Task × Reply) := []
  server : Keyed Served := []
  /-- The address of the remote side. -/
  base : String
  historyLimit : Int
  clock : Instant := .epoch
  /-- What has happened, last thing first. -/
  trace : List Trace := []

namespace World

def note (w : World) (t : Trace) : World := { w with trace := t :: w.trace }

def noteEntries (w : World) (es : List Entry) : World := es.foldl (fun w e => w.note (.entry e)) w

def enqueue (w : World) (task : Task) : World :=
  if w.ready.contains task then w else { w with ready := w.ready ++ [task] }

def cacheNotice (w : World) (n : CacheNotice) : World :=
  { w with metrics := w.metrics.cacheNotice n }.noteEntries n.entries

def syncNotice (w : World) (n : SyncNotice) : World :=
  match n with
  | .cache n => w.cacheNotice n
  | n => w.noteEntries n.entries

def syncNotices (w : World) (ns : List SyncNotice) : World := ns.foldl syncNotice w

def setCache (w : World) (cache : LineCache) : World :=
  { w with sync := { w.sync with cache := cache } }

/-- Merges what a cache operation yields. -/
def merge {α : Type} (w : World) (m : Merged α) : World :=
  m.notices.foldl cacheNotice (w.setCache m.cache)

def cacheTags : List (String × String × Handler) := [
  ("cache0", "line.status", .cacheStatus), ("cache1", "line.created", .cacheLines),
  ("cache2", "line.updated", .cacheLines), ("cache3", "line.deleted", .cacheLines)]

def attachCommands : List Command := cacheTags.map fun s => .subscribe s.1 s.2.1 s.2.2

/-- What a cue asks of the client. -/
def commandsOf (w : World) : Cue → List Command
  | .connect => [.connect]
  | .disconnect | .shutDown => [.disconnect]
  | .subscribe name tag handler => [.subscribe name tag (.named handler)]
  | .unsubscribe name => [.unsubscribe name]
  | .attach => attachCommands
  | .listen name fails => [.listen (.named name fails)]
  | .unlisten name =>
    match w.listeners.get? name with
    | some l => [.unlisten l]
    | none => []
  | .wake | .push _ | .none => []

def scriptOf (w : World) (name : String) : HandlerScript := (w.handlers.get? name).getD {}

def react (w : World) (handler : Handler) (event : StreamEvent) : HandlerReaction :=
  match handler with
  | .named name =>
    let script := w.scriptOf name
    { suspends := script.suspends
      outcome := if script.failsOn event then .error (name ++ " failed")
        else .ok (script.cues.flatMap w.commandsOf) }
  | _ => {}

def hear (l : Listener) (_ : ConnectionState) : Reaction :=
  match l with
  | .named name true => .error (name ++ " failed")
  | _ => .ok []

def callbacks (w : World) : Callbacks := ⟨w.react, hear⟩

/-- Whether a loop stands still until it is woken. -/
def isWaiting (w : World) (current : Option Nat) (id : Nat) : Bool :=
  current != some id && !w.ready.contains (.loop id)

/-- Ends the sleep of a loop, if one sleeps. -/
def wake (w : World) (current : Option Nat) : World :=
  match w.client.loops.reverse.find? fun l =>
      l.2.phase == .sleeping && w.isWaiting current l.1 with
  | some l => w.enqueue (.loop l.1)
  | none => w

/-- Pushes to the open streams; a loop that waits for it takes it. -/
def push (w : World) (current : Option Nat) (arrival : Arrival) : World :=
  let w := { w with arrivals := w.arrivals ++ [arrival] }
  match w.client.loops.find? fun l => l.2.phase == .receiving && w.isWaiting current l.1 with
  | some l => w.enqueue (.loop l.1)
  | none => w

/-- What a cue does to the world, apart from the client. -/
def stir (current : Option Nat) (w : World) : Cue → World
  | .wake => w.wake current
  | .push arrival => w.push current arrival
  | .listen name fails => { w with listeners := w.listeners.set name (.named name fails) }
  | _ => w

def nextAttempt (w : World) (current : Option Nat) : World :=
  let attempt := w.attempts.head?.getD (.refused (.transport "connection refused"))
  let w := { w with attempts := w.attempts.drop 1 }
  match current with
  | some id => { w with playing := (id, attempt) :: w.playing.filter (·.1 != id) }
  | none => w

def offered (current : Option Nat) (w : World) (handler : Handler) (event : StreamEvent) :
    World :=
  match handler with
  | .named name =>
    let script := w.scriptOf name
    let w := w.note (.handled name event)
    if script.failsOn event then w else script.cues.foldl (stir current) w
  | .cacheStatus =>
    match event.toChange? with
    | some change => w.merge (w.sync.cache.applyChange w.sync.retention change)
    | none => w
  | .cacheLines => w.merge (w.sync.cache.applyLineEvent event)

def toldOf (w : World) (l : Listener) (state : ConnectionState) : World :=
  match l with
  | .named name _ => w.note (.told name state)
  | .resync =>
    let (sync, starts) := w.sync.hear (state == .connected)
    let w := { w with sync := sync }
    if starts then w.enqueue .resync else w

/-- Lets an emission of the client take effect. -/
def emit (current : Option Nat) (w : World) (e : Emission) : World :=
  let w := { w with metrics := w.metrics.emission e }
  match e with
  | .notice n => w.note (.entry n.entry)
  | .opening lastEventId => (w.nextAttempt current).note (.opened w.url lastEventId)
  | .transportClosed => w.note (.closed w.url)
  | .told l state => w.toldOf l state
  | .offered handler event => offered current w handler event
  | .sleeping delay => w.note (.slept delay)
  | .received _ | .dropped _ | .reconnectScheduled | .backoffShown _ => w

/-- Makes the loops ready that have been started or are to be cancelled. -/
def schedule (current : Option Nat) (w : World) : World :=
  w.client.loops.foldl (fun w l =>
    if (l.2.phase == .scheduled || l.2.cancelling) && current != some l.1 then
      w.enqueue (.loop l.1)
    else w) w

/-- Lets the client take a step. -/
def act (current : Option Nat) (w : World) (step : Client → Client × List Emission) : World :=
  let (client, emissions) := step w.client
  schedule current (emissions.foldl (emit current) { w with client := client })

def signal (w : World) (id : Nat) (s : Signal) : World :=
  act (some id) w (Client.signal w.callbacks id s)

/-- Follows a cue, short of waiting for anything. -/
def follow (current : Option Nat) (w : World) (cue : Cue) : World :=
  let commands := w.commandsOf cue
  stir current (act current w fun c => c.performAll w.callbacks commands) cue

end World

end LineWatch
