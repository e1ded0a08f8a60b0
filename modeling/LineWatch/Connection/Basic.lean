import LineWatch.Connection.Backoff
import LineWatch.Cache.Keyed
import LineWatch.EventStream.Event
import LineWatch.EventStream.Frame
import LineWatch.Journal

/-!
# A client of the event stream

A client keeps one connection to the stream and hands its events to handlers. Each `connect`
starts a loop of its own, which the client forgets at `disconnect`: the loop then runs on until
its cancellation takes effect. What the client does to the world, and what it reports, is a list
of emissions in order.
-/

namespace LineWatch

inductive ConnectionState where
  | disconnected
  | connecting
  | connected
  | reconnecting
  deriving DecidableEq, Repr

namespace ConnectionState

def all : List ConnectionState := [.disconnected, .connecting, .connected, .reconnecting]

def name : ConnectionState → String
  | .disconnected => "disconnected"
  | .connecting => "connecting"
  | .connected => "connected"
  | .reconnecting => "reconnecting"

def ofName? (s : String) : Option ConnectionState := all.find? (·.name == s)

end ConnectionState

/-- Who receives events: the cache, with its status changes and its news of lines, or another
handler. -/
inductive Handler where
  | named (name : String)
  | cacheStatus
  | cacheLines
  deriving DecidableEq, Repr

/-- Who is told of state changes: the resynchronisation, or another listener. -/
inductive Listener where
  | named (name : String) (fails : Bool)
  | resync
  deriving DecidableEq, Repr

/-- What can be asked of a client. -/
inductive Command where
  | connect
  | disconnect
  | subscribe (name tag : String) (handler : Handler)
  | unsubscribe (name : String)
  | listen (listener : Listener)
  | unlisten (listener : Listener)
  deriving DecidableEq, Repr

/-- Why an attempt ended. -/
inductive Failure where
  /-- The transport failed. -/
  | transport (message : String)
  | unexpected (message : String)
  | closedByServer
  deriving DecidableEq, Repr

def Failure.message : Failure → String
  | .transport message | .unexpected message => message
  | .closedByServer => "stream closed by server"

/-- Why a frame was not offered to handlers. -/
inductive Drop where
  | unsubscribed
  | malformed
  | unknownType
  | stale
  deriving DecidableEq, Repr

def Drop.name : Drop → String
  | .unsubscribed => "unsubscribed"
  | .malformed => "malformed"
  | .unknownType => "unknown_type"
  | .stale => "stale"

inductive ClientNotice where
  | alreadyConnected
  | disconnecting
  | stateChanged (previous state : ConnectionState)
  | listenerFailed (error : String)
  | attemptFailed (failure : Failure) (retryIn : Binary64)
  | connected
  | decodeFailed (tag : String) (errors : List FieldError)
  | staleDropped (tag : String) (channel : Option String)
  | handlerFailed (tag : String) (channel : Option String) (error : String)
  deriving DecidableEq, Repr

def ClientNotice.entry : ClientNotice → Entry
  | .alreadyConnected => ⟨"stream.already_connected", .warning, []⟩
  | .disconnecting => ⟨"stream.disconnecting", .info, []⟩
  | .stateChanged previous state => ⟨"stream.state_changed", .debug,
      [("previous", .str previous.name), ("state", .str state.name)]⟩
  | .listenerFailed error => ⟨"stream.state_listener_failed", .error, [("error", .str error)]⟩
  | .attemptFailed failure retryIn =>
    let name := match failure with
      | .unexpected _ => "stream.unexpected_error"
      | _ => "stream.disconnected"
    ⟨name, .error, [("error", .str failure.message), ("retry_in", .float retryIn)]⟩
  | .connected => ⟨"stream.connected", .info, []⟩
  | .decodeFailed tag errors => ⟨"stream.decode_failed", .warning, [
      ("event_type", .str tag), ("error", .str (tag ++ ": invalid payload")),
      ("details", FieldError.listJson errors)]⟩
  | .staleDropped tag channel => ⟨"stream.stale_event_dropped", .debug,
      [("event_type", .str tag), ("channel", Json.ofOption .str channel)]⟩
  | .handlerFailed tag channel error => ⟨"stream.handler_failed", .error, [
      ("event_type", .str tag), ("channel", Json.ofOption .str channel), ("error", .str error)]⟩

inductive Emission where
  | notice (notice : ClientNotice)
  /-- A transport is asked for, with the last event identifier if there is one. -/
  | opening (lastEventId : Option String)
  | transportClosed
  | told (listener : Listener) (state : ConnectionState)
  | received (tag : String)
  | dropped (reason : Drop)
  | offered (handler : Handler) (event : StreamEvent)
  | reconnectScheduled
  /-- The delay before the next attempt has this value from now on. -/
  | backoffShown (delay : Binary64)
  | sleeping (delay : Binary64)
  deriving DecidableEq, Repr

/-- What a callback does: it fails, or it gives commands to the client. -/
abbrev Reaction := Except String (List Command)

structure HandlerReaction where
  /-- Whether the handler waits once before it does anything. -/
  suspends : Bool := false
  outcome : Reaction := .ok []

/-- What the handlers and listeners do when they are called. -/
structure Callbacks where
  react : Handler → StreamEvent → HandlerReaction
  hear : Listener → ConnectionState → Reaction

/-- How a loop goes on once its transport is closed. -/
inductive Outcome where
  /-- The stream has ended, or the client no longer wants it. -/
  | left
  | failed (failure : Failure)
  | cancelled
  deriving DecidableEq, Repr

/-- What a loop is waiting for. -/
inductive Phase where
  | scheduled
  | opening
  | receiving
  | handling (tag : String) (event : StreamEvent) (current : Handler) (rest : List Handler)
      (delivered : Bool)
  | closing (outcome : Outcome)
  | sleeping
  deriving DecidableEq, Repr

structure Loop where
  phase : Phase
  /-- A cancellation has been asked for and not taken effect yet. -/
  cancelling : Bool := false
  deriving DecidableEq, Repr

/-- A subscription under a name; it can be given up once. -/
structure Subscription where
  tag : String
  handler : Handler
  active : Bool := true
  deriving DecidableEq, Repr

structure Client where
  connectedEvent : String
  backoff : Backoff
  state : ConnectionState := .disconnected
  closed : Bool := true
  handlers : Keyed (List Handler) := []
  subscriptions : Keyed Subscription := []
  listeners : List Listener := []
  watermarks : Keyed Instant := []
  lastEventId : Option String := none
  /-- The loop that the client knows of. -/
  task : Option Nat := none
  /-- The loops that have not ended. -/
  loops : List (Nat × Loop) := []
  nextLoop : Nat := 0
  deriving DecidableEq, Repr

namespace Client

def loop? (c : Client) (id : Nat) : Option Loop := c.loops.lookup id

def mapLoop (c : Client) (id : Nat) (f : Loop → Loop) : Client :=
  { c with loops := c.loops.map fun kv => if kv.1 = id then (kv.1, f kv.2) else kv }

def setPhase (c : Client) (id : Nat) (phase : Phase) : Client :=
  c.mapLoop id fun l => { l with phase := phase }

def endLoop (c : Client) (id : Nat) : Client :=
  { c with loops := c.loops.filter (·.1 != id) }

def handlersOf (c : Client) (tag : String) : List Handler := (c.handlers.get? tag).getD []

def subscribedTags (c : Client) : List String :=
  (c.handlers.filter fun kv => !kv.2.isEmpty).map (·.1)

def watermark? (c : Client) (channel : String) : Option Instant := c.watermarks.get? channel

/-- The loop that the client knows of, if it has not ended. -/
def activeLoop? (c : Client) : Option Nat :=
  c.task.filter fun id => (c.loop? id).isSome

end Client

end LineWatch
