import LineWatch.Connection.Command

/-!
# Handing out frames

A frame is counted, decoded by its tag, checked against the newest event accepted on its
channel, and offered to the handlers of its tag in the order of their subscription. A handler
accepts an event by not failing. The watermark of the channel moves once all handlers have had
their turn and one of them accepted; a client that is closed meanwhile stops short of that.
-/

namespace LineWatch

/-- Where the handing out of a frame has come to. -/
inductive Handing where
  | finished
  /-- The current handler waits, and the others come after it. -/
  | waiting (phase : Phase)
  /-- The frame ended the attempt. -/
  | failed (failure : Failure)
  deriving DecidableEq, Repr

namespace Client

/-- Whether the event is older than the newest one accepted on its channel. -/
def isStale (c : Client) (event : StreamEvent) : Bool :=
  match event.channel?, event.timestamp? with
  | some channel, some t =>
    match c.watermark? channel with
    | some last => decide (t < last)
    | none => false
  | _, _ => false

def advance (c : Client) (event : StreamEvent) : Client :=
  match event.channel?, event.timestamp? with
  | some channel, some t =>
    match c.watermark? channel with
    | some last =>
      if last < t then { c with watermarks := c.watermarks.set channel t } else c
    | none => { c with watermarks := c.watermarks.set channel t }
  | _, _ => c

/-- Offers an event to one handler; the value tells whether it was accepted. -/
def offer (callbacks : Callbacks) (tag : String) (event : StreamEvent) (c : Client)
    (handler : Handler) : Client × List Emission × Bool :=
  match (callbacks.react handler event).outcome with
  | .error message =>
    (c, [.offered handler event, .notice (.handlerFailed tag event.channel? message)], false)
  | .ok commands =>
    let (c, emissions) := c.performAll callbacks commands
    (c, .offered handler event :: emissions, true)

/-- Offers an event to handlers in turn. -/
def offerAll (callbacks : Callbacks) (tag : String) (event : StreamEvent) (delivered : Bool)
    (c : Client) : List Handler → Client × List Emission × Handing
  | [] => (if delivered then c.advance event else c, [], .finished)
  | handler :: rest =>
    if c.closed then (c, [], .finished)
    else if (callbacks.react handler event).suspends then
      (c, [], .waiting (.handling tag event handler rest delivered))
    else
      let (c, first, accepted) := offer callbacks tag event c handler
      let (c, later, handing) := offerAll callbacks tag event (delivered || accepted) c rest
      (c, first ++ later, handing)

/-- Goes on with the handler that has waited and those after it. -/
def resumeOffer (callbacks : Callbacks) (tag : String) (event : StreamEvent)
    (current : Handler) (rest : List Handler) (delivered : Bool) (c : Client) :
    Client × List Emission × Handing :=
  let (c, first, accepted) := offer callbacks tag event c current
  let (c, later, handing) := offerAll callbacks tag event (delivered || accepted) c rest
  (c, first ++ later, handing)

/-- What a frame turns out to be. -/
inductive Sorted where
  | drop (reason : Drop) (notices : List ClientNotice)
  | event (event : StreamEvent) (handlers : List Handler)
  | unreadable

def sort (c : Client) (frame : Frame) : Sorted :=
  match c.handlersOf frame.event with
  | [] => .drop .unsubscribed []
  | handlers =>
    match EventTag.ofName? frame.event with
    | none => .drop .unknownType []
    | some tag =>
      match StreamEvent.ofData tag frame.data with
      | .outOfRange => .unreadable
      | .invalid errors => .drop .malformed [.decodeFailed frame.event errors]
      | .ok event =>
        if c.isStale event then .drop .stale [.staleDropped frame.event event.channel?]
        else .event event handlers

def dispatch (callbacks : Callbacks) (c : Client) (frame : Frame) :
    Client × List Emission × Handing :=
  match c.sort frame with
  | .drop reason notices =>
    (c, .received frame.event :: .dropped reason :: notices.map .notice, .finished)
  | .unreadable =>
    (c, [.received frame.event], .failed (.unexpected "date value out of range"))
  | .event event handlers =>
    let (c, emissions, handing) := offerAll callbacks frame.event event false c handlers
    (c, .received frame.event :: emissions, handing)

end Client

end LineWatch
