import LineWatch.Connection.Dispatch

/-!
# The connection loop

A loop opens a transport, takes frames from it until the stream ends or fails, closes it, sleeps
for the delay of the backoff and starts again. Each signal is what a loop has been waiting for,
and takes it to its next wait. A loop whose cancellation is pending never comes back from a
sleep or from a handler that waits.
-/

namespace LineWatch

inductive Signal where
  | begun
  | opened
  | openFailed (failure : Failure)
  | frame (frame : Frame)
  | ended
  | broke (failure : Failure)
  | resumed
  | closed
  | woken
  | cancelled
  deriving DecidableEq, Repr

namespace Client

/-- Starts an attempt, unless the client is closed. -/
def attempt (callbacks : Callbacks) (id : Nat) (c : Client) : Client × List Emission :=
  if c.closed then (c.endLoop id, [])
  else
    let (c, emissions) := c.enter callbacks .connecting
    (c.setPhase id .opening, emissions ++ [.opening (c.lastEventId.filter (· != ""))])

/-- Reports a failed attempt and goes to sleep, unless the client is closed. -/
def retry (callbacks : Callbacks) (id : Nat) (failure : Failure) (c : Client) :
    Client × List Emission :=
  let delay := c.backoff.delay
  let report : Emission := .notice (.attemptFailed failure delay)
  if c.closed then (c.endLoop id, [report])
  else
    let (c, emissions) := { c with backoff := c.backoff.grow }.enter callbacks .reconnecting
    (c.setPhase id .sleeping,
      report :: emissions ++ [.reconnectScheduled, .backoffShown delay, .sleeping delay])

def shake (callbacks : Callbacks) (c : Client) : Client × List Emission :=
  let c := { c with backoff := c.backoff.reset }
  let (entered, emissions) := c.enter callbacks .connected
  (entered, .backoffShown c.backoff.delay :: emissions ++ [.notice .connected])

def settleHanding (id : Nat) (c : Client) : Handing → Client
  | .finished => c.setPhase id .receiving
  | .waiting phase => c.setPhase id phase
  | .failed failure => c.setPhase id (.closing (.failed failure))

/-- Takes one frame. -/
def receive (callbacks : Callbacks) (id : Nat) (c : Client) (frame : Frame) :
    Client × List Emission :=
  if c.closed then (c.setPhase id (.closing .left), [])
  else
    let c := match frame.id with
      | some v => { c with lastEventId := some v }
      | none => c
    if frame.event = c.connectedEvent then c.shake callbacks
    else
      let (c, emissions, handing) := c.dispatch callbacks frame
      (c.settleHanding id handing, emissions)

/-- Goes on after the transport has been closed. -/
def afterClosing (callbacks : Callbacks) (id : Nat) (c : Client) (outcome : Outcome) :
    Client × List Emission :=
  match outcome with
  | .cancelled => (c.endLoop id, [])
  | .failed failure => c.retry callbacks id failure
  | .left => if c.closed then (c.endLoop id, []) else c.retry callbacks id .closedByServer

def cancel (id : Nat) (c : Client) (phase : Phase) : Client × List Emission :=
  let c := c.mapLoop id fun l => { l with cancelling := false }
  match phase with
  | .scheduled | .opening | .sleeping => (c.endLoop id, [])
  | .receiving | .handling .. => (c.setPhase id (.closing .cancelled), [])
  | .closing _ => (c.endLoop id, [.transportClosed])

/-- Hands a signal to a loop. One that it does not wait for changes nothing. -/
def signal (callbacks : Callbacks) (id : Nat) (s : Signal) (c : Client) :
    Client × List Emission :=
  match c.loop? id with
  | none => (c, [])
  | some loop =>
    match loop.phase, s with
    | phase, .cancelled => if loop.cancelling then c.cancel id phase else (c, [])
    | .scheduled, .begun =>
      if loop.cancelling then c.cancel id .scheduled else c.attempt callbacks id
    | .opening, .opened => (c.setPhase id .receiving, [])
    | .opening, .openFailed failure => c.retry callbacks id failure
    | .receiving, .frame frame => c.receive callbacks id frame
    | .receiving, .ended => (c.setPhase id (.closing .left), [])
    | .receiving, .broke failure => (c.setPhase id (.closing (.failed failure)), [])
    | .handling tag event current rest delivered, .resumed =>
      if loop.cancelling then c.cancel id loop.phase
      else
        let (c, emissions, handing) := c.resumeOffer callbacks tag event current rest delivered
        (c.settleHanding id handing, emissions)
    | .closing outcome, .closed =>
      let (c, emissions) := c.afterClosing callbacks id outcome
      (c, .transportClosed :: emissions)
    | .sleeping, .woken =>
      if loop.cancelling then c.cancel id .sleeping else c.attempt callbacks id
    | _, _ => (c, [])

end Client

end LineWatch
