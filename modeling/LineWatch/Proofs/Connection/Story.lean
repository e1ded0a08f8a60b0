import LineWatch.Proofs.Connection.Run

/-!
# Calls and returns

What a client emits does not tell when somebody calls `connect` or `disconnect`, when `disconnect`
returns, and when a handler is called that waits before it does anything. The story of a run has
these moments among the emissions. It goes through the same clients as the run, and without the
calls and returns it is what the run emits.
-/

namespace LineWatch

inductive Moment where
  | emitted (emission : Emission)
  | connectCalled
  | disconnectCalled
  | disconnectReturned
  /-- A handler is called, and possibly waits at first. -/
  | invoked (handler : Handler) (event : StreamEvent)
  deriving DecidableEq, Repr

def Moment.emission? : Moment → Option Emission
  | .emitted emission => some emission
  | _ => none

def emissionsIn (moments : List Moment) : List Emission := moments.filterMap (·.emission?)

@[simp] theorem emissionsIn_append (first later : List Moment) :
    emissionsIn (first ++ later) = emissionsIn first ++ emissionsIn later :=
  List.filterMap_append ..

@[simp] theorem emissionsIn_map_emitted (emissions : List Emission) :
    emissionsIn (emissions.map .emitted) = emissions := by
  rw [emissionsIn, List.filterMap_map]
  exact List.filterMap_some

namespace Client

section With

variable (leave : Client → Client × List Emission) (leaveStory : Client → List Moment)

def performStoryWith (c : Client) : Command → List Moment
  | .connect => .connectCalled :: c.connect.2.map .emitted
  | .disconnect => leaveStory c
  | .subscribe .. | .unsubscribe .. | .listen .. | .unlisten .. => []

def performAllStoryWith (c : Client) : List Command → List Moment
  | [] => []
  | command :: rest =>
    performStoryWith leaveStory c command ++
      performAllStoryWith (performWith leave c command).1 rest

def announceStoryWith (callbacks : Callbacks) (state : ConnectionState) (c : Client) :
    List Listener → List Moment
  | [] => []
  | l :: rest =>
    .emitted (.told l state) ::
      match callbacks.hear l state with
      | .error message =>
        .emitted (.notice (.listenerFailed message)) :: announceStoryWith callbacks state c rest
      | .ok commands =>
        performAllStoryWith leave leaveStory c commands ++
          announceStoryWith callbacks state (performAllWith leave c commands).1 rest

def enterStoryWith (callbacks : Callbacks) (state : ConnectionState) (c : Client) : List Moment :=
  if c.state = state then []
  else .emitted (.notice (.stateChanged c.state state)) ::
    announceStoryWith leave leaveStory callbacks state { c with state := state } c.listeners

end With

/-- A call of `disconnect` while `disconnected` is being announced. -/
def haltStory (c : Client) : List Moment :=
  .disconnectCalled :: (c.halt.2.map .emitted ++ [.disconnectReturned])

section Stories

variable (callbacks : Callbacks)

def disconnectStory (c : Client) : List Moment :=
  .disconnectCalled :: (c.halt.2.map .emitted ++
    enterStoryWith halt haltStory callbacks .disconnected c.halt.1 ++ [.disconnectReturned])

def enterStory (state : ConnectionState) (c : Client) : List Moment :=
  enterStoryWith (disconnect callbacks) (disconnectStory callbacks) callbacks state c

def offerStory (tag : String) (event : StreamEvent) (c : Client) (handler : Handler) :
    List Moment :=
  .emitted (.offered handler event) ::
    match (callbacks.react handler event).outcome with
    | .error message => [.emitted (.notice (.handlerFailed tag event.channel? message))]
    | .ok commands =>
      performAllStoryWith (disconnect callbacks) (disconnectStory callbacks) c commands

def offerAllStory (tag : String) (event : StreamEvent) (c : Client) : List Handler → List Moment
  | [] => []
  | handler :: rest =>
    if c.closed then []
    else .invoked handler event ::
      if (callbacks.react handler event).suspends then []
      else
        offerStory callbacks tag event c handler ++
          offerAllStory tag event (offer callbacks tag event c handler).1 rest

/-- The handler that goes on has been called before. -/
def resumeOfferStory (tag : String) (event : StreamEvent) (current : Handler)
    (rest : List Handler) (c : Client) : List Moment :=
  offerStory callbacks tag event c current ++
    offerAllStory callbacks tag event (offer callbacks tag event c current).1 rest

def dispatchStory (c : Client) (frame : Frame) : List Moment :=
  match c.sort frame with
  | .event event handlers =>
    .emitted (.received frame.event) :: offerAllStory callbacks frame.event event c handlers
  | _ => (c.dispatch callbacks frame).2.1.map .emitted

def attemptStory (c : Client) : List Moment :=
  if c.closed then []
  else
    let entered := (c.enter callbacks .connecting).1
    enterStory callbacks .connecting c ++
      [.emitted (.opening (entered.lastEventId.filter (· != "")))]

def retryStory (failure : Failure) (c : Client) : List Moment :=
  let delay := c.backoff.delay
  .emitted (.notice (.attemptFailed failure delay)) ::
    if c.closed then []
    else
      enterStory callbacks .reconnecting { c with backoff := c.backoff.grow } ++
        [.emitted .reconnectScheduled, .emitted (.backoffShown delay), .emitted (.sleeping delay)]

def shakeStory (c : Client) : List Moment :=
  let reset := { c with backoff := c.backoff.reset }
  .emitted (.backoffShown reset.backoff.delay) ::
    (enterStory callbacks .connected reset ++ [.emitted (.notice .connected)])

def receiveStory (c : Client) (frame : Frame) : List Moment :=
  if c.closed then []
  else
    let c := match frame.id with
      | some v => { c with lastEventId := some v }
      | none => c
    if frame.event = c.connectedEvent then c.shakeStory callbacks
    else c.dispatchStory callbacks frame

def afterClosingStory (c : Client) : Outcome → List Moment
  | .cancelled => []
  | .failed failure => c.retryStory callbacks failure
  | .left => if c.closed then [] else c.retryStory callbacks .closedByServer

def signalStory (id : Nat) (s : Signal) (c : Client) : List Moment :=
  match c.loop? id with
  | none => []
  | some loop =>
    match loop.phase, s with
    | phase, .cancelled => if loop.cancelling then (c.cancel id phase).2.map .emitted else []
    | .scheduled, .begun | .sleeping, .woken =>
      if loop.cancelling then [] else c.attemptStory callbacks
    | .opening, .openFailed failure => c.retryStory callbacks failure
    | .receiving, .frame frame => c.receiveStory callbacks frame
    | .handling tag event current rest _, .resumed =>
      if loop.cancelling then [] else c.resumeOfferStory callbacks tag event current rest
    | .closing outcome, .closed =>
      .emitted .transportClosed :: c.afterClosingStory callbacks outcome
    | _, _ => []

end Stories

def takeStory (c : Client) (turn : Turn) : List Moment :=
  match turn.act with
  | .signal loop signal => c.signalStory turn.callbacks loop signal
  | .command command => c.performStoryWith (disconnectStory turn.callbacks) command

def story (c : Client) : List Turn → List Moment
  | [] => []
  | turn :: rest => c.takeStory turn ++ (c.take turn).1.story rest

/-- A client that is not closed notes the identifier of a frame before it goes on with the frame. -/
theorem receive_noted (callbacks : Callbacks) {c : Client} (hopen : c.closed = false) (id : Nat)
    (frame : Frame) : ∃ lastEventId, let noted := { c with lastEventId := lastEventId }
      (c.receive callbacks id frame =
        if frame.event = c.connectedEvent then noted.shake callbacks
        else ((noted.dispatch callbacks frame).1.settleHanding id
          (noted.dispatch callbacks frame).2.2, (noted.dispatch callbacks frame).2.1)) ∧
      c.receiveStory callbacks frame =
        if frame.event = c.connectedEvent then noted.shakeStory callbacks
        else noted.dispatchStory callbacks frame := by
  have hnot : ¬c.closed = true := by simp [hopen]
  rw [receive, receiveStory, if_neg hnot, if_neg hnot]
  cases frame.id with
  | none => exact ⟨c.lastEventId, rfl, rfl⟩
  | some v => exact ⟨some v, rfl, rfl⟩

end Client

end LineWatch
