import LineWatch.Connection.Loop

/-!
# Runs of a client

A run is a sequence of turns: a loop gets what it may be waiting for, or somebody outside gives a
command. What the handlers and listeners do may differ from turn to turn. Of what a turn emits,
only three kinds tell of frames: that one was received, that it was dropped, and that its event
was offered to a handler.
-/

namespace LineWatch

inductive Act where
  | signal (loop : Nat) (signal : Signal)
  | command (command : Command)
  deriving DecidableEq, Repr

structure Turn where
  callbacks : Callbacks
  act : Act

/-- The event that is being handed out, the handlers still to come, and whether one of the others
has accepted it. -/
def Phase.inHand? : Phase → Option (StreamEvent × List Handler × Bool)
  | .handling _ event current rest delivered => some (event, current :: rest, delivered)
  | _ => none

namespace Client

/-- A client that nobody has used yet. -/
def fresh (connectedEvent : String) (backoff : Backoff) : Client := { connectedEvent, backoff }

def take (c : Client) (turn : Turn) : Client × List Emission :=
  match turn.act with
  | .signal loop signal => c.signal turn.callbacks loop signal
  | .command command => c.perform turn.callbacks command

def run (c : Client) : List Turn → Client × List Emission
  | [] => (c, [])
  | turn :: rest =>
    let (c, first) := c.take turn
    let (c, later) := c.run rest
    (c, first ++ later)

/-- Nobody hears a signal to a loop that has ended. -/
theorem take_unheard {c : Client} {id : Nat} (hloop : c.loop? id = none) (callbacks : Callbacks)
    (s : Signal) : c.take ⟨callbacks, .signal id s⟩ = (c, []) := by
  simp [take, signal, hloop]

/-- Whether a frame would reach the client through this loop. -/
def takesFrame (c : Client) (id : Nat) : Bool :=
  !c.closed && (c.loop? id).any (·.phase == .receiving)

/-- The frame that a turn brings to the client, if there is one. -/
def takenFrame? (c : Client) : Act → Option Frame
  | .signal id (.frame frame) => if c.takesFrame id then some frame else none
  | _ => none

theorem takenFrame?_eq_some {c : Client} {id : Nat} {s : Signal} {frame : Frame} :
    c.takenFrame? (.signal id s) = some frame ↔ s = .frame frame ∧ c.closed = false ∧
      ∃ l, c.loop? id = some l ∧ l.phase = .receiving := by
  cases s with
  | frame taken =>
    cases hloop : c.loop? id with
    | none => simp [takenFrame?, takesFrame, hloop]
    | some l => simp [takenFrame?, takesFrame, hloop, and_comm]
  | _ => simp [takenFrame?]

/-- What a signal that brings no frame comes to. -/
inductive Answers (callbacks : Callbacks) (c : Client) (id : Nat) : Client × List Emission → Prop
  where
  | waits : Answers callbacks c id (c, [])
  | cancels {phase : Phase} (hloop : c.loop? id = some ⟨phase, true⟩) :
      Answers callbacks c id (c.cancel id phase)
  | begins : Answers callbacks c id (c.attempt callbacks id)
  | moves {phase : Phase} (hphase : phase.inHand? = none) :
      Answers callbacks c id (c.setPhase id phase, [])
  | fails (failure : Failure) : Answers callbacks c id (c.retry callbacks id failure)
  | resumes {tag : String} {event : StreamEvent} {current : Handler} {rest : List Handler}
      {delivered : Bool}
      (hloop : c.loop? id = some ⟨.handling tag event current rest delivered, false⟩)
      {handed : Client × List Emission × Handing}
      (hhanded : c.resumeOffer callbacks tag event current rest delivered = handed) :
      Answers callbacks c id (handed.1.settleHanding id handed.2.2, handed.2.1)
  | closes (outcome : Outcome) : Answers callbacks c id
      ((c.afterClosing callbacks id outcome).1,
        .transportClosed :: (c.afterClosing callbacks id outcome).2)

theorem signal_of_takenFrame? (callbacks : Callbacks) {c : Client} {id : Nat} {s : Signal}
    {frame : Frame} (h : c.takenFrame? (.signal id s) = some frame) :
    c.signal callbacks id s = c.receive callbacks id frame := by
  obtain ⟨rfl, -, ⟨phase, cancelling⟩, hloop, rfl⟩ := takenFrame?_eq_some.mp h
  simp only [signal, hloop]

theorem answers_signal (callbacks : Callbacks) {c : Client} {id : Nat} {s : Signal}
    (h : c.takenFrame? (.signal id s) = none) :
    Answers callbacks c id (c.signal callbacks id s) := by
  unfold signal
  cases hloop : c.loop? id with
  | none => exact .waits
  | some loop =>
    obtain ⟨phase, cancelling⟩ := loop
    dsimp only
    cases s with
    | cancelled =>
      cases cancelling with
      | true => exact .cancels hloop
      | false => exact .waits
    | begun =>
      cases phase with
      | scheduled =>
        cases cancelling with
        | true => exact .cancels hloop
        | false => exact .begins
      | _ => exact .waits
    | opened =>
      cases phase with
      | opening => exact .moves rfl
      | _ => exact .waits
    | openFailed failure =>
      cases phase with
      | opening => exact .fails failure
      | _ => exact .waits
    | frame frame =>
      cases phase with
      | receiving =>
        -- The client has been closed, or it would have taken the frame.
        have hclosed : c.closed = true := by simpa [takenFrame?, takesFrame, hloop] using h
        simp only [receive, hclosed, if_true]
        exact .moves rfl
      | _ => exact .waits
    | ended | broke =>
      cases phase with
      | receiving => exact .moves rfl
      | _ => exact .waits
    | resumed =>
      cases phase with
      | handling tag event current rest delivered =>
        cases cancelling with
        | true => exact .cancels hloop
        | false => exact .resumes hloop rfl
      | _ => exact .waits
    | closed =>
      cases phase with
      | closing outcome => exact .closes outcome
      | _ => exact .waits
    | woken =>
      cases phase with
      | sleeping =>
        cases cancelling with
        | true => exact .cancels hloop
        | false => exact .begins
      | _ => exact .waits

end Client

namespace Emission

def tellsOfFrame : Emission → Bool
  | .received _ | .dropped _ | .offered .. => true
  | _ => false

/-- The handler and the event of an offer. -/
def offer? : Emission → Option (Handler × StreamEvent)
  | .offered handler event => some (handler, event)
  | _ => none

end Emission

def frameNews (emissions : List Emission) : List Emission := emissions.filter (·.tellsOfFrame)

def offersIn (emissions : List Emission) : List (Handler × StreamEvent) :=
  emissions.filterMap (·.offer?)

@[simp] theorem frameNews_append (first later : List Emission) :
    frameNews (first ++ later) = frameNews first ++ frameNews later := List.filter_append ..

theorem offersIn_append (first later : List Emission) :
    offersIn (first ++ later) = offersIn first ++ offersIn later := List.filterMap_append ..

/-- Only the news of frames can be offers. -/
theorem offersIn_frameNews (emissions : List Emission) :
    offersIn (frameNews emissions) = offersIn emissions := by
  rw [offersIn, frameNews, List.filterMap_filter]
  congr 1
  funext emission
  cases emission <;> rfl

theorem offersIn_map_offered (handlers : List Handler) (event : StreamEvent) :
    offersIn (handlers.map (.offered · event)) = handlers.map (·, event) := by
  rw [offersIn, List.filterMap_map, ← List.filterMap_eq_map]
  rfl

/-- The loop has opened a transport, or is about to, and has not closed it yet. -/
def Phase.hasTransport : Phase → Bool
  | .opening | .receiving | .handling .. | .closing _ => true
  | .scheduled | .sleeping => false

/-- No handler disconnects the client. -/
def Callbacks.HandlersStay (callbacks : Callbacks) : Prop :=
  ∀ handler event commands,
    (callbacks.react handler event).outcome = .ok commands → .disconnect ∉ commands

/-- No listener disconnects the client. -/
def Callbacks.ListenersStay (callbacks : Callbacks) : Prop :=
  ∀ listener state commands,
    callbacks.hear listener state = .ok commands → .disconnect ∉ commands

/-- Nobody disconnects the client in this turn. -/
structure Turn.Stays (turn : Turn) : Prop where
  handlers : turn.callbacks.HandlersStay
  listeners : turn.callbacks.ListenersStay
  act : turn.act ≠ .command .disconnect

namespace Client

/-- The connection is as before. -/
structure SameLink (c c' : Client) : Prop where
  closed : c'.closed = c.closed
  task : c'.task = c.task
  loops : c'.loops = c.loops

theorem SameLink.refl (c : Client) : SameLink c c := ⟨rfl, rfl, rfl⟩

theorem SameLink.trans {c c' c'' : Client} (h : SameLink c c') (h' : SameLink c' c'') :
    SameLink c c'' :=
  ⟨h'.closed.trans h.closed, h'.task.trans h.task, h'.loops.trans h.loops⟩

theorem SameLink.activeLoop? {c c' : Client} (h : SameLink c c') :
    c'.activeLoop? = c.activeLoop? := by
  simp [Client.activeLoop?, loop?, h.task, h.loops]

/-- The client has noted the identifier of a frame. -/
def noted (c : Client) (frame : Frame) : Client :=
  match frame.id with
  | some v => { c with lastEventId := some v }
  | none => c

theorem sameLink_noted (c : Client) (frame : Frame) : SameLink c (c.noted frame) := by
  unfold noted
  cases frame.id <;> exact ⟨rfl, rfl, rfl⟩

theorem receive_of_open (callbacks : Callbacks) {c : Client} (hopen : c.closed = false) {id : Nat}
    {frame : Frame} : c.receive callbacks id frame =
      if frame.event = c.connectedEvent then (c.noted frame).shake callbacks
      else
        (((c.noted frame).dispatch callbacks frame).1.settleHanding id
          ((c.noted frame).dispatch callbacks frame).2.2,
          ((c.noted frame).dispatch callbacks frame).2.1) := by
  rw [receive, if_neg (by simp [hopen])]
  unfold noted
  cases frame.id <;> rfl

/-- What happens on the side: the connection and the watermarks stay, and there is no news of
frames. -/
structure Aside (c : Client) (result : Client × List Emission) : Prop where
  link : SameLink c result.1
  watermarks : result.1.watermarks = c.watermarks
  news : frameNews result.2 = []

theorem Aside.refl (c : Client) : Aside c (c, []) := ⟨.refl c, rfl, rfl⟩

theorem Aside.trans {c c' c'' : Client} {first later : List Emission}
    (h : Aside c (c', first)) (h' : Aside c' (c'', later)) : Aside c (c'', first ++ later) where
  link := h.link.trans h'.link
  watermarks := h'.watermarks.trans h.watermarks
  news := by simpa [h.news] using h'.news

theorem Aside.cons {c c' : Client} {emissions : List Emission} (h : Aside c (c', emissions))
    {emission : Emission} (hemission : emission.tellsOfFrame = false) :
    Aside c (c', emission :: emissions) where
  link := h.link
  watermarks := h.watermarks
  news := by simpa [frameNews, hemission] using h.news

theorem Aside.append {c c' : Client} {first later : List Emission} (h : Aside c (c', first))
    (hlater : frameNews later = []) : Aside c (c', first ++ later) :=
  h.trans ⟨.refl c', rfl, hlater⟩

section Commands

variable {leave : Client → Client × List Emission}

theorem aside_rewiring (c : Client) {command : Command} (hconnect : command ≠ .connect)
    (hleave : command ≠ .disconnect) : Aside c (performWith leave c command) := by
  cases command with
  | connect => exact absurd rfl hconnect
  | disconnect => exact absurd rfl hleave
  | unsubscribe name =>
    simp only [performWith, unsubscribe]
    split
    · exact .refl c
    · split
      · exact .refl c
      · exact ⟨⟨rfl, rfl, rfl⟩, rfl, rfl⟩
  | subscribe | listen | unlisten => exact ⟨⟨rfl, rfl, rfl⟩, rfl, rfl⟩

theorem aside_performWith {c : Client} (hactive : c.activeLoop?.isSome) {command : Command}
    (hleave : command ≠ .disconnect) : Aside c (performWith leave c command) := by
  by_cases hconnect : command = .connect
  · obtain ⟨id, hid⟩ := Option.isSome_iff_exists.1 hactive
    simp only [hconnect, performWith, connect, hid]
    exact (Aside.refl c).cons rfl
  · exact aside_rewiring c hconnect hleave

theorem aside_performAllWith {c : Client} (hactive : c.activeLoop?.isSome)
    {commands : List Command} (h : .disconnect ∉ commands) :
    Aside c (performAllWith leave c commands) := by
  induction commands generalizing c with
  | nil => exact .refl c
  | cons command rest ih =>
    rw [List.mem_cons, not_or] at h
    have hfirst : Aside c (performWith leave c command) :=
      aside_performWith hactive (Ne.symm h.1)
    have hactive' : (performWith leave c command).1.activeLoop?.isSome := by
      rwa [hfirst.link.activeLoop?]
    exact hfirst.trans (ih hactive' h.2)

theorem aside_announceWith {callbacks : Callbacks} (hstay : callbacks.ListenersStay)
    (state : ConnectionState) {c : Client} (hactive : c.activeLoop?.isSome)
    (listeners : List Listener) : Aside c (announceWith leave callbacks state c listeners) := by
  induction listeners generalizing c with
  | nil => exact .refl c
  | cons l rest ih =>
    simp only [announceWith]
    cases hhear : callbacks.hear l state with
    | error message => exact (((Aside.refl c).cons rfl).trans (ih hactive)).cons rfl
    | ok commands =>
      have hfirst : Aside c (performAllWith leave c commands) :=
        aside_performAllWith hactive (hstay l state commands hhear)
      have hactive' : (performAllWith leave c commands).1.activeLoop?.isSome := by
        rwa [hfirst.link.activeLoop?]
      exact (hfirst.trans (ih hactive')).cons rfl

theorem aside_enter {callbacks : Callbacks} (hstay : callbacks.ListenersStay)
    (state : ConnectionState) {c : Client} (hactive : c.activeLoop?.isSome) :
    Aside c (c.enter callbacks state) := by
  simp only [enter, enterWith]
  split
  · exact .refl c
  · have hstate : Aside c ({ c with state := state }, []) := ⟨⟨rfl, rfl, rfl⟩, rfl, rfl⟩
    have hactive' : Client.activeLoop? { c with state := state } |>.isSome := by
      rwa [hstate.link.activeLoop?]
    exact (hstate.trans (aside_announceWith hstay state hactive' c.listeners)).cons rfl

end Commands

theorem loop?_mapLoop (c : Client) (id : Nat) (f : Loop → Loop) :
    (c.mapLoop id f).loop? id = (c.loop? id).map f := by
  simp only [loop?, mapLoop]
  induction c.loops with
  | nil => rfl
  | cons kv rest ih =>
    obtain ⟨k, l⟩ := kv
    by_cases h : k = id
    · simp [h]
    · have hne : (id == k) = false := by simpa using Ne.symm h
      simpa [List.lookup_cons, h, hne] using ih

/-- The client wants its connection, and its loop has come to `phase`. -/
structure Running (c : Client) (id : Nat) (phase : Phase) : Prop where
  closed : c.closed = false
  task : c.task = some id
  loop? : c.loop? id = some { phase := phase }

namespace Running

variable {c c' : Client} {id : Nat} {phase : Phase}

theorem active (h : c.Running id phase) : c.activeLoop?.isSome := by
  simp [activeLoop?, h.task, h.loop?]

theorem of_sameLink (h : c.Running id phase) (hlink : SameLink c c') : c'.Running id phase :=
  ⟨hlink.closed.trans h.closed, hlink.task.trans h.task, by
    rw [← h.loop?, Client.loop?, hlink.loops, Client.loop?]⟩

theorem setPhase (h : c.Running id phase) (phase' : Phase) :
    (c.setPhase id phase').Running id phase' :=
  ⟨h.closed, h.task, by simp [Client.setPhase, loop?_mapLoop, h.loop?]⟩

theorem phase_eq {phase' : Phase} (h : c.Running id phase) (h' : c.Running id phase') :
    phase = phase' := by
  have hloop := h.loop?.symm.trans h'.loop?
  simpa using hloop

end Running

/-- A turn takes the client's loop to `phase`, with these news of frames. -/
structure Moves (c : Client) (id : Nat) (phase : Phase) (news : List Emission)
    (watermarks : Keyed Instant) (result : Client × List Emission) : Prop where
  running : result.1.Running id phase
  loops : result.1.loops.map (·.1) = c.loops.map (·.1)
  news : frameNews result.2 = news
  watermarks : result.1.watermarks = watermarks

theorem loops_setPhase (c : Client) (id : Nat) (phase : Phase) :
    (c.setPhase id phase).loops.map (·.1) = c.loops.map (·.1) := by
  simp only [setPhase, mapLoop, List.map_map]
  apply List.map_congr_left
  intro kv _
  simp only [Function.comp_apply]
  split <;> rfl

theorem SameLink.setPhase {c c' : Client} {id : Nat} {phase : Phase} (h : SameLink c c')
    (hrun : c.Running id phase) (phase' : Phase) :
    (c'.setPhase id phase').Running id phase' ∧
      (c'.setPhase id phase').loops.map (·.1) = c.loops.map (·.1) :=
  ⟨(hrun.of_sameLink h).setPhase phase', by rw [loops_setPhase, h.loops]⟩

section Aside

variable {c c' : Client} {id : Nat} {phase : Phase} {emissions : List Emission}

theorem Aside.moves (h : Aside c (c', emissions)) (hrun : c.Running id phase) :
    Moves c id phase [] c.watermarks (c', emissions) :=
  ⟨hrun.of_sameLink h.link, by rw [h.link.loops], h.news, h.watermarks⟩

theorem Aside.moves_to (h : Aside c (c', emissions)) (hrun : c.Running id phase)
    (phase' : Phase) : Moves c id phase' [] c.watermarks (c'.setPhase id phase', emissions) :=
  ⟨(h.link.setPhase hrun phase').1, (h.link.setPhase hrun phase').2, h.news, h.watermarks⟩

end Aside

end Client

end LineWatch
