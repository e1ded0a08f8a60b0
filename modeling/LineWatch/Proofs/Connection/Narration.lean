import LineWatch.Proofs.Connection.Abandoned

/-!
# A turn as one thing after another

What a turn does is made of what callbacks bring about, of entering a state, of emissions and of
moving the loop of the turn on. A relation that goes along with all these holds between a client
and the outcome and the story of every turn, and of every run.
-/

namespace LineWatch

/-- Neither a change of the state nor an offer. -/
def Emission.isPlain : Emission → Bool
  | .notice (.stateChanged ..) | .offered .. => false
  | _ => true

theorem Emission.isPlain_of_isReport {emission : Emission} (h : emission.isReport = true) :
    emission.isPlain = true := by
  cases emission with
  | notice notice => cases notice <;> first | rfl | cases h
  | offered => cases h
  | _ => rfl

theorem Client.isPlain_halt (c : Client) : ∀ emission ∈ c.halt.2, emission.isPlain = true := by
  unfold halt
  dsimp only
  split <;> simp [Emission.isPlain]

theorem Client.isPlain_connect (c : Client) :
    ∀ emission ∈ c.connect.2, emission.isPlain = true := by
  unfold connect
  split <;> simp [Emission.isPlain]

/-- Nobody gives other commands than these in this turn. -/
structure Turn.Gives (turn : Turn) (allowed : Command → Prop) : Prop where
  callbacks : turn.callbacks.Give allowed
  act : ∀ command, turn.act = .command command → allowed command

theorem Turn.gives_any (turn : Turn) : turn.Gives fun _ => True :=
  ⟨turn.callbacks.give_any, fun _ _ => trivial⟩

namespace Client

/-- At most this loop has moved on, and what the state of the connection does not depend on has
changed. -/
structure MovedTo (c : Client) (id : Nat) (c' : Client) : Prop where
  connectedEvent : c'.connectedEvent = c.connectedEvent
  closed : c'.closed = c.closed
  state : c'.state = c.state
  task : c'.task = c.task
  nextLoop : c'.nextLoop = c.nextLoop
  loop? : ∀ other, other ≠ id → c'.loop? other = c.loop? other

theorem MovedTo.refl (c : Client) (id : Nat) : c.MovedTo id c :=
  ⟨rfl, rfl, rfl, rfl, rfl, fun _ _ => rfl⟩

theorem RewiredTo.movedTo {c c' : Client} (h : c.RewiredTo c') (id : Nat) : c.MovedTo id c' := by
  obtain ⟨handlers, subscriptions, listeners, watermarks, rfl⟩ := h
  exact ⟨rfl, rfl, rfl, rfl, rfl, fun _ _ => rfl⟩

theorem movedTo_setPhase (c : Client) (id : Nat) (phase : Phase) :
    c.MovedTo id (c.setPhase id phase) :=
  ⟨rfl, rfl, rfl, rfl, rfl, fun _ h => loop?_setPhase_of_ne c h phase⟩

theorem movedTo_endLoop (c : Client) (id : Nat) : c.MovedTo id (c.endLoop id) :=
  ⟨rfl, rfl, rfl, rfl, rfl, fun _ h => loop?_endLoop_of_ne c h⟩

theorem movedTo_settleHanding (c : Client) (id : Nat) (handing : Handing) :
    c.MovedTo id (c.settleHanding id handing) := by
  cases handing <;> exact movedTo_setPhase c id _

theorem movedTo_cancel (c : Client) (id : Nat) (phase : Phase) :
    c.MovedTo id (c.cancel id phase).1 := by
  obtain ⟨hclosed, htask, hnext⟩ := sameClient_cancel c id phase
  refine ⟨?_, hclosed, ?_, htask, hnext, fun _ h => loop?_cancel_of_ne c h phase⟩ <;>
    cases phase <;> rfl

/-- What holds of each single thing that is done in a turn of this loop, if events come and states
are entered only while the client is not closed. -/
structure Narrates (callbacks : Callbacks) (allowed : Command → Prop) (id : Nat)
    (P : Client → Client × List Emission → List Moment → Prop) : Prop
    extends Offering callbacks allowed P where
  emits : ∀ c emission, emission.isPlain = true → P c (c, [emission]) [.emitted emission]
  moves : ∀ {c c' : Client}, c.MovedTo id c' → P c (c', []) []
  enters : ∀ {c : Client}, c.closed = false → ∀ state, c.state ≠ state →
    P c ({ c with state := state }, [.notice (.stateChanged c.state state)])
      [.emitted (.notice (.stateChanged c.state state))]

namespace Narrates

variable {callbacks : Callbacks} {allowed : Command → Prop} {id : Nat}
  {P : Client → Client × List Emission → List Moment → Prop}

/-- Afterwards the loop may move on. -/
theorem onward (h : Narrates callbacks allowed id P) {c c' c'' : Client}
    {emissions : List Emission} {moments : List Moment} (htold : P c (c', emissions) moments)
    (hmoved : c'.MovedTo id c'') : P c (c'', emissions) moments := by
  have hboth := h.trans htold (h.moves hmoved)
  rwa [List.append_nil, List.append_nil] at hboth

theorem cancel (h : Narrates callbacks allowed id P) (c : Client) (phase : Phase) :
    P c (c.cancel id phase) ((c.cancel id phase).2.map .emitted) := by
  have hmoved := movedTo_cancel c id phase
  cases phase with
  | closing => exact h.onward (h.emits c .transportClosed rfl) hmoved
  | scheduled | opening | sleeping | receiving | handling => exact h.moves hmoved

section Turns

variable (h : Narrates callbacks allowed id P) (hgive : callbacks.Give allowed)
include h hgive

theorem enter {c : Client} (hopen : c.closed = false) (state : ConnectionState) :
    P c (c.enter callbacks state) (c.enterStory callbacks state) :=
  h.enterWith hgive (h.enters hopen state)

theorem attempt (c : Client) : P c (c.attempt callbacks id) (c.attemptStory callbacks) := by
  unfold Client.attempt attemptStory
  by_cases hclosed : c.closed = true
  · rw [if_pos hclosed, if_pos hclosed]
    exact h.moves (movedTo_endLoop c id)
  · rw [if_neg hclosed, if_neg hclosed]
    have hentered := h.enter hgive (by simpa using hclosed) .connecting
    exact h.onward (h.trans hentered (h.emits _ (.opening _) rfl)) (movedTo_setPhase _ id .opening)

theorem retry (c : Client) (failure : Failure) :
    P c (c.retry callbacks id failure) (c.retryStory callbacks failure) := by
  have hreport := h.emits c (.notice (.attemptFailed failure c.backoff.delay)) rfl
  unfold Client.retry retryStory
  dsimp only
  by_cases hclosed : c.closed = true
  · rw [if_pos hclosed, if_pos hclosed]
    exact h.onward hreport (movedTo_endLoop c id)
  · rw [if_neg hclosed, if_neg hclosed]
    have hgrown : c.MovedTo id { c with backoff := c.backoff.grow } :=
      ⟨rfl, rfl, rfl, rfl, rfl, fun _ _ => rfl⟩
    have hentered := h.trans (h.onward hreport hgrown)
      (h.enter hgive (by simpa using hclosed) .reconnecting)
    have hasleep (c' : Client) (delay : Binary64) : P c' (c'.setPhase id .sleeping,
        [.reconnectScheduled, .backoffShown delay, .sleeping delay]) [.emitted .reconnectScheduled,
          .emitted (.backoffShown delay), .emitted (.sleeping delay)] := by
      have hshown := h.trans (h.emits c' (.backoffShown delay) rfl)
        (h.emits c' (.sleeping delay) rfl)
      exact h.onward (h.trans (h.emits c' .reconnectScheduled rfl) hshown)
        (movedTo_setPhase c' id .sleeping)
    exact h.trans hentered (hasleep _ c.backoff.delay)

theorem shake {c : Client} (hopen : c.closed = false) :
    P c (c.shake callbacks) (c.shakeStory callbacks) := by
  have hreset : c.MovedTo id { c with backoff := c.backoff.reset } :=
    ⟨rfl, rfl, rfl, rfl, rfl, fun _ _ => rfl⟩
  have hshown := h.onward (h.emits c (.backoffShown c.backoff.reset.delay) rfl) hreset
  have hentered := h.trans hshown (h.enter hgive (by exact hopen) .connected)
  exact h.trans hentered (h.emits _ (.notice .connected) rfl)

theorem receive (c : Client) (frame : Frame) :
    P c (c.receive callbacks id frame) (c.receiveStory callbacks frame) := by
  by_cases hclosed : c.closed = true
  · rw [Client.receive, receiveStory, if_pos hclosed, if_pos hclosed]
    exact h.moves (movedTo_setPhase c id _)
  · have hopen : c.closed = false := by simpa using hclosed
    obtain ⟨lastEventId, hreceive, hstory⟩ := receive_noted callbacks hopen id frame
    have hnoted : P c ({ c with lastEventId := lastEventId }, []) [] :=
      h.moves ⟨rfl, rfl, rfl, rfl, rfl, fun _ _ => rfl⟩
    rw [hreceive, hstory]
    split
    · exact h.trans hnoted (h.shake hgive hopen)
    · exact h.trans hnoted (h.onward (h.dispatch hgive _ frame) (movedTo_settleHanding _ id _))

theorem afterClosing (c : Client) (outcome : Outcome) :
    P c (c.afterClosing callbacks id outcome) (c.afterClosingStory callbacks outcome) := by
  cases outcome with
  | cancelled => exact h.moves (movedTo_endLoop c id)
  | failed failure => exact h.retry hgive c failure
  | left =>
    unfold Client.afterClosing afterClosingStory
    dsimp only
    split
    · exact h.moves (movedTo_endLoop c id)
    · exact h.retry hgive c .closedByServer

/-- A handler that goes on belongs to the loop of a client that is not closed. -/
theorem signal {c : Client} (htidy : c.Tidy) (s : Signal) :
    P c (c.signal callbacks id s) (c.signalStory callbacks id s) := by
  unfold Client.signal signalStory
  have hstays : P c (c, []) [] := h.refl c
  cases hloop : c.loop? id with
  | none => exact hstays
  | some loop =>
    obtain ⟨phase, cancelling⟩ := loop
    dsimp only
    cases s with
    | cancelled =>
      cases cancelling with
      | true => exact h.cancel c phase
      | false => exact hstays
    | begun =>
      cases phase with
      | scheduled =>
        cases cancelling with
        | true => exact h.cancel c .scheduled
        | false => exact h.attempt hgive c
      | _ => exact hstays
    | opened =>
      cases phase with
      | opening => exact h.moves (movedTo_setPhase c id .receiving)
      | _ => exact hstays
    | openFailed failure =>
      cases phase with
      | opening => exact h.retry hgive c failure
      | _ => exact hstays
    | frame frame =>
      cases phase with
      | receiving => exact h.receive hgive c frame
      | _ => exact hstays
    | ended | broke =>
      cases phase with
      | receiving => exact h.moves (movedTo_setPhase c id _)
      | _ => exact hstays
    | resumed =>
      cases phase with
      | handling tag event current rest delivered =>
        cases cancelling with
        | true => exact h.cancel c (.handling tag event current rest delivered)
        | false =>
          have hopen : c.closed = false := htidy.isOpen hloop (by simp [Loop.Abandoned])
          exact h.onward (h.resumeOffer hgive hopen tag event current rest delivered)
            (movedTo_settleHanding _ id _)
      | _ => exact hstays
    | closed =>
      cases phase with
      | closing outcome =>
        exact h.trans (h.emits c .transportClosed rfl) (h.afterClosing hgive c outcome)
      | _ => exact hstays
    | woken =>
      cases phase with
      | sleeping =>
        cases cancelling with
        | true => exact h.cancel c .sleeping
        | false => exact h.attempt hgive c
      | _ => exact hstays

end Turns

end Narrates

section Runs

variable {allowed : Command → Prop} {P : Client → Client × List Emission → List Moment → Prop}

theorem narrates_take {turn : Turn} (h : ∀ id, Narrates turn.callbacks allowed id P)
    (hgives : turn.Gives allowed) {c : Client} (htidy : c.Tidy) :
    P c (c.take turn) (c.takeStory turn) := by
  obtain ⟨callbacks, act⟩ := turn
  cases act with
  | signal id s => exact (h id).signal hgives.callbacks htidy s
  | command command => exact (h 0).performWith c (hgives.act command rfl)

theorem narrates_run (h : ∀ callbacks id, Narrates callbacks allowed id P) {turns : List Turn}
    (hgives : ∀ turn ∈ turns, turn.Gives allowed) {c : Client} (htidy : c.Tidy) :
    P c (c.run turns) (c.story turns) := by
  induction turns generalizing c with
  | nil => exact (h .quiet 0).refl c
  | cons turn rest ih =>
    have hturn := narrates_take (h turn.callbacks) (hgives turn List.mem_cons_self) htidy
    have hrest := ih (fun later hlater => hgives later (List.mem_cons_of_mem _ hlater))
      (htidy.take turn)
    exact (h .quiet 0).trans hturn hrest

end Runs

/-! ## The name of the handshake -/

theorem lasting_connectedEvent_halt : Lasting halt haltStory (fun _ => True)
    fun c result _ => result.1.connectedEvent = c.connectedEvent where
  rewires h := (h.movedTo 0).connectedEvent
  trans h h' := h'.trans h
  report _ _ _ := rfl
  connect _ c := by
    unfold connect
    split <;> rfl
  leave _ c := by
    unfold halt
    dsimp only
    split <;> rfl

theorem narrates_connectedEvent (callbacks : Callbacks) (id : Nat) :
    Narrates callbacks (fun _ => True) id
      fun c result _ => result.1.connectedEvent = c.connectedEvent where
  toLasting := lasting_connectedEvent_halt.lift callbacks.give_any
    (lasting_connectedEvent_halt.leave trivial) fun _ _ _ => rfl
  offers _ _ _ := rfl
  invokes _ _ _ := rfl
  emits _ _ _ := rfl
  moves h := h.connectedEvent
  enters _ _ _ := rfl

theorem connectedEvent_run {c : Client} (htidy : c.Tidy) (turns : List Turn) :
    (c.run turns).1.connectedEvent = c.connectedEvent :=
  narrates_run narrates_connectedEvent (fun turn _ => turn.gives_any) htidy

/-! ## A story leaves nothing out -/

/-- The emissions of the story are those of what it is about. -/
def Recounts (_ : Client) (result : Client × List Emission) (moments : List Moment) : Prop :=
  emissionsIn moments = result.2

theorem lasting_recounts {leave : Client → Client × List Emission}
    {leaveStory : Client → List Moment} (hleave : ∀ c, Recounts c (leave c) (leaveStory c)) :
    Lasting leave leaveStory (fun _ => True) Recounts where
  rewires _ := rfl
  trans h h' := by rw [Recounts, emissionsIn_append, h, h']
  report _ _ _ := rfl
  connect _ c := emissionsIn_map_emitted c.connect.2
  leave _ := hleave

theorem recounts_halt (c : Client) : Recounts c c.halt c.haltStory := by
  change emissionsIn (c.halt.2.map .emitted ++ [.disconnectReturned]) = c.halt.2
  rw [emissionsIn_append, emissionsIn_map_emitted]
  exact List.append_nil _

theorem recounts_disconnect (callbacks : Callbacks) (c : Client) :
    Recounts c (c.disconnect callbacks) (c.disconnectStory callbacks) := by
  have hentered : Recounts c.halt.1 (enterWith halt callbacks .disconnected c.halt.1)
      (enterStoryWith halt haltStory callbacks .disconnected c.halt.1) :=
    (lasting_recounts recounts_halt).enterWith callbacks.give_any fun _ => rfl
  change emissionsIn (c.halt.2.map .emitted ++
    enterStoryWith halt haltStory callbacks .disconnected c.halt.1 ++ [.disconnectReturned]) =
      c.halt.2 ++ (enterWith halt callbacks .disconnected c.halt.1).2
  rw [emissionsIn_append, emissionsIn_append, emissionsIn_map_emitted, hentered]
  exact List.append_nil _

theorem narrates_recounts (callbacks : Callbacks) (id : Nat) :
    Narrates callbacks (fun _ => True) id Recounts where
  toLasting := lasting_recounts (recounts_disconnect callbacks)
  offers _ _ _ := rfl
  invokes _ _ _ := rfl
  emits _ _ _ := rfl
  moves _ := rfl
  enters _ _ _ := rfl

theorem emissionsIn_story {c : Client} (htidy : c.Tidy) (turns : List Turn) :
    emissionsIn (c.story turns) = (c.run turns).2 :=
  narrates_run narrates_recounts (fun turn _ => turn.gives_any) htidy

end Client

end LineWatch
