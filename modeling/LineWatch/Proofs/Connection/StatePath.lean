import LineWatch.Proofs.Connection.Round
import LineWatch.Proofs.Connection.States

/-!
# The path of the states

The state of a client that is not closed goes with what its loop waits for, and only a handshake
that this loop receives leads to `connected`. A client that is closed is `disconnected`, whatever
its loops still do. Loops that a client has forgotten do not touch its state after it has been
connected again either, provided that their transports swallow no cancellation.
-/

namespace LineWatch

/-- The states that go with what the loop of a client waits for. -/
def Phase.Suits : Phase → ConnectionState → Prop
  | .scheduled, state => state = .disconnected
  | .opening, state => state = .connecting
  | .receiving, state | .handling .., state => state = .connecting ∨ state = .connected
  | .closing outcome, state => outcome ≠ .cancelled ∧ (state = .connecting ∨ state = .connected)
  | .sleeping, state => state = .reconnecting

namespace Client

/-- No transport swallows a cancellation in this turn, unless the client is closed. A loop that is
asked to end while it runs may get on as far as that. -/
def heeds (c : Client) : Act → Bool
  | .signal id s => c.closed || !(c.loop? id).any fun l => l.cancelling && l.phase.swallows s
  | .command _ => true

def orderly (c : Client) : List Turn → Bool
  | [] => true
  | turn :: rest => c.heeds turn.act && (c.take turn).1.orderly rest

/-- The state goes with the connection. -/
structure OnPath (c : Client) : Prop where
  settled : c.closed = true → c.state = .disconnected
  going : c.closed = false → ∃ id phase, c.Running id phase ∧ phase.Suits c.state

/-- The loop of the client receives a handshake. -/
def Shakes (c : Client) (act : Act) : Prop :=
  ∃ id frame, act = .signal id (.frame frame) ∧ frame.event = c.connectedEvent ∧
    c.task = some id ∧ c.loop? id = some { phase := .receiving }

/-- In the turn the state keeps to the machine, and a handshake is the only way to `connected`. -/
structure Follows (c : Client) (act : Act) (result : Client × List Emission) : Prop where
  path : IsPath c.state (stateChanges result.2) result.1.state
  connects : ∀ previous, (previous, .connected) ∈ stateChanges result.2 →
    previous = .connecting ∧ c.Shakes act
  onPath : OnPath result.1

theorem Follows.quiet {c : Client} {act : Act} {result : Client × List Emission}
    (hstate : result.1.state = c.state) (hchanges : stateChanges result.2 = [])
    (honPath : OnPath result.1) : Follows c act result := by
  refine ⟨?_, by simp [hchanges], honPath⟩
  rw [hchanges]
  exact hstate.symm

/-- Emissions that say nothing of the state make no difference. -/
theorem Follows.emit {c c' : Client} {act : Act} {emissions emissions' : List Emission}
    (h : Follows c act (c', emissions)) (hsame : stateChanges emissions' = stateChanges emissions) :
    Follows c act (c', emissions') :=
  ⟨hsame ▸ h.path, hsame ▸ h.connects, h.onPath⟩

/-! ## Clients that are closed -/

/-- The client stays closed, and in the state `disconnected`. -/
def StaysClosed (c : Client) (result : Client × List Emission) : Prop :=
  c.closed = true → c.state = .disconnected →
    result.1.closed = true ∧ result.1.state = .disconnected ∧ stateChanges result.2 = []

theorem StaysClosed.trans {c c' c'' : Client} {first later : List Emission}
    (h : StaysClosed c (c', first)) (h' : StaysClosed c' (c'', later)) :
    StaysClosed c (c'', first ++ later) := by
  intro hclosed hstate
  obtain ⟨hclosed', hstate', hfirst⟩ := h hclosed hstate
  obtain ⟨hend, hlast, hlater⟩ := h' hclosed' hstate'
  refine ⟨hend, hlast, ?_⟩
  rw [stateChanges_append, hfirst, hlater]
  rfl

theorem staysClosed_emissions (c : Client) {emissions : List Emission}
    (h : stateChanges emissions = []) : StaysClosed c (c, emissions) :=
  fun hclosed hstate => ⟨hclosed, hstate, h⟩

theorem MovedTo.staysClosed {c c' : Client} {id : Nat} (h : c.MovedTo id c') :
    StaysClosed c (c', []) := fun hclosed hstate =>
  ⟨h.closed.trans hclosed, h.state.trans hstate, rfl⟩

theorem staysClosed_halt (c : Client) : StaysClosed c c.halt := fun _ hstate =>
  ⟨closed_halt c, (state_halt c).trans hstate, stateChanges_of_isPlain (isPlain_halt c)⟩

theorem lasting_staysClosed_halt :
    Lasting halt haltStory (· ≠ .connect) fun c result _ => StaysClosed c result where
  rewires h := (h.movedTo 0).staysClosed
  trans := .trans
  report c _ hreport := staysClosed_emissions c
    (stateChanges_singleton (Emission.isPlain_of_isReport hreport))
  connect hconnect := absurd rfl hconnect
  leave _ := staysClosed_halt

/-- Nothing but `connect` opens a client again. -/
theorem narrates_staysClosed {callbacks : Callbacks} (hgive : callbacks.Give (· ≠ .connect))
    (id : Nat) :
    Narrates callbacks (· ≠ .connect) id fun c result _ => StaysClosed c result where
  toLasting := lasting_staysClosed_halt.lift hgive staysClosed_halt
    fun _ _ hstate _ hsame => absurd hsame hstate
  offers {c} _ _ _ := staysClosed_emissions c rfl
  invokes {c} _ _ _ := staysClosed_emissions c rfl
  emits c _ hplain := staysClosed_emissions c (stateChanges_singleton hplain)
  moves h := h.staysClosed
  enters hopen _ _ hclosed := by simp [hopen] at hclosed

theorem StaysClosed.follows {c : Client} {act : Act} {result : Client × List Emission}
    (h : StaysClosed c result) (hclosed : c.closed = true) (hstate : c.state = .disconnected) :
    Follows c act result := by
  obtain ⟨hend, hlast, hchanges⟩ := h hclosed hstate
  exact .quiet (hlast.trans hstate.symm) hchanges ⟨fun _ => hlast, by simp [hend]⟩

/-! ## Loops that the client has forgotten -/

section Forgotten

variable {c : Client} {own id : Nat} {phase : Phase}

/-- A forgotten loop whose cancellation comes through does not touch the client. -/
theorem forgotten_signal (callbacks : Callbacks) (htidy : c.Tidy) (htask : c.task ≠ some id)
    (hopen : c.closed = false) {s : Signal} (hheeds : c.heeds (.signal id s) = true) :
    c.MovedTo id (c.signal callbacks id s).1 ∧
      stateChanges (c.signal callbacks id s).2 = [] := by
  have hstays : c.MovedTo id c ∧ stateChanges [] = [] := ⟨.refl c id, rfl⟩
  cases hloop : c.loop? id with
  | none =>
    unfold signal
    rw [hloop]
    exact hstays
  | some l =>
    have habandoned := htidy.abandoned hloop htask
    obtain ⟨phase, cancelling⟩ := l
    cases cancelling with
    | true =>
      have hswallows : phase.swallows s = false := by simpa [heeds, hopen, hloop] using hheeds
      rcases signal_cancelling callbacks hloop hswallows with hcancel | hsame
      · rw [hcancel]
        refine ⟨movedTo_cancel c id phase, ?_⟩
        cases phase <;> rfl
      · rw [hsame]
        exact hstays
    | false =>
      obtain rfl : phase = .closing .cancelled := by simpa [Loop.Abandoned] using habandoned
      unfold signal
      rw [hloop]
      cases s with
      | closed => exact ⟨movedTo_endLoop c id, rfl⟩
      | _ => exact hstays

theorem follows_forgotten (callbacks : Callbacks) (htidy : c.Tidy) (hrun : c.Running own phase)
    (hsuits : phase.Suits c.state) (hid : id ≠ own) {s : Signal}
    (hheeds : c.heeds (.signal id s) = true) :
    Follows c (.signal id s) (c.signal callbacks id s) := by
  have htask : c.task ≠ some id := by
    rw [hrun.task]
    exact fun hsame => hid (Option.some.inj hsame).symm
  obtain ⟨hmoved, hchanges⟩ := forgotten_signal callbacks htidy htask hrun.closed hheeds
  have hopen := hmoved.closed.trans hrun.closed
  refine .quiet hmoved.state hchanges ⟨by simp [hopen], fun _ => ⟨own, phase, ?_, ?_⟩⟩
  · exact ⟨hopen, hmoved.task.trans hrun.task, (hmoved.loop? own hid.symm).trans hrun.loop?⟩
  · rwa [hmoved.state]

end Forgotten

/-! ## The loop of the client -/

section Own

variable {callbacks : Callbacks} {c : Client} {id : Nat} {phase : Phase}

theorem suits_offerAll {state : ConnectionState} (hstate : state = .connecting ∨ state = .connected)
    (tag : String) (event : StreamEvent) (delivered : Bool) (c : Client)
    (handlers : List Handler) :
    (offerAll callbacks tag event delivered c handlers).2.2.phase.Suits state := by
  induction handlers generalizing c delivered with
  | nil => exact hstate
  | cons handler rest ih =>
    unfold offerAll
    split
    · exact hstate
    · split
      · exact hstate
      · exact ih _ _

theorem suits_dispatch {state : ConnectionState} (hstate : state = .connecting ∨ state = .connected)
    (c : Client) (frame : Frame) :
    (c.dispatch callbacks frame).2.2.phase.Suits state := by
  unfold dispatch
  split
  · exact hstate
  · exact ⟨by simp, hstate⟩
  · exact suits_offerAll hstate ..

/-- The client comes into a state that goes with what its loop waits for then. -/
theorem Enters.follows {state : ConnectionState} {act : Act} {c' c'' : Client}
    {emissions : List Emission} {phase' : Phase} (h : c.Enters state (c', emissions))
    (hmoved : c'.MovedTo id c'') (hrun : c'.closed = false → c''.Running id phase')
    (hsuits : phase'.Suits state)
    (hconnects : state = .connected → c.state ≠ .connected →
      c.state = .connecting ∧ c.Shakes act) :
    Follows c act (c'', emissions) := by
  have hopen (hclosed : c''.closed = false) : c'.closed = false :=
    hmoved.closed.symm.trans hclosed
  refine ⟨?_, ?_, ?_, ?_⟩
  · change IsPath c.state (stateChanges emissions) c''.state
    rw [hmoved.state]
    exact h.path
  · intro previous hchange
    rcases h.targets _ hchange with hleft | ⟨hentered, hother⟩
    · cases hleft
    · obtain ⟨rfl, rfl⟩ := Prod.mk.inj hentered
      exact hconnects rfl hother
  · intro hclosed
    exact hmoved.state.trans (h.settled (hmoved.closed.symm.trans hclosed))
  · intro hclosed
    refine ⟨id, phase', hrun (hopen hclosed), ?_⟩
    change phase'.Suits c''.state
    rwa [hmoved.state, (h.link (hopen hclosed)).2]

/-- Then the loop goes on to wait for something. -/
theorem Enters.follows_to {state : ConnectionState} {s : Signal} {c' : Client}
    {emissions : List Emission} (h : c.Enters state (c', emissions)) (hrun : c.Running id phase)
    (phase' : Phase) (hsuits : phase'.Suits state)
    (hstate : state = .connected → c.state = .connected) :
    Follows c (.signal id s) (c'.setPhase id phase', emissions) :=
  h.follows (movedTo_setPhase c' id phase')
    (fun hopen => (hrun.of_sameLink (h.link hopen).1).setPhase phase') hsuits
    fun hconnected hother => absurd (hstate hconnected) hother

/-- What callbacks bring about while the loop waits. -/
theorem Winds.follows {act : Act} {result : Client × List Emission} (h : Winds c result)
    (hrun : c.Running id phase) (hsuits : phase.Suits c.state) : Follows c act result := by
  have hentered := h.enters hrun.closed
  exact hentered.follows (.refl result.1 id)
    (fun hopen => hrun.of_sameLink (hentered.link hopen).1) hsuits
    fun hconnected hother => absurd hconnected hother

/-- The loop goes on to wait for something, and nothing else happens. -/
theorem Running.follows_to (hrun : c.Running id phase) (s : Signal) {phase' : Phase}
    (hsuits : phase'.Suits c.state) : Follows c (.signal id s) (c.setPhase id phase', []) :=
  ((winds_emissions c rfl).enters hrun.closed).follows_to hrun phase' hsuits fun h => h

section Turns

variable (hgive : callbacks.Give (· ≠ .connect))
include hgive

theorem follows_attempt (hrun : c.Running id phase) (hnext : c.state.leadsTo .connecting = true)
    (s : Signal) : Follows c (.signal id s) (c.attempt callbacks id) := by
  rw [attempt, if_neg (by simp [hrun.closed])]
  have hentered := enters_enter hgive hrun.closed fun _ => hnext
  exact (hentered.emit (by simp [stateChanges, Emission.stateChange?])).follows_to hrun .opening rfl
    (by simp)

theorem follows_retry (hrun : c.Running id phase)
    (hstate : c.state = .connecting ∨ c.state = .connected) (s : Signal) (failure : Failure) :
    Follows c (.signal id s) (c.retry callbacks id failure) := by
  have hnext : c.state.leadsTo .reconnecting = true := by
    rcases hstate with h | h <;> rw [h] <;> rfl
  have hgrown : SameLink c { c with backoff := c.backoff.grow } := ⟨rfl, rfl, rfl⟩
  have hentered := (enters_enter hgive (hgrown.closed.trans hrun.closed) fun _ => hnext).of_sameLink
    hgrown rfl
  rw [retry, if_neg (by simp [hrun.closed])]
  exact (hentered.emit (by simp [stateChanges, Emission.stateChange?])).follows_to hrun .sleeping
    rfl (by simp)

theorem enters_shake (hopen : c.closed = false)
    (hstate : c.state = .connecting ∨ c.state = .connected) :
    c.Enters .connected (c.shake callbacks) := by
  have hnext (hother : c.state ≠ .connected) : c.state.leadsTo .connected = true := by
    rw [hstate.resolve_right hother]
    rfl
  have hreset : SameLink c { c with backoff := c.backoff.reset } := ⟨rfl, rfl, rfl⟩
  have hentered := enters_enter hgive (hreset.closed.trans hopen) hnext
  exact (hentered.of_sameLink hreset rfl).emit (by simp [stateChanges, Emission.stateChange?])

theorem follows_receive (hrun : c.Running id .receiving)
    (hstate : c.state = .connecting ∨ c.state = .connected) (frame : Frame) :
    Follows c (.signal id (.frame frame)) (c.receive callbacks id frame) := by
  obtain ⟨lastEventId, hreceive, -⟩ := receive_noted callbacks hrun.closed id frame
  have hnoted : SameLink c { c with lastEventId := lastEventId } := ⟨rfl, rfl, rfl⟩
  rw [hreceive]
  split
  · next hframe =>
    have hentered := (enters_shake hgive (hnoted.closed.trans hrun.closed) hstate).of_sameLink
      hnoted rfl
    refine hentered.follows (.refl _ id) (fun hopen => hrun.of_sameLink (hentered.link hopen).1)
      (.inr rfl) fun _ hother => ⟨hstate.resolve_right hother, ?_⟩
    exact ⟨id, frame, rfl, hframe, hrun.task, hrun.loop?⟩
  · have hwinds := (offering_winds hgive).dispatch hgive { c with lastEventId := lastEventId } frame
    have hentered := (hwinds.enters (hnoted.closed.trans hrun.closed)).of_sameLink hnoted rfl
    rw [settleHanding_phase]
    exact hentered.follows_to hrun _ (suits_dispatch hstate _ frame) fun h => h

theorem follows_resumed {tag : String} {event : StreamEvent} {current : Handler}
    {rest : List Handler} {delivered : Bool}
    (hrun : c.Running id (.handling tag event current rest delivered))
    (hstate : c.state = .connecting ∨ c.state = .connected) :
    let result := c.resumeOffer callbacks tag event current rest delivered
    Follows c (.signal id .resumed) (result.1.settleHanding id result.2.2, result.2.1) := by
  intro result
  have hwinds : Winds c (result.1, result.2.1) :=
    (offering_winds hgive).resumeOffer hgive hrun.closed tag event current rest delivered
  have hsuits : result.2.2.phase.Suits c.state := suits_offerAll hstate ..
  rw [settleHanding_phase]
  exact (hwinds.enters hrun.closed).follows_to hrun _ hsuits fun h => h

theorem follows_own (hrun : c.Running id phase) (hsuits : phase.Suits c.state) (s : Signal) :
    Follows c (.signal id s) (c.signal callbacks id s) := by
  have hstays : Follows c (.signal id s) (c, []) := (winds_emissions c rfl).follows hrun hsuits
  unfold signal
  rw [hrun.loop?]
  cases phase with
  | scheduled =>
    have hnext : c.state.leadsTo .connecting = true := by
      rw [show c.state = .disconnected from hsuits]
      rfl
    cases s with
    | begun => exact follows_attempt hgive hrun hnext _
    | _ => exact hstays
  | opening =>
    have hstate : c.state = .connecting ∨ c.state = .connected := .inl hsuits
    cases s with
    | opened => exact hrun.follows_to _ hstate
    | openFailed failure => exact follows_retry hgive hrun hstate _ failure
    | _ => exact hstays
  | receiving =>
    cases s with
    | frame frame => exact follows_receive hgive hrun hsuits frame
    | ended | broke => exact hrun.follows_to _ ⟨by simp, hsuits⟩
    | _ => exact hstays
  | handling =>
    cases s with
    | resumed => exact follows_resumed hgive hrun hsuits
    | _ => exact hstays
  | closing outcome =>
    obtain ⟨hgoing, hstate⟩ : outcome ≠ .cancelled ∧ _ := hsuits
    cases s with
    | closed =>
      cases outcome with
      | cancelled => exact absurd rfl hgoing
      | left =>
        have hopen : ¬c.closed = true := by simp [hrun.closed]
        simp only [afterClosing, if_neg hopen]
        exact (follows_retry hgive hrun hstate _ .closedByServer).emit rfl
      | failed failure => exact (follows_retry hgive hrun hstate _ failure).emit rfl
    | _ => exact hstays
  | sleeping =>
    have hnext : c.state.leadsTo .connecting = true := by
      rw [show c.state = .reconnecting from hsuits]
      rfl
    cases s with
    | woken => exact follows_attempt hgive hrun hnext _
    | _ => exact hstays

end Turns

end Own

/-! ## Turns and runs -/

section Runs

variable {c : Client}

theorem onPath_fresh (connectedEvent : String) (backoff : Backoff) :
    OnPath (fresh connectedEvent backoff) := ⟨fun _ => rfl, nofun⟩

theorem OnPath.follows_connect (h : OnPath c) (htidy : c.Tidy) :
    Follows c (.command .connect) c.connect := by
  refine .quiet (state_connect c) (stateChanges_of_isPlain (isPlain_connect c)) ?_
  cases hactive : c.activeLoop? with
  | some own =>
    rw [connect, hactive]
    exact h
  | none =>
    have hrun := running_connect htidy hactive
    -- A client that is not closed has a loop already, and keeps it.
    have hclosed : c.closed = true := by
      refine Bool.of_not_eq_false fun hopen => ?_
      obtain ⟨own, phase, hgoing, -⟩ := h.going hopen
      simpa [hactive] using hgoing.active
    refine ⟨by simp [hrun.closed], fun _ => ⟨_, _, hrun, ?_⟩⟩
    exact (state_connect c).trans (h.settled hclosed)

/-- A turn that swallows no cancellation keeps to the machine. -/
theorem OnPath.take (h : OnPath c) (htidy : c.Tidy) {turn : Turn}
    (hgive : turn.callbacks.Give (· ≠ .connect)) (hheeds : c.heeds turn.act = true) :
    Follows c turn.act (c.take turn) := by
  obtain ⟨callbacks, act⟩ := turn
  cases act with
  | signal id s =>
    cases hclosed : c.closed with
    | true =>
      have hstays : StaysClosed c (c.signal callbacks id s) :=
        (narrates_staysClosed hgive id).signal hgive htidy s
      exact hstays.follows hclosed (h.settled hclosed)
    | false =>
      obtain ⟨own, phase, hrun, hsuits⟩ := h.going hclosed
      by_cases hid : id = own
      · exact hid ▸ follows_own hgive hrun hsuits s
      · exact follows_forgotten callbacks htidy hrun hsuits hid hheeds
  | command command =>
    by_cases hconnect : command = .connect
    · rw [hconnect]
      exact h.follows_connect htidy
    · cases hclosed : c.closed with
      | true =>
        have hstays : StaysClosed c (c.perform callbacks command) :=
          (narrates_staysClosed hgive 0).performWith c hconnect
        exact hstays.follows hclosed (h.settled hclosed)
      | false =>
        obtain ⟨own, phase, hrun, hsuits⟩ := h.going hclosed
        have hwinds : Winds c (c.perform callbacks command) :=
          (offering_winds hgive).performWith c hconnect
        exact hwinds.follows hrun hsuits

/-- What each turn of a run keeps to. -/
theorem OnPath.take_at (h : OnPath c) (htidy : c.Tidy) {earlier later : List Turn}
    {turn : Turn}
    (hgive : ∀ turn' ∈ earlier ++ turn :: later, turn'.callbacks.Give (· ≠ .connect))
    (horderly : c.orderly (earlier ++ turn :: later) = true) :
    Follows (c.run earlier).1 turn.act ((c.run earlier).1.take turn) := by
  induction earlier generalizing c with
  | nil =>
    have hheeds : c.heeds turn.act = true := (Bool.and_eq_true_iff.mp horderly).1
    exact h.take htidy (hgive turn List.mem_cons_self) hheeds
  | cons first rest ih =>
    obtain ⟨hheeds, hrest⟩ := Bool.and_eq_true_iff.mp horderly
    have hfirst := h.take htidy (hgive first List.mem_cons_self) hheeds
    exact ih hfirst.onPath (htidy.take first)
      (fun turn' hturn' => hgive turn' (List.mem_cons_of_mem _ hturn')) hrest

theorem OnPath.run (h : OnPath c) (htidy : c.Tidy) {turns : List Turn}
    (hgive : ∀ turn ∈ turns, turn.callbacks.Give (· ≠ .connect))
    (horderly : c.orderly turns = true) :
    IsPath c.state (stateChanges (c.run turns).2) (c.run turns).1.state := by
  induction turns generalizing c with
  | nil => rfl
  | cons turn rest ih =>
    obtain ⟨hheeds, hrest⟩ := Bool.and_eq_true_iff.mp horderly
    have hfirst := h.take htidy (hgive turn List.mem_cons_self) hheeds
    have hlater := ih hfirst.onPath (htidy.take turn)
      (fun turn' hturn' => hgive turn' (List.mem_cons_of_mem _ hturn')) hrest
    change IsPath c.state (stateChanges ((c.take turn).2 ++ ((c.take turn).1.run rest).2)) _
    rw [stateChanges_append]
    exact hfirst.path.append hlater

end Runs

/-- However the attempts, the callbacks and the commands from outside come together: if the
transports swallow no cancellation, the states go along the machine, and the client is `connected`
only from `connecting`, by a handshake that its loop takes from its transport. -/
theorem states_follow_machine (connectedEvent : String) (backoff : Backoff) {turns : List Turn}
    (hgive : ∀ turn ∈ turns, turn.callbacks.Give (· ≠ .connect))
    (horderly : (fresh connectedEvent backoff).orderly turns = true) :
    let start := fresh connectedEvent backoff
    IsPath .disconnected (stateChanges (start.run turns).2) (start.run turns).1.state ∧
      ∀ earlier turn later, turns = earlier ++ turn :: later →
        let c := (start.run earlier).1
        ∀ previous, (previous, .connected) ∈ stateChanges (c.take turn).2 →
          previous = .connecting ∧ ∃ id frame, turn.act = .signal id (.frame frame) ∧
            frame.event = connectedEvent ∧ c.task = some id ∧
            c.loop? id = some { phase := .receiving } := by
  intro start
  have htidy : start.Tidy := tidy_fresh connectedEvent backoff
  have hstart : OnPath start := onPath_fresh connectedEvent backoff
  refine ⟨hstart.run htidy hgive horderly, ?_⟩
  rintro earlier turn later rfl c previous hchange
  have hfollows := hstart.take_at htidy hgive horderly
  obtain ⟨hprevious, id, frame, hact, hevent, htask, hloop⟩ := hfollows.connects previous hchange
  exact ⟨hprevious, id, frame, hact, hevent.trans (connectedEvent_run htidy earlier), htask, hloop⟩

/-- Somebody disconnects and connects again at once. The new loop begins before the transport of the
old one has been closed. -/
def interrupted : List Act := [
  .command (.listen (.named "impatient" false)), .command .connect, .signal 0 .begun,
  .signal 0 .opened, .signal 0 (.frame { event := "connected" }), .command .disconnect,
  .command .connect, .signal 0 .cancelled, .signal 1 .begun, .signal 0 .closed,
  .signal 1 (.openFailed (.transport "refused")), .signal 1 .cancelled]

/-- Listeners disconnect instead of waiting for another attempt. -/
def impatient : Callbacks where
  react _ _ := {}
  hear _ state := .ok (if state = .reconnecting then [.disconnect] else [])

theorem impatient_give : impatient.Give (· ≠ .connect) where
  handlers handler event commands h := by
    obtain rfl : [] = commands := Except.ok.inj h
    simp
  listeners listener state commands h := by
    obtain rfl : (if state = .reconnecting then [.disconnect] else []) = commands :=
      Except.ok.inj h
    split <;> simp

theorem states_when_interrupted :
    let turns := interrupted.map (⟨impatient, ·⟩)
    let changes := stateChanges ((fresh "connected" doubling).run turns).2
    changes = [(.disconnected, .connecting), (.connecting, .connected),
      (.connected, .disconnected), (.disconnected, .connecting), (.connecting, .reconnecting),
      (.reconnecting, .disconnected)] ∧
      IsPath .disconnected changes .disconnected := by
  intro turns changes
  have hgive : ∀ turn ∈ turns, turn.callbacks.Give (· ≠ .connect) := by
    intro turn hturn
    obtain ⟨act, -, rfl⟩ := List.mem_map.mp hturn
    exact impatient_give
  have hpath := (states_follow_machine "connected" doubling hgive (by decide +kernel)).1
  have hend : ((fresh "connected" doubling).run turns).1.state = .disconnected := by
    decide +kernel
  exact ⟨by decide +kernel, hend ▸ hpath⟩

end Client

end LineWatch
