import LineWatch.Proofs.Connection.Diary
import LineWatch.Proofs.Connection.Abandoned

/-!
# What a turn does with an event

In a turn a loop goes on with the event that it has in hand, or with that of a frame that it takes.
Whatever handlers and listeners do, even if they disconnect the client, the event gets to some of
the handlers still to come, in their order, and its watermark moves if none of them is left out and
one has accepted. Without an event a turn offers nothing and moves no watermark.
-/

namespace LineWatch

namespace Client

/-! ## What is no matter of events -/

/-- Nothing is offered, and no watermark moves. -/
structure Inert (c : Client) (result : Client × List Emission) : Prop where
  watermarks : result.1.watermarks = c.watermarks
  offers : offersIn result.2 = []

theorem Inert.refl (c : Client) : Inert c (c, []) := ⟨rfl, rfl⟩

theorem Inert.trans {c c' c'' : Client} {first later : List Emission} (h : Inert c (c', first))
    (h' : Inert c' (c'', later)) : Inert c (c'', first ++ later) where
  watermarks := h'.watermarks.trans h.watermarks
  offers := by rw [offersIn_append, h.offers, h'.offers, List.append_nil]

section Inert

variable {leave : Client → Client × List Emission}

theorem inert_connect (c : Client) : Inert c c.connect := by
  unfold connect
  split <;> exact ⟨rfl, rfl⟩

theorem inert_halt (c : Client) : Inert c c.halt := by
  unfold halt
  dsimp only
  split <;> exact ⟨rfl, rfl⟩

theorem watermarks_unsubscribe (c : Client) (name : String) :
    (c.unsubscribe name).watermarks = c.watermarks := by
  unfold unsubscribe
  split
  · rfl
  · split <;> rfl

theorem inert_performWith (hleave : ∀ c, Inert c (leave c)) (c : Client) (command : Command) :
    Inert c (performWith leave c command) := by
  cases command with
  | connect => exact inert_connect c
  | disconnect => exact hleave c
  | unsubscribe name => exact ⟨watermarks_unsubscribe c name, rfl⟩
  | subscribe | listen | unlisten => exact ⟨rfl, rfl⟩

theorem inert_performAllWith (hleave : ∀ c, Inert c (leave c)) (c : Client)
    (commands : List Command) : Inert c (performAllWith leave c commands) := by
  induction commands generalizing c with
  | nil => exact .refl c
  | cons command rest ih => exact (inert_performWith hleave c command).trans (ih _)

theorem inert_announceWith (hleave : ∀ c, Inert c (leave c)) (callbacks : Callbacks)
    (state : ConnectionState) (c : Client) (listeners : List Listener) :
    Inert c (announceWith leave callbacks state c listeners) := by
  induction listeners generalizing c with
  | nil => exact .refl c
  | cons l rest ih =>
    have htold : Inert c (c, [.told l state]) := ⟨rfl, rfl⟩
    simp only [announceWith]
    cases callbacks.hear l state with
    | error message =>
      have hfailed : Inert c (c, [.notice (.listenerFailed message)]) := ⟨rfl, rfl⟩
      exact (htold.trans hfailed).trans (ih c)
    | ok commands => exact (htold.trans (inert_performAllWith hleave c commands)).trans (ih _)

theorem inert_enterWith (hleave : ∀ c, Inert c (leave c)) (callbacks : Callbacks)
    (state : ConnectionState) (c : Client) : Inert c (enterWith leave callbacks state c) := by
  unfold enterWith
  split
  · exact .refl c
  · have hstate : Inert c ({ c with state := state },
        [.notice (.stateChanged c.state state)]) := ⟨rfl, rfl⟩
    exact hstate.trans (inert_announceWith hleave callbacks state _ c.listeners)

variable (callbacks : Callbacks) (c : Client) (id : Nat)

theorem inert_disconnect : Inert c (c.disconnect callbacks) :=
  (inert_halt c).trans (inert_enterWith inert_halt callbacks .disconnected c.halt.1)

theorem inert_perform (command : Command) : Inert c (c.perform callbacks command) :=
  inert_performWith (inert_disconnect callbacks) c command

theorem inert_enter (state : ConnectionState) : Inert c (c.enter callbacks state) :=
  inert_enterWith (inert_disconnect callbacks) callbacks state c

theorem inert_cancel (phase : Phase) : Inert c (c.cancel id phase) := by
  cases phase <;> exact ⟨rfl, rfl⟩

theorem inert_attempt : Inert c (c.attempt callbacks id) := by
  unfold attempt
  split
  · exact ⟨rfl, rfl⟩
  · have hopening (c' : Client) (header : Option String) :
        Inert c' (c'.setPhase id .opening, [.opening header]) := ⟨rfl, rfl⟩
    exact (inert_enter callbacks c .connecting).trans (hopening _ _)

theorem inert_retry (failure : Failure) : Inert c (c.retry callbacks id failure) := by
  unfold retry
  dsimp only
  split
  · exact ⟨rfl, rfl⟩
  · have hreport : Inert c ({ c with backoff := c.backoff.grow },
        [.notice (.attemptFailed failure c.backoff.delay)]) := ⟨rfl, rfl⟩
    have hasleep (c' : Client) (delay : Binary64) : Inert c' (c'.setPhase id .sleeping,
        [.reconnectScheduled, .backoffShown delay, .sleeping delay]) := ⟨rfl, rfl⟩
    exact (hreport.trans (inert_enter callbacks _ .reconnecting)).trans (hasleep _ _)

theorem inert_shake : Inert c (c.shake callbacks) := by
  have hreset : Inert c ({ c with backoff := c.backoff.reset },
      [.backoffShown c.backoff.reset.delay]) := ⟨rfl, rfl⟩
  have hshaken (c' : Client) : Inert c' (c', [.notice .connected]) := ⟨rfl, rfl⟩
  exact (hreset.trans (inert_enter callbacks _ .connected)).trans (hshaken _)

end Inert

/-! ## A hand-out -/

/-- The event has got to `served`, and `left` are still to come or left out. -/
structure Serves (callbacks : Callbacks) (event : StreamEvent) (delivered : Bool) (c : Client)
    (served left : List Handler) (hand? : Option (StreamEvent × List Handler × Bool))
    (result : Client × List Emission) : Prop where
  offers : offersIn result.2 = served.map (·, event)
  watermarks : result.1.watermarks =
    c.marksAfter event (delivered || served.any (callbacks.accepts event)) left
  hand : hand? = none ∨ left ≠ [] ∧
    hand? = some (event, left, delivered || served.any (callbacks.accepts event))

section HandOut

variable {callbacks : Callbacks} {event : StreamEvent} {delivered : Bool} {c c' : Client}
  {served left : List Handler} {hand? : Option (StreamEvent × List Handler × Bool)}

theorem exists_offer (callbacks : Callbacks) (tag : String) (event : StreamEvent) (c : Client)
    (handler : Handler) :
    ∃ c' emissions, offer callbacks tag event c handler =
        (c', .offered handler event :: emissions, callbacks.accepts event handler) ∧
      Inert c (c', emissions) := by
  unfold offer Callbacks.accepts
  cases (callbacks.react handler event).outcome with
  | error message => exact ⟨c, _, rfl, rfl, rfl⟩
  | ok commands =>
    exact ⟨_, _, rfl, inert_performAllWith (inert_disconnect callbacks) c commands⟩

/-- One more handler before a hand-out. -/
theorem Serves.cons {handler : Handler} {emissions : List Emission}
    {result : Client × List Emission} (hoffer : Inert c (c', emissions))
    (h : Serves callbacks event (delivered || callbacks.accepts event handler) c' served left hand?
      result) :
    Serves callbacks event delivered c (handler :: served) left hand?
      (result.1, .offered handler event :: emissions ++ result.2) where
  offers := by
    have hfirst : offersIn (.offered handler event :: emissions) = [(handler, event)] :=
      congrArg ((handler, event) :: ·) hoffer.offers
    rw [offersIn_append, hfirst, h.offers]
    rfl
  watermarks := by
    have hsame : c'.watermarks = c.watermarks := hoffer.watermarks
    rw [h.watermarks, List.any_cons, Bool.or_assoc, marksAfter_congr hsame]
  hand := by simpa [Bool.or_assoc] using h.hand

/-- A hand-out that comes to a halt before these handlers. -/
theorem serves_nobody {handlers : List Handler} (hhandlers : handlers ≠ [])
    (hhand : hand? = none ∨ hand? = some (event, handlers, delivered))
    {result : Client × List Emission} (h : Inert c result) :
    Serves callbacks event delivered c [] handlers hand? result where
  offers := h.offers
  watermarks := by
    rw [h.watermarks, marksAfter, if_neg (by simp [hhandlers])]
  hand := by simpa [hhandlers] using hhand

/-- The hand-out of an event to handlers in turn, wherever it stops. -/
theorem exists_serves_offerAll (callbacks : Callbacks) (tag : String) (event : StreamEvent)
    (delivered : Bool) (c : Client) (handlers : List Handler) :
    ∃ served left, handlers = served ++ left ∧
      Serves callbacks event delivered c served left
        (offerAll callbacks tag event delivered c handlers).2.2.phase.inHand?
        ((offerAll callbacks tag event delivered c handlers).1,
          (offerAll callbacks tag event delivered c handlers).2.1) := by
  induction handlers generalizing delivered c with
  | nil =>
    refine ⟨[], [], rfl, rfl, ?_, .inl rfl⟩
    simp [offerAll, marksAfter]
  | cons handler rest ih =>
    unfold offerAll
    by_cases hclosed : c.closed = true
    · rw [if_pos hclosed]
      exact ⟨[], handler :: rest, rfl, serves_nobody (by simp) (.inl rfl) (.refl c)⟩
    rw [if_neg hclosed]
    by_cases hwait : (callbacks.react handler event).suspends = true
    · rw [if_pos hwait]
      exact ⟨[], handler :: rest, rfl, serves_nobody (by simp) (.inr rfl) (.refl c)⟩
    rw [if_neg hwait]
    obtain ⟨c', emissions, hoffer, hinert⟩ := exists_offer callbacks tag event c handler
    obtain ⟨served, left, hsplit, hrest⟩ := ih (delivered || callbacks.accepts event handler) c'
    refine ⟨handler :: served, left, by rw [hsplit]; rfl, ?_⟩
    rw [hoffer]
    exact hrest.cons hinert

theorem exists_serves_resumeOffer (callbacks : Callbacks) (tag : String) (event : StreamEvent)
    (delivered : Bool) (c : Client) (current : Handler) (rest : List Handler) :
    ∃ served left, current :: rest = served ++ left ∧
      Serves callbacks event delivered c served left
        (resumeOffer callbacks tag event current rest delivered c).2.2.phase.inHand?
        ((resumeOffer callbacks tag event current rest delivered c).1,
          (resumeOffer callbacks tag event current rest delivered c).2.1) := by
  obtain ⟨c', emissions, hoffer, hinert⟩ := exists_offer callbacks tag event c current
  obtain ⟨served, left, hsplit, hrest⟩ := exists_serves_offerAll callbacks tag event
    (delivered || callbacks.accepts event current) c' rest
  refine ⟨current :: served, left, by rw [hsplit]; rfl, ?_⟩
  rw [resumeOffer, hoffer]
  exact hrest.cons hinert

end HandOut

/-! ## A turn -/

/-- The event that a loop has in hand, the handlers still to come, and whether one of the others has
accepted it. -/
def handOf? (c : Client) (id : Nat) : Option (StreamEvent × List Handler × Bool) :=
  (c.loop? id).bind (·.phase.inHand?)

def Sorted.inHand? : Sorted → Option (StreamEvent × List Handler × Bool)
  | .event brought handlers => some (brought, handlers, false)
  | _ => none

/-- What a signal finds in hand: the event of the frame that it brings, or the one that the loop is
handing out. -/
def carried? (c : Client) (id : Nat) (s : Signal) : Option (StreamEvent × List Handler × Bool) :=
  match c.takenFrame? (.signal id s) with
  | some frame => if frame.event = c.connectedEvent then none else (c.sort frame).inHand?
  | none => c.handOf? id

/-- Events have no part in it, and afterwards the loop has none in hand. -/
structure Idles (c : Client) (id : Nat) (result : Client × List Emission) : Prop
    extends Inert c result where
  hand : result.1.handOf? id = none

/-- The outcome of a signal, by what it finds in hand. -/
inductive Carries (callbacks : Callbacks) (c : Client) (id : Nat)
    (result : Client × List Emission) : Option (StreamEvent × List Handler × Bool) → Prop where
  | nothing (idles : Idles c id result) : Carries callbacks c id result none
  | event {event : StreamEvent} {delivered : Bool} (served left : List Handler)
      (serves : Serves callbacks event delivered c served left (result.1.handOf? id) result) :
      Carries callbacks c id result (some (event, served ++ left, delivered))

section Turn

variable (callbacks : Callbacks) (c : Client) (id : Nat)

theorem handOf?_setPhase (phase : Phase) :
    (c.setPhase id phase).handOf? id = none ∨
      (c.setPhase id phase).handOf? id = phase.inHand? := by
  rw [handOf?, loop?_setPhase]
  cases c.loop? id with
  | none => exact .inl rfl
  | some l => exact .inr rfl

theorem handOf?_endLoop : (c.endLoop id).handOf? id = none := by
  rw [handOf?, loop?_endLoop]
  rfl

theorem handOf?_setPhase_of_none {phase : Phase} (h : phase.inHand? = none) :
    (c.setPhase id phase).handOf? id = none := by
  rcases handOf?_setPhase c id phase with hnone | hsame
  · exact hnone
  · exact hsame.trans h

theorem idles_setPhase {phase : Phase} (h : phase.inHand? = none) :
    Idles c id (c.setPhase id phase, []) :=
  ⟨⟨rfl, rfl⟩, handOf?_setPhase_of_none c id h⟩

theorem idles_attempt : Idles c id (c.attempt callbacks id) := by
  refine ⟨inert_attempt callbacks c id, ?_⟩
  unfold attempt
  split
  · exact handOf?_endLoop c id
  · exact handOf?_setPhase_of_none _ id rfl

theorem idles_retry (failure : Failure) : Idles c id (c.retry callbacks id failure) := by
  refine ⟨inert_retry callbacks c id failure, ?_⟩
  unfold retry
  dsimp only
  split
  · exact handOf?_endLoop c id
  · exact handOf?_setPhase_of_none _ id rfl

theorem idles_afterClosing (outcome : Outcome) :
    Idles c id (c.afterClosing callbacks id outcome) := by
  cases outcome with
  | cancelled => exact ⟨⟨rfl, rfl⟩, handOf?_endLoop c id⟩
  | failed failure => exact idles_retry callbacks c id failure
  | left =>
    unfold afterClosing
    dsimp only
    split
    · exact ⟨⟨rfl, rfl⟩, handOf?_endLoop c id⟩
    · exact idles_retry callbacks c id .closedByServer

theorem idles_cancel (phase : Phase) : Idles c id (c.cancel id phase) := by
  have hinert := inert_cancel c id phase
  cases phase with
  | scheduled | opening | sleeping | closing => exact ⟨hinert, handOf?_endLoop _ id⟩
  | receiving | handling => exact ⟨hinert, handOf?_setPhase_of_none _ id rfl⟩

variable {c id}

/-- Without a frame and without an event in hand. -/
theorem idles_signal {s : Signal} (hframe : c.takenFrame? (.signal id s) = none)
    (hhand : c.handOf? id = none) : Idles c id (c.signal callbacks id s) := by
  have hanswers := answers_signal callbacks hframe
  generalize c.signal callbacks id s = result at hanswers ⊢
  cases hanswers with
  | waits => exact ⟨.refl c, hhand⟩
  | cancels => exact idles_cancel c id _
  | begins => exact idles_attempt callbacks c id
  | moves hphase => exact idles_setPhase c id hphase
  | fails failure => exact idles_retry callbacks c id failure
  | resumes hloop => simp [handOf?, hloop, Phase.inHand?] at hhand
  | closes outcome =>
    have hafter := idles_afterClosing callbacks c id outcome
    exact ⟨⟨hafter.watermarks, hafter.offers⟩, hafter.hand⟩

theorem Serves.setPhase {event : StreamEvent} {delivered : Bool} {c' : Client}
    {served left : List Handler} {emissions : List Emission} {phase : Phase}
    (h : Serves callbacks event delivered c served left phase.inHand? (c', emissions)) (id : Nat) :
    Serves callbacks event delivered c served left ((c'.setPhase id phase).handOf? id)
      (c'.setPhase id phase, emissions) where
  offers := h.offers
  watermarks := h.watermarks
  hand := by
    rcases handOf?_setPhase c' id phase with hnone | hsame
    · exact .inl hnone
    · rw [hsame]
      exact h.hand

theorem watermarks_noted (c : Client) (frame : Frame) :
    (c.noted frame).watermarks = c.watermarks := by
  unfold noted
  cases frame.id <;> rfl

theorem sort_noted (c : Client) (frame : Frame) : (c.noted frame).sort frame = c.sort frame := by
  refine sort_congr (watermarks_noted c frame) ?_ frame
  unfold noted
  cases frame.id <;> rfl

theorem idles_handshake {l : Loop} (hloop : c.loop? id = some l) (hhand : l.phase.inHand? = none)
    (frame : Frame) : Idles c id ((c.noted frame).shake callbacks) := by
  have hinert := inert_shake callbacks (c.noted frame)
  refine ⟨⟨hinert.watermarks.trans (watermarks_noted c frame), hinert.offers⟩, ?_⟩
  have hnoted : (c.noted frame).loop? id = some l := by
    rw [← hloop, loop?, loop?, (sameLink_noted c frame).loops]
  obtain ⟨l', hl', hphase⟩ := (retains_shake callbacks (c.noted frame)).phase hnoted
  rw [handOf?, hl', Option.bind_some, hphase, hhand]

/-- A frame other than the handshake is handed out, or has no event to be handed out. -/
theorem carries_dispatch (frame : Frame) :
    Carries callbacks c id
      (((c.noted frame).dispatch callbacks frame).1.settleHanding id
          ((c.noted frame).dispatch callbacks frame).2.2,
        ((c.noted frame).dispatch callbacks frame).2.1)
      (c.sort frame).inHand? := by
  have hmarks := watermarks_noted c frame
  rw [settleHanding_phase]
  unfold dispatch
  rw [sort_noted]
  cases c.sort frame with
  | drop reason notices =>
    have hnone : offersIn (notices.map .notice) = [] := by
      simp [offersIn, Emission.offer?]
    exact .nothing ⟨⟨hmarks, hnone⟩, handOf?_setPhase_of_none _ id rfl⟩
  | unreadable => exact .nothing ⟨⟨hmarks, rfl⟩, handOf?_setPhase_of_none _ id rfl⟩
  | event event handlers =>
    obtain ⟨served, left, rfl, hserves⟩ :=
      exists_serves_offerAll callbacks frame.event event false (c.noted frame) handlers
    have hserves' := hserves.setPhase callbacks id
    refine .event served left ⟨hserves'.offers, ?_, hserves'.hand⟩
    rw [hserves'.watermarks, marksAfter_congr hmarks]

/-- A loop goes on with the event that it has in hand, leaves it where it is, or is cancelled. -/
theorem carries_handling {tag : String} {event : StreamEvent} {current : Handler}
    {rest : List Handler} {delivered cancelling : Bool}
    (hloop : c.loop? id = some ⟨.handling tag event current rest delivered, cancelling⟩)
    (s : Signal) :
    Carries callbacks c id (c.signal callbacks id s) (some (event, current :: rest, delivered)) := by
  have hhand : c.handOf? id = some (event, current :: rest, delivered) := by
    rw [handOf?, hloop]
    rfl
  have hwaits : Carries callbacks c id (c, []) (some (event, current :: rest, delivered)) :=
    .event [] (current :: rest) (serves_nobody (by simp) (.inr hhand) (.refl c))
  have hcancelled : Carries callbacks c id
      (c.cancel id (.handling tag event current rest delivered))
      (some (event, current :: rest, delivered)) := by
    have hidles := idles_cancel c id (.handling tag event current rest delivered)
    exact .event [] (current :: rest)
      (serves_nobody (by simp) (.inl hidles.hand) hidles.toInert)
  unfold Client.signal
  rw [hloop]
  cases s with
  | cancelled =>
    cases cancelling with
    | true => exact hcancelled
    | false => exact hwaits
  | resumed =>
    cases cancelling with
    | true => exact hcancelled
    | false =>
      obtain ⟨served, left, hsplit, hserves⟩ :=
        exists_serves_resumeOffer callbacks tag event delivered c current rest
      rw [hsplit]
      simp only [Bool.false_eq_true, if_false, settleHanding_phase]
      exact .event served left (hserves.setPhase callbacks id)
  | _ => exact hwaits

/-- What becomes of the event that a signal finds in hand. -/
theorem carries_signal (c : Client) (id : Nat) (s : Signal) :
    Carries callbacks c id (c.signal callbacks id s) (c.carried? id s) := by
  unfold carried?
  cases hframe : c.takenFrame? (.signal id s) with
  | some frame =>
    obtain ⟨-, hopen, l, hloop, hphase⟩ := takenFrame?_eq_some.mp hframe
    rw [signal_of_takenFrame? callbacks hframe, receive_of_open callbacks hopen]
    dsimp only
    split
    · exact .nothing (idles_handshake callbacks hloop (by rw [hphase]; rfl) frame)
    · exact carries_dispatch callbacks frame
  | none =>
    dsimp only
    cases hhand : c.handOf? id with
    | none => exact .nothing (idles_signal callbacks hframe hhand)
    | some hand =>
      obtain ⟨⟨phase, cancelling⟩, hloop, hphase⟩ := Option.bind_eq_some_iff.mp hhand
      cases phase with
      | handling tag event current rest delivered =>
        obtain rfl : (event, current :: rest, delivered) = hand := Option.some.inj hphase
        exact carries_handling callbacks hloop s
      | _ => cases hphase

theorem idles_of_carried? {s : Signal} (h : c.carried? id s = none) :
    Idles c id (c.signal callbacks id s) := by
  have hcarries := carries_signal callbacks c id s
  rw [h] at hcarries
  obtain ⟨hidles⟩ := hcarries
  exact hidles

theorem serves_of_carried? {s : Signal} {event : StreamEvent} {handlers : List Handler}
    {delivered : Bool} (h : c.carried? id s = some (event, handlers, delivered)) :
    ∃ served left, handlers = served ++ left ∧
      Serves callbacks event delivered c served left ((c.signal callbacks id s).1.handOf? id)
        (c.signal callbacks id s) := by
  have hcarries := carries_signal callbacks c id s
  rw [h] at hcarries
  obtain _ | ⟨served, left, hserves⟩ := hcarries
  exact ⟨served, left, rfl, hserves⟩

end Turn

end Client

end LineWatch
