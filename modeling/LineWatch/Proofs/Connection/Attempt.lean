import LineWatch.Proofs.Connection.Run

/-!
# The turns of a loop between events

As long as nobody disconnects, a loop goes from attempt to attempt and never ends. What it does
around the events themselves happens on the side: opening and closing transports, the handshake,
and the sleep before the next attempt.
-/

namespace LineWatch

namespace Client

variable {callbacks : Callbacks} {c : Client} {id : Nat} {phase : Phase}

theorem moves_attempt (hstay : callbacks.ListenersStay) (hrun : c.Running id phase) :
    Moves c id .opening [] c.watermarks (c.attempt callbacks id) := by
  rw [attempt, if_neg (by simp [hrun.closed])]
  have henter := aside_enter hstay .connecting hrun.active
  exact (henter.append rfl).moves_to hrun .opening

theorem moves_retry (hstay : callbacks.ListenersStay) (hrun : c.Running id phase)
    (failure : Failure) :
    Moves c id .sleeping [] c.watermarks (c.retry callbacks id failure) := by
  rw [retry, if_neg (by simp [hrun.closed])]
  have hgrown : Aside c ({ c with backoff := c.backoff.grow }, []) := ⟨⟨rfl, rfl, rfl⟩, rfl, rfl⟩
  have henter := hgrown.trans (aside_enter hstay .reconnecting hrun.active)
  exact ((henter.append rfl).cons rfl).moves_to hrun .sleeping

theorem moves_shake (hstay : callbacks.ListenersStay) (hrun : c.Running id phase) :
    Moves c id phase [] c.watermarks (c.shake callbacks) := by
  have hreset : Aside c ({ c with backoff := c.backoff.reset }, []) :=
    ⟨⟨rfl, rfl, rfl⟩, rfl, rfl⟩
  have henter := hreset.trans (aside_enter hstay .connected hrun.active)
  exact ((henter.append rfl).cons rfl).moves hrun

theorem Running.moves (hrun : c.Running id phase) :
    Moves c id phase [] c.watermarks (c, []) := (Aside.refl c).moves hrun

theorem moves_afterClosing (hstay : callbacks.ListenersStay) {outcome : Outcome}
    (hgoing : outcome ≠ .cancelled) (hrun : c.Running id phase) :
    Moves c id .sleeping [] c.watermarks (c.afterClosing callbacks id outcome) := by
  cases outcome with
  | left =>
    rw [afterClosing, if_neg (by simp [hrun.closed])]
    exact moves_retry hstay hrun .closedByServer
  | failed failure => exact moves_retry hstay hrun failure
  | cancelled => exact absurd rfl hgoing

theorem moves_handshake (hstay : callbacks.ListenersStay) (hrun : c.Running id .receiving)
    {frame : Frame} (hframe : frame.event = c.connectedEvent) :
    Moves c id .receiving [] c.watermarks (c.receive callbacks id frame) := by
  rw [receive, if_neg (by simp [hrun.closed])]
  cases frame.id with
  | none =>
    simp only [hframe, if_true]
    exact moves_shake hstay hrun
  | some v =>
    simp only [hframe, if_true]
    have hnoted : Client.Running { c with lastEventId := some v } id .receiving :=
      hrun.of_sameLink ⟨rfl, rfl, rfl⟩
    have hmoves := moves_shake hstay hnoted
    exact ⟨hmoves.running, hmoves.loops, hmoves.news, hmoves.watermarks⟩

/-- A signal that neither brings a frame to be handed out nor resumes a handler. -/
theorem moves_aside (hstay : callbacks.ListenersStay) (hrun : c.Running id phase)
    (hgoing : phase ≠ .closing .cancelled) (s : Signal)
    (hframe : phase = .receiving → ∀ frame, s = .frame frame → frame.event = c.connectedEvent)
    (hresumed : s = .resumed → phase.inHand? = none) :
    ∃ phase', phase'.inHand? = phase.inHand? ∧ phase' ≠ .closing .cancelled ∧
      Moves c id phase' [] c.watermarks (c.signal callbacks id s) := by
  simp only [signal, hrun.loop?, Bool.false_eq_true, if_false]
  split
  · exact ⟨phase, rfl, hgoing, hrun.moves⟩
  · exact ⟨.opening, rfl, by simp, moves_attempt hstay hrun⟩
  · exact ⟨.receiving, rfl, by simp, (Aside.refl c).moves_to hrun .receiving⟩
  · next failure => exact ⟨.sleeping, rfl, by simp, moves_retry hstay hrun failure⟩
  · next frame => exact ⟨.receiving, rfl, hgoing, moves_handshake hstay hrun (hframe rfl frame rfl)⟩
  · exact ⟨.closing .left, rfl, by simp, (Aside.refl c).moves_to hrun (.closing .left)⟩
  · next failure =>
    exact ⟨.closing (.failed failure), rfl, by simp,
      (Aside.refl c).moves_to hrun (.closing (.failed failure))⟩
  · exact absurd (hresumed rfl) (by simp [Phase.inHand?])
  · next outcome =>
    have hleft : outcome ≠ .cancelled := fun h => hgoing (by rw [h])
    have hmoves := moves_afterClosing hstay hleft hrun
    exact ⟨.sleeping, rfl, by simp, hmoves.running, hmoves.loops, hmoves.news, hmoves.watermarks⟩
  · exact ⟨.opening, rfl, by simp, moves_attempt hstay hrun⟩
  · exact ⟨phase, rfl, hgoing, hrun.moves⟩

/-- What a signal is to a loop: a frame to be handed out, the resumption of a handler, or neither. -/
inductive Heard (c : Client) : Phase → Signal → Prop where
  | frame (frame : Frame) (hevent : frame.event ≠ c.connectedEvent) :
      Heard c .receiving (.frame frame)
  | resumed (tag : String) (event : StreamEvent) (current : Handler) (rest : List Handler)
      (delivered : Bool) : Heard c (.handling tag event current rest delivered) .resumed
  | aside {phase : Phase} {s : Signal}
      (hshake : phase = .receiving → ∀ frame, s = .frame frame → frame.event = c.connectedEvent)
      (hnone : s = .resumed → phase.inHand? = none) : Heard c phase s

theorem heard (c : Client) (phase : Phase) (s : Signal) : c.Heard phase s := by
  by_cases hframe : ∃ frame, s = .frame frame ∧ phase = .receiving ∧
      frame.event ≠ c.connectedEvent
  · obtain ⟨frame, rfl, rfl, hevent⟩ := hframe
    exact .frame frame hevent
  by_cases hresumed : s = .resumed ∧ phase.inHand? ≠ none
  · obtain ⟨rfl, hhand⟩ := hresumed
    cases phase with
    | handling tag event current rest delivered => exact .resumed ..
    | _ => exact absurd rfl hhand
  exact .aside
    (fun hp frame hs => Classical.byContradiction fun hevent => hframe ⟨frame, hs, hp, hevent⟩)
    (fun hs => Classical.byContradiction fun hhand => hresumed ⟨hs, hhand⟩)

end Client

end LineWatch
