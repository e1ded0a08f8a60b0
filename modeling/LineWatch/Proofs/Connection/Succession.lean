import LineWatch.Proofs.Connection.Handing
import LineWatch.Proofs.Connection.Story

/-!
# One thing after another

Callbacks give commands, and a command may call callbacks again. Whatever relates a client to the
outcome and the story of each single thing that is done there, and goes along with doing one after
the other, relates it to the outcome and the story of an announcement, a disconnect or a hand-out
as a whole.
-/

namespace LineWatch

/-- What is said about frames and callbacks, apart from state changes and offers. -/
def Emission.isReport : Emission → Bool
  | .notice (.stateChanged ..) => false
  | .notice _ | .told .. | .received _ | .dropped _ => true
  | _ => false

/-- Callbacks give only such commands. -/
structure Callbacks.Give (callbacks : Callbacks) (allowed : Command → Prop) : Prop where
  handlers : ∀ handler event commands, (callbacks.react handler event).outcome = .ok commands →
    ∀ command ∈ commands, allowed command
  listeners : ∀ listener state commands, callbacks.hear listener state = .ok commands →
    ∀ command ∈ commands, allowed command

theorem Callbacks.give_any (callbacks : Callbacks) : callbacks.Give fun _ => True :=
  ⟨fun _ _ _ _ _ _ => trivial, fun _ _ _ _ _ _ => trivial⟩

/-- Callbacks that accept all events and give no commands. -/
def Callbacks.quiet : Callbacks := ⟨fun _ _ => {}, fun _ _ => .ok []⟩

theorem Callbacks.give_quiet (allowed : Command → Prop) : Callbacks.quiet.Give allowed where
  handlers handler event commands h := by
    obtain rfl : [] = commands := Except.ok.inj h
    simp
  listeners listener state commands h := by
    obtain rfl : [] = commands := Except.ok.inj h
    simp

theorem Turn.stays_of_quiet {acts : List Act} (hacts : ∀ act ∈ acts, act ≠ .command .disconnect) :
    ∀ turn ∈ acts.map (⟨.quiet, ·⟩), Turn.Stays turn := by
  intro turn hturn
  obtain ⟨act, hact, rfl⟩ := List.mem_map.1 hturn
  have hgive := Callbacks.give_quiet (· ≠ .disconnect)
  refine ⟨?_, ?_, hacts act hact⟩
  · intro handler event commands h hleave
    exact hgive.handlers handler event commands h _ hleave rfl
  · intro listener state commands h hleave
    exact hgive.listeners listener state commands h _ hleave rfl

namespace Client

/-- At most the wiring of handlers and listeners has changed, and the watermarks. -/
def RewiredTo (c c' : Client) : Prop :=
  ∃ handlers subscriptions listeners watermarks, c' = { c with
    handlers := handlers, subscriptions := subscriptions, listeners := listeners,
    watermarks := watermarks }

theorem RewiredTo.refl (c : Client) : c.RewiredTo c := ⟨_, _, _, _, rfl⟩

theorem rewiredTo_unsubscribe (c : Client) (name : String) : c.RewiredTo (c.unsubscribe name) := by
  unfold unsubscribe
  split
  · exact .refl c
  · split
    · exact .refl c
    · exact ⟨_, _, _, _, rfl⟩

theorem rewiredTo_advance (c : Client) (event : StreamEvent) : c.RewiredTo (c.advance event) := by
  unfold advance
  split
  · split
    · split
      · exact ⟨_, _, _, _, rfl⟩
      · exact .refl c
    · exact ⟨_, _, _, _, rfl⟩
  · exact .refl c

theorem state_connect (c : Client) : c.connect.1.state = c.state := by
  unfold connect
  split <;> rfl

theorem state_halt (c : Client) : c.halt.1.state = c.state := by
  unfold halt
  dsimp only
  split <;> rfl

theorem closed_halt (c : Client) : c.halt.1.closed = true := by
  unfold halt
  dsimp only
  split <;> rfl

/-- Notices of a sorted frame are reports. -/
theorem isReport_of_sort {c : Client} {frame : Frame} {reason : Drop} {notices : List ClientNotice}
    (h : c.sort frame = .drop reason notices) :
    ∀ notice ∈ notices, (Emission.notice notice).isReport = true := by
  unfold sort at h
  split at h
  · obtain ⟨-, rfl⟩ := Sorted.drop.inj h
    simp
  · split at h
    · obtain ⟨-, rfl⟩ := Sorted.drop.inj h
      simp
    · split at h
      · cases h
      · obtain ⟨-, rfl⟩ := Sorted.drop.inj h
        simp [Emission.isReport]
      · split at h
        · obtain ⟨-, rfl⟩ := Sorted.drop.inj h
          simp [Emission.isReport]
        · cases h

/-- What holds of each single thing that callbacks bring about, where `leave` and `leaveStory` stand
for `disconnect`, and of one thing after the other. -/
structure Lasting (leave : Client → Client × List Emission) (leaveStory : Client → List Moment)
    (allowed : Command → Prop) (P : Client → Client × List Emission → List Moment → Prop) :
    Prop where
  rewires : ∀ {c c' : Client}, c.RewiredTo c' → P c (c', []) []
  trans : ∀ {c c' c'' : Client} {first later : List Emission}
    {firstStory laterStory : List Moment},
    P c (c', first) firstStory → P c' (c'', later) laterStory →
      P c (c'', first ++ later) (firstStory ++ laterStory)
  report : ∀ c emission, emission.isReport = true → P c (c, [emission]) [.emitted emission]
  connect : allowed .connect → ∀ c : Client,
    P c c.connect (.connectCalled :: c.connect.2.map .emitted)
  leave : allowed .disconnect → ∀ c, P c (leave c) (leaveStory c)

namespace Lasting

variable {leave : Client → Client × List Emission} {leaveStory : Client → List Moment}
  {allowed : Command → Prop} {P : Client → Client × List Emission → List Moment → Prop}
  {callbacks : Callbacks}

theorem refl (h : Lasting leave leaveStory allowed P) (c : Client) : P c (c, []) [] :=
  h.rewires (.refl c)

theorem reports (h : Lasting leave leaveStory allowed P) (c : Client) {emissions : List Emission}
    (hreport : ∀ emission ∈ emissions, emission.isReport = true) :
    P c (c, emissions) (emissions.map .emitted) := by
  induction emissions with
  | nil => exact h.refl c
  | cons emission rest ih =>
    have hfirst := h.report c emission (hreport emission List.mem_cons_self)
    exact h.trans hfirst (ih fun later hlater => hreport later (List.mem_cons_of_mem _ hlater))

theorem performWith (h : Lasting leave leaveStory allowed P) (c : Client) {command : Command}
    (hallowed : allowed command) :
    P c (performWith leave c command) (performStoryWith leaveStory c command) := by
  cases command with
  | connect => exact h.connect hallowed c
  | disconnect => exact h.leave hallowed c
  | unsubscribe name => exact h.rewires (rewiredTo_unsubscribe c name)
  | subscribe | listen | unlisten => exact h.rewires ⟨_, _, _, _, rfl⟩

theorem performAllWith (h : Lasting leave leaveStory allowed P) (c : Client)
    {commands : List Command} (hallowed : ∀ command ∈ commands, allowed command) :
    P c (performAllWith leave c commands) (performAllStoryWith leave leaveStory c commands) := by
  induction commands generalizing c with
  | nil => exact h.refl c
  | cons command rest ih =>
    have hfirst := h.performWith c (hallowed command List.mem_cons_self)
    exact h.trans hfirst (ih _ fun later hlater => hallowed later (List.mem_cons_of_mem _ hlater))

theorem announceWith (h : Lasting leave leaveStory allowed P) (hgive : callbacks.Give allowed)
    (state : ConnectionState) (c : Client) (listeners : List Listener) :
    P c (announceWith leave callbacks state c listeners)
      (announceStoryWith leave leaveStory callbacks state c listeners) := by
  induction listeners generalizing c with
  | nil => exact h.refl c
  | cons l rest ih =>
    have htold := h.report c (.told l state) rfl
    simp only [Client.announceWith, announceStoryWith]
    cases hhear : callbacks.hear l state with
    | error message =>
      have hfailed := h.report c (.notice (.listenerFailed message)) rfl
      exact h.trans (h.trans htold hfailed) (ih c)
    | ok commands =>
      have hcommands := h.performAllWith c (hgive.listeners l state commands hhear)
      have hall := h.trans (h.trans htold hcommands) (ih _)
      rwa [List.append_assoc [Moment.emitted _]] at hall

theorem enterWith (h : Lasting leave leaveStory allowed P) (hgive : callbacks.Give allowed)
    {state : ConnectionState} {c : Client}
    (hentered : c.state ≠ state →
      P c ({ c with state := state }, [.notice (.stateChanged c.state state)])
        [.emitted (.notice (.stateChanged c.state state))]) :
    P c (enterWith leave callbacks state c)
      (enterStoryWith leave leaveStory callbacks state c) := by
  unfold Client.enterWith enterStoryWith
  split
  · exact h.refl c
  · next hstate => exact h.trans (hentered hstate) (h.announceWith hgive state _ c.listeners)

end Lasting

/-- A relation that does without the story and goes along with halting, and then with the change to
`disconnected`, goes along with all commands. -/
theorem Lasting.lift {allowed : Command → Prop} {P : Client → Client × List Emission → Prop}
    {callbacks : Callbacks} (h : Lasting halt haltStory allowed fun c result _ => P c result)
    (hgive : callbacks.Give allowed) (hhalt : ∀ c, P c c.halt)
    (hleft : ∀ c : Client, c.closed = true → c.state ≠ .disconnected →
      P c ({ c with state := .disconnected },
        [.notice (.stateChanged c.state .disconnected)])) :
    Lasting (disconnect callbacks) (disconnectStory callbacks) allowed
      fun c result _ => P c result where
  rewires := h.rewires
  trans hfirst hlater := @Lasting.trans _ _ _ _ h _ _ _ _ _ [] [] hfirst hlater
  report := h.report
  connect := h.connect
  leave _ c := by
    have hentered : P c.halt.1 (Client.enterWith halt callbacks .disconnected c.halt.1) :=
      h.enterWith hgive (hleft c.halt.1 (closed_halt c))
    exact @Lasting.trans _ _ _ _ h _ _ _ _ _ [] [] (hhalt c) hentered

/-- What holds of all that callbacks bring about, and of offers while the client is not closed. -/
structure Offering (callbacks : Callbacks) (allowed : Command → Prop)
    (P : Client → Client × List Emission → List Moment → Prop) : Prop
    extends Lasting (disconnect callbacks) (disconnectStory callbacks) allowed P where
  offers : ∀ {c : Client}, c.closed = false → ∀ handler event,
    P c (c, [.offered handler event]) [.emitted (.offered handler event)]
  invokes : ∀ {c : Client}, c.closed = false → ∀ handler event,
    P c (c, []) [.invoked handler event]

namespace Offering

variable {callbacks : Callbacks} {allowed : Command → Prop}
  {P : Client → Client × List Emission → List Moment → Prop}
  (h : Offering callbacks allowed P) (hgive : callbacks.Give allowed)
include h hgive

theorem offer {c : Client} (hopen : c.closed = false) (tag : String) (event : StreamEvent)
    (handler : Handler) :
    P c ((c.offer callbacks tag event handler).1, (c.offer callbacks tag event handler).2.1)
      (offerStory callbacks tag event c handler) := by
  have hoffered := h.offers hopen handler event
  unfold Client.offer offerStory
  cases hreact : (callbacks.react handler event).outcome with
  | error message =>
    have hfailed := h.report c (.notice (.handlerFailed tag event.channel? message)) rfl
    exact h.trans hoffered hfailed
  | ok commands =>
    exact h.trans hoffered (h.performAllWith c (hgive.handlers handler event commands hreact))

theorem offerAll (tag : String) (event : StreamEvent) (delivered : Bool) (c : Client)
    (handlers : List Handler) :
    P c ((c.offerAll callbacks tag event delivered handlers).1,
        (c.offerAll callbacks tag event delivered handlers).2.1)
      (offerAllStory callbacks tag event c handlers) := by
  induction handlers generalizing c delivered with
  | nil =>
    cases delivered with
    | false => exact h.refl c
    | true => exact h.rewires (rewiredTo_advance c event)
  | cons handler rest ih =>
    unfold Client.offerAll offerAllStory
    by_cases hclosed : c.closed = true
    · rw [if_pos hclosed, if_pos hclosed]
      exact h.refl c
    · have hopen : c.closed = false := by simpa using hclosed
      rw [if_neg hclosed, if_neg hclosed]
      have hinvoked := h.invokes hopen handler event
      by_cases hwait : (callbacks.react handler event).suspends = true
      · rw [if_pos hwait, if_pos hwait]
        exact hinvoked
      · rw [if_neg hwait, if_neg hwait]
        exact h.trans (h.trans hinvoked (h.offer hgive hopen tag event handler)) (ih _ _)

theorem resumeOffer {c : Client} (hopen : c.closed = false) (tag : String) (event : StreamEvent)
    (current : Handler) (rest : List Handler) (delivered : Bool) :
    P c ((c.resumeOffer callbacks tag event current rest delivered).1,
        (c.resumeOffer callbacks tag event current rest delivered).2.1)
      (c.resumeOfferStory callbacks tag event current rest) :=
  h.trans (h.offer hgive hopen tag event current) (h.offerAll hgive tag event _ _ rest)

theorem dispatch (c : Client) (frame : Frame) :
    P c ((c.dispatch callbacks frame).1, (c.dispatch callbacks frame).2.1)
      (c.dispatchStory callbacks frame) := by
  unfold dispatchStory Client.dispatch
  match hsort : c.sort frame with
  | .drop reason notices =>
    refine h.reports c ?_
    simpa [Emission.isReport] using isReport_of_sort hsort
  | .unreadable => exact h.report c _ rfl
  | .event event handlers =>
    exact h.trans (h.report c (.received frame.event) rfl)
      (h.offerAll hgive frame.event event false c handlers)

end Offering

end Client

end LineWatch
