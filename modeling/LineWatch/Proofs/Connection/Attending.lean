import LineWatch.Proofs.Connection.Mirror
import LineWatch.Proofs.Connection.StatePath

/-!
# A handler that waits before it fails

A handler that waits keeps its loop waiting. If it is resumed at once and then fails, the turn and
the resumption together come to what the turn would have come to without the wait.
-/

namespace LineWatch

variable {broken : Handler}

/-- The loop waits until the handler goes on. -/
def Phase.awaits (broken : Handler) : Phase → Bool
  | .handling _ _ current _ _ => current = broken
  | _ => false

theorem Phase.Spares.awaits {phase : Phase} (h : phase.Spares broken) :
    phase.awaits broken = false := by
  cases phase with
  | handling => exact decide_eq_false h.1
  | _ => rfl

theorem Phase.awaits_congr {phase phase' : Phase} (h : phase'.inHand? = phase.inHand?) :
    phase'.awaits broken = phase.awaits broken := by
  cases phase <;> cases phase' <;> simp_all [inHand?, awaits]

/-- The handler no longer waits before it does anything. -/
def Callbacks.rushed (broken : Handler) (callbacks : Callbacks) : Callbacks where
  react handler event :=
    let reaction := callbacks.react handler event
    if handler = broken then { reaction with suspends := false } else reaction
  hear := callbacks.hear

def Turn.rushed (broken : Handler) (turn : Turn) : Turn :=
  { turn with callbacks := turn.callbacks.rushed broken }

namespace Callbacks

variable (broken) (callbacks : Callbacks)

theorem react_rushed_of_ne {handler : Handler} (h : handler ≠ broken) (event : StreamEvent) :
    (callbacks.rushed broken).react handler event = callbacks.react handler event := if_neg h

theorem outcome_rushed (handler : Handler) (event : StreamEvent) :
    ((callbacks.rushed broken).react handler event).outcome =
      (callbacks.react handler event).outcome := by
  simp only [rushed]
  split <;> rfl

variable {broken callbacks} in
theorem Give.rushed {allowed : Command → Prop} (h : callbacks.Give allowed) :
    (callbacks.rushed broken).Give allowed :=
  ⟨fun handler event commands hreact =>
    h.handlers handler event commands (callbacks.outcome_rushed broken handler event ▸ hreact),
    h.listeners⟩

variable {broken callbacks} in
theorem Break.rushed (h : callbacks.Break broken) : (callbacks.rushed broken).Break broken :=
  fun event => by
    have hfails := h event
    unfold Callbacks.accepts at *
    rwa [outcome_rushed]

theorem rush_rushed : (callbacks.rushed broken).Rush broken := fun event => by
  simp only [rushed, if_pos]

end Callbacks

theorem Turn.Gives.rushed {turn : Turn} {allowed : Command → Prop} (h : turn.Gives allowed) :
    (turn.rushed broken).Gives allowed := ⟨h.callbacks.rushed, h.act⟩

theorem Callbacks.rushed_of_rush {callbacks : Callbacks} (h : callbacks.Rush broken) :
    callbacks.rushed broken = callbacks := by
  obtain ⟨react, hear⟩ := callbacks
  rw [Callbacks.rushed, Callbacks.mk.injEq]
  refine ⟨?_, rfl⟩
  funext handler event
  by_cases hbroken : handler = broken
  · have hrush : (react broken event).suspends = false := h event
    simp [hbroken, ← hrush]
  · simp [hbroken]

namespace Client

/-! ## What does not depend on waiting -/

section Rushed

variable {callbacks : Callbacks}

theorem announceWith_rushed (leave : Client → Client × List Emission) (callbacks : Callbacks)
    (state : ConnectionState) (c : Client) (listeners : List Listener) :
    announceWith leave (callbacks.rushed broken) state c listeners =
      announceWith leave callbacks state c listeners := by
  induction listeners generalizing c with
  | nil => rfl
  | cons l rest ih =>
    simp only [announceWith, ih]
    rfl

theorem disconnect_rushed (callbacks : Callbacks) :
    disconnect (callbacks.rushed broken) = disconnect callbacks := by
  funext c
  simp only [disconnect, enterWith, announceWith_rushed]

theorem enter_rushed (callbacks : Callbacks) :
    enter (callbacks.rushed broken) = enter callbacks := by
  funext state c
  simp only [enter, enterWith, announceWith_rushed, disconnect_rushed]

theorem offer_rushed (callbacks : Callbacks) :
    offer (callbacks.rushed broken) = offer callbacks := by
  funext tag event c handler
  simp only [offer, Callbacks.outcome_rushed, performAll, disconnect_rushed]

theorem attempt_rushed (callbacks : Callbacks) :
    attempt (callbacks.rushed broken) = attempt callbacks := by
  funext id c
  simp only [attempt, enter_rushed]

theorem retry_rushed (callbacks : Callbacks) :
    retry (callbacks.rushed broken) = retry callbacks := by
  funext id failure c
  simp only [retry, enter_rushed]

theorem shake_rushed (callbacks : Callbacks) :
    shake (callbacks.rushed broken) = shake callbacks := by
  funext c
  simp only [shake, enter_rushed]

theorem afterClosing_rushed (callbacks : Callbacks) :
    afterClosing (callbacks.rushed broken) = afterClosing callbacks := by
  funext id c outcome
  cases outcome <;> simp only [afterClosing, retry_rushed]

/-- Handlers that are not this one wait as they did. -/
theorem offerAll_rushed_of_not_mem (tag : String) (event : StreamEvent) {handlers : List Handler}
    (h : broken ∉ handlers) (delivered : Bool) (c : Client) :
    c.offerAll (callbacks.rushed broken) tag event delivered handlers =
      c.offerAll callbacks tag event delivered handlers := by
  induction handlers generalizing delivered c with
  | nil => rfl
  | cons handler rest ih =>
    rw [List.mem_cons, not_or] at h
    simp only [offerAll, offer_rushed, ih h.2,
      Callbacks.react_rushed_of_ne broken callbacks (Ne.symm h.1)]

end Rushed

/-! ## What does not depend on what the loop waits for -/

section Phases

variable {leave : Client → Client × List Emission} {callbacks : Callbacks} {c : Client} {id : Nat}
  {phase : Phase}

theorem setPhase_setPhase (c : Client) (id : Nat) (phase phase' : Phase) :
    (c.setPhase id phase).setPhase id phase' = c.setPhase id phase' := by
  simp only [setPhase, mapLoop, List.map_map]
  congr 1
  apply List.map_congr_left
  intro kv _
  by_cases hkv : kv.1 = id <;> simp [hkv]

theorem performWith_setPhase (hrun : c.Running id phase) (phase' : Phase) {command : Command}
    (hleave : command ≠ .disconnect) :
    performWith leave (c.setPhase id phase') command =
      ((performWith leave c command).1.setPhase id phase', (performWith leave c command).2) := by
  cases command with
  | disconnect => exact absurd rfl hleave
  | connect =>
    obtain ⟨own, hown⟩ := Option.isSome_iff_exists.mp hrun.active
    obtain ⟨own', hown'⟩ := Option.isSome_iff_exists.mp (hrun.setPhase phase').active
    simp only [performWith, connect, hown, hown']
  | unsubscribe name =>
    simp only [performWith, unsubscribe]
    have hsubscriptions : (c.setPhase id phase').subscriptions = c.subscriptions := rfl
    rw [hsubscriptions]
    split
    · rfl
    · split <;> rfl
  | subscribe | listen | unlisten => rfl

theorem performAllWith_setPhase (hrun : c.Running id phase) (phase' : Phase)
    {commands : List Command} (hleave : .disconnect ∉ commands) :
    performAllWith leave (c.setPhase id phase') commands =
      ((performAllWith leave c commands).1.setPhase id phase',
        (performAllWith leave c commands).2) := by
  induction commands generalizing c with
  | nil => rfl
  | cons command rest ih =>
    rw [List.mem_cons, not_or] at hleave
    have haside : Aside c (performWith leave c command) :=
      aside_performWith hrun.active (Ne.symm hleave.1)
    simp only [performAllWith, performWith_setPhase hrun phase' (Ne.symm hleave.1),
      ih (hrun.of_sameLink haside.link) hleave.2]

theorem offer_setPhase (hstay : callbacks.HandlersStay) (hrun : c.Running id phase)
    (phase' : Phase) (tag : String) (event : StreamEvent) (handler : Handler) :
    (c.setPhase id phase').offer callbacks tag event handler =
      ((c.offer callbacks tag event handler).1.setPhase id phase',
        (c.offer callbacks tag event handler).2) := by
  unfold offer
  cases hreact : (callbacks.react handler event).outcome with
  | error message => rfl
  | ok commands =>
    have hleave : .disconnect ∉ commands := hstay handler event commands hreact
    simp only [performAll, performAllWith_setPhase hrun phase' hleave]

theorem advance_setPhase (c : Client) (id : Nat) (phase : Phase) (event : StreamEvent) :
    (c.setPhase id phase).advance event = (c.advance event).setPhase id phase := by
  have hmarks : (c.setPhase id phase).watermark? = c.watermark? := rfl
  simp only [advance, hmarks]
  split
  · split
    · split <;> rfl
    · rfl
  · rfl

theorem offerAll_setPhase (hstay : callbacks.HandlersStay) (hrun : c.Running id phase)
    (phase' : Phase) (tag : String) (event : StreamEvent) (delivered : Bool)
    (handlers : List Handler) :
    (c.setPhase id phase').offerAll callbacks tag event delivered handlers =
      ((c.offerAll callbacks tag event delivered handlers).1.setPhase id phase',
        (c.offerAll callbacks tag event delivered handlers).2) := by
  induction handlers generalizing c delivered with
  | nil =>
    simp only [offerAll, advance_setPhase]
    split <;> rfl
  | cons handler rest ih =>
    have hopen : ¬c.closed = true := by simp [hrun.closed]
    have hopen' : ¬(c.setPhase id phase').closed = true := hopen
    obtain ⟨c', emissions, hoffer, haside⟩ := offer_spec hstay tag event hrun handler
    have hrun' : c'.Running id phase := hrun.of_sameLink haside.link
    rw [offerAll, offerAll, if_neg hopen, if_neg hopen', offer_setPhase hstay hrun, hoffer]
    split
    · rfl
    · simp only [ih hrun']

theorem resumeOffer_setPhase (hstay : callbacks.HandlersStay) (hrun : c.Running id phase)
    (phase' : Phase) (tag : String) (event : StreamEvent) (current : Handler)
    (rest : List Handler) (delivered : Bool) :
    (c.setPhase id phase').resumeOffer callbacks tag event current rest delivered =
      ((c.resumeOffer callbacks tag event current rest delivered).1.setPhase id phase',
        (c.resumeOffer callbacks tag event current rest delivered).2) := by
  obtain ⟨c', emissions, hoffer, haside⟩ := offer_spec hstay tag event hrun current
  have hrun' : c'.Running id phase := hrun.of_sameLink haside.link
  simp only [resumeOffer, offer_setPhase hstay hrun, hoffer, offerAll_setPhase hstay hrun']

end Phases

/-! ## Hand-outs -/

/-- The second hand-out is the first one, or what becomes of it once this handler, which keeps it
waiting, is resumed. -/
def Attends (callbacks : Callbacks) (broken : Handler)
    (waits done : Client × List Emission × Handing) : Prop :=
  (done = waits ∧ waits.2.2.phase.awaits broken = false) ∨
    ∃ tag event rest delivered,
      waits.2.2 = .waiting (.handling tag event broken rest delivered) ∧
      let later := waits.1.resumeOffer callbacks tag event broken rest delivered
      done = (later.1, waits.2.1 ++ later.2.1, later.2.2)

section HandOuts

variable {callbacks : Callbacks} {c : Client} {id : Nat} {phase : Phase} {tag : String}
  {event : StreamEvent}

theorem Attends.prepend {waits done : Client × List Emission × Handing}
    (h : Attends callbacks broken waits done) (first : List Emission) :
    Attends callbacks broken (waits.1, first ++ waits.2.1, waits.2.2)
      (done.1, first ++ done.2.1, done.2.2) := by
  rcases h with ⟨rfl, hawaits⟩ | ⟨tag, event, rest, delivered, hwaits, hdone⟩
  · exact .inl ⟨rfl, hawaits⟩
  · refine .inr ⟨tag, event, rest, delivered, hwaits, ?_⟩
    simp only [hdone, List.append_assoc]

theorem attends_offerAll (c : Client) (delivered : Bool) {handlers : List Handler}
    (honce : handlers.count broken ≤ 1) :
    Attends callbacks broken (c.offerAll callbacks tag event delivered handlers)
      (c.offerAll (callbacks.rushed broken) tag event delivered handlers) := by
  induction handlers generalizing c delivered with
  | nil => exact .inl ⟨rfl, rfl⟩
  | cons handler rest ih =>
    have hrest : rest.count broken ≤ 1 := Nat.le_trans List.count_le_count_cons honce
    unfold offerAll
    by_cases hclosed : c.closed = true
    · rw [if_pos hclosed, if_pos hclosed]
      exact .inl ⟨rfl, rfl⟩
    rw [if_neg hclosed, if_neg hclosed, offer_rushed]
    by_cases hbroken : handler = broken
    · -- the handler is there only once, so nobody waits a second time
      have hgone : broken ∉ rest := by
        rw [hbroken, List.count_cons_self] at honce
        exact List.count_eq_zero.mp (by omega)
      have hrush : ¬((callbacks.rushed broken).react broken event).suspends = true := by
        simp [callbacks.rush_rushed broken event]
      rw [hbroken, if_neg hrush]
      by_cases hwait : (callbacks.react broken event).suspends = true
      · rw [if_pos hwait]
        refine .inr ⟨tag, event, rest, delivered, rfl, ?_⟩
        simp only [offerAll_rushed_of_not_mem tag event hgone]
        rfl
      · rw [if_neg hwait]
        exact (ih _ _ hrest).prepend _
    · rw [Callbacks.react_rushed_of_ne broken callbacks hbroken]
      split
      · exact .inl ⟨rfl, decide_eq_false hbroken⟩
      · exact (ih _ _ hrest).prepend _

theorem attends_resumeOffer (c : Client) (current : Handler) (delivered : Bool)
    {rest : List Handler} (honce : rest.count broken ≤ 1) :
    Attends callbacks broken
      (c.resumeOffer callbacks tag event current rest delivered)
      (c.resumeOffer (callbacks.rushed broken) tag event current rest delivered) := by
  rw [resumeOffer, resumeOffer, offer_rushed]
  exact (attends_offerAll _ _ honce).prepend _

theorem attends_dispatch (h : c.Accompanies broken) (frame : Frame) :
    Attends callbacks broken (c.dispatch callbacks frame)
      (c.dispatch (callbacks.rushed broken) frame) := by
  unfold dispatch
  cases hsort : c.sort frame with
  | drop reason notices => exact .inl ⟨rfl, rfl⟩
  | unreadable => exact .inl ⟨rfl, rfl⟩
  | event event handlers =>
    exact (attends_offerAll c false (h.once_of_sort hsort)).prepend [.received frame.event]

theorem sameLink_dispatch (hstay : callbacks.HandlersStay) (hrun : c.Running id phase)
    (frame : Frame) : SameLink c (c.dispatch callbacks frame).1 := by
  unfold dispatch
  cases c.sort frame with
  | drop reason notices => exact .refl c
  | unreadable => exact .refl c
  | event event handlers =>
    obtain ⟨served, left, -, hhanded⟩ :=
      offerAll_handedOut hstay frame.event event hrun false handlers
    exact hhanded.link

end HandOuts

/-! ## Turns and runs -/

/-- The loop waits until the handler goes on. -/
def awaits (broken : Handler) (id : Nat) (c : Client) : Bool :=
  (c.loop? id).any (·.phase.awaits broken)

/-- A turn, and the resumption of the handler if that is what the loop waits for then. -/
def attend (broken : Handler) (c : Client) (turn : Turn) : List Turn :=
  match turn.act with
  | .signal id _ =>
    if (c.take turn).1.awaits broken id then [turn, ⟨turn.callbacks, .signal id .resumed⟩]
    else [turn]
  | .command _ => [turn]

/-- The turns of a run in which the handler is resumed at once whenever it waits. -/
def attended (broken : Handler) (c : Client) : List Turn → List Turn
  | [] => []
  | turn :: rest =>
    c.attend broken turn ++ attended broken (c.run (c.attend broken turn)).1 rest

theorem run_append (c : Client) (before after : List Turn) :
    c.run (before ++ after) =
      (((c.run before).1.run after).1, (c.run before).2 ++ ((c.run before).1.run after).2) := by
  induction before generalizing c with
  | nil => rfl
  | cons turn rest ih => simp only [List.cons_append, run, ih, List.append_assoc]

theorem run_singleton (c : Client) (turn : Turn) : c.run [turn] = c.take turn := by
  simp only [run, List.append_nil]

section Turns

variable {callbacks : Callbacks} {c : Client} {id : Nat} {phase : Phase}

theorem Running.awaits (hrun : c.Running id phase) : c.awaits broken id = phase.awaits broken := by
  rw [Client.awaits, hrun.loop?]
  rfl

/-- A turn of the loop that comes to a hand-out, whether the handler waits or not. -/
theorem run_attend_handOut (hstay : callbacks.HandlersStay) {s : Signal}
    {waits done : Client × List Emission × Handing} (h : Attends callbacks broken waits done)
    (hrun : waits.1.Running id phase)
    (hwaits : c.signal callbacks id s = (waits.1.settleHanding id waits.2.2, waits.2.1))
    (hdone : c.signal (callbacks.rushed broken) id s =
      (done.1.settleHanding id done.2.2, done.2.1)) :
    c.run (c.attend broken ⟨callbacks, .signal id s⟩) =
      c.take ⟨callbacks.rushed broken, .signal id s⟩ := by
  have hafter : (waits.1.settleHanding id waits.2.2).Running id waits.2.2.phase := by
    rw [settleHanding_phase]
    exact hrun.setPhase _
  have hdone' : c.take ⟨callbacks.rushed broken, .signal id s⟩ =
      (done.1.settleHanding id done.2.2, done.2.1) := hdone
  have htake : c.take ⟨callbacks, .signal id s⟩ =
      (waits.1.settleHanding id waits.2.2, waits.2.1) := hwaits
  have hawaits : (c.take ⟨callbacks, .signal id s⟩).1.awaits broken id =
      waits.2.2.phase.awaits broken := by rw [htake, hafter.awaits]
  unfold attend
  dsimp only
  rw [hawaits, hdone']
  -- either nothing waits for the handler, or the second turn takes up what the first one has left
  rcases h with ⟨rfl, hnot⟩ | ⟨tag, event, rest, delivered, hwaiting, rfl⟩
  · rw [hnot, if_neg Bool.false_ne_true, run_singleton, htake]
  · have hphase : waits.2.2.phase = .handling tag event broken rest delivered := by
      rw [hwaiting]
      rfl
    rw [hphase] at hafter ⊢
    rw [settleHanding_phase, hphase] at htake hafter
    rw [if_pos (by simp [Phase.awaits])]
    have hresumed : (waits.1.setPhase id (.handling tag event broken rest delivered)).take
        ⟨callbacks, .signal id .resumed⟩ =
        ((waits.1.resumeOffer callbacks tag event broken rest delivered).1.settleHanding id
          (waits.1.resumeOffer callbacks tag event broken rest delivered).2.2,
          (waits.1.resumeOffer callbacks tag event broken rest delivered).2.1) := by
      simp only [take, signal, hafter.loop?, resumeOffer_setPhase hstay hrun, settleHanding_phase,
        setPhase_setPhase]
      rfl
    simp only [run, htake, hresumed, List.append_nil]

/-- The handler may wait or not if the hand-outs come to the same. -/
theorem signal_rushed (hrun : c.Running id phase) {s : Signal}
    (hdispatch : ∀ frame, phase = .receiving → s = .frame frame → frame.event ≠ c.connectedEvent →
      (c.noted frame).dispatch (callbacks.rushed broken) frame =
        (c.noted frame).dispatch callbacks frame)
    (hresume : ∀ tag event current rest delivered,
      phase = .handling tag event current rest delivered → s = .resumed →
        c.resumeOffer (callbacks.rushed broken) tag event current rest delivered =
          c.resumeOffer callbacks tag event current rest delivered) :
    c.signal (callbacks.rushed broken) id s = c.signal callbacks id s := by
  unfold signal
  rw [hrun.loop?]
  dsimp only
  rw [attempt_rushed, retry_rushed, afterClosing_rushed]
  cases phase with
  | receiving =>
    cases s with
    | frame frame =>
      dsimp only
      rw [receive_of_open _ hrun.closed, receive_of_open _ hrun.closed, shake_rushed]
      split
      · rfl
      · next hevent => rw [hdispatch frame rfl rfl hevent]
    | _ => rfl
  | handling tag event current rest delivered =>
    cases s with
    | resumed =>
      dsimp only
      rw [hresume tag event current rest delivered rfl rfl]
    | _ => rfl
  | scheduled | opening | closing | sleeping => cases s <;> rfl

theorem run_attend_of_not_awaits {turn : Turn} (hsame : c.take (turn.rushed broken) = c.take turn)
    (hawaits : ∀ id s, turn.act = .signal id s → (c.take turn).1.awaits broken id = false) :
    c.run (c.attend broken turn) = c.take (turn.rushed broken) := by
  have hattend : c.attend broken turn = [turn] := by
    unfold attend
    cases hact : turn.act with
    | command command => rfl
    | signal id s => exact if_neg (by simp [hawaits id s hact])
  rw [hattend, run_singleton, hsame]

theorem run_attend_frame (hgive : callbacks.Give (·.Spares broken))
    (hrun : c.Running id .receiving) (h : c.Accompanies broken) {frame : Frame}
    (hframe : frame.event ≠ c.connectedEvent) :
    c.run (c.attend broken ⟨callbacks, .signal id (.frame frame)⟩) =
      c.take ⟨callbacks.rushed broken, .signal id (.frame frame)⟩ := by
  have hsignal (cb : Callbacks) : c.signal cb id (.frame frame) =
      (((c.noted frame).dispatch cb frame).1.settleHanding id
        ((c.noted frame).dispatch cb frame).2.2, ((c.noted frame).dispatch cb frame).2.1) := by
    simp only [signal, hrun.loop?, receive_of_open cb hrun.closed, if_neg hframe]
  have hrun' : (c.noted frame).Running id .receiving := hrun.of_sameLink (sameLink_noted c frame)
  exact run_attend_handOut hgive.handlersStay (attends_dispatch (h.noted frame) frame)
    (hrun'.of_sameLink (sameLink_dispatch hgive.handlersStay hrun' frame)) (hsignal callbacks)
    (hsignal _)

theorem run_attend_resumed (hgive : callbacks.Give (·.Spares broken)) {tag : String}
    {event : StreamEvent} {current : Handler} {rest : List Handler} {delivered : Bool}
    (hrun : c.Running id (.handling tag event current rest delivered))
    (honce : rest.count broken ≤ 1) :
    c.run (c.attend broken ⟨callbacks, .signal id .resumed⟩) =
      c.take ⟨callbacks.rushed broken, .signal id .resumed⟩ := by
  have hsignal (cb : Callbacks) : c.signal cb id .resumed =
      ((c.resumeOffer cb tag event current rest delivered).1.settleHanding id
        (c.resumeOffer cb tag event current rest delivered).2.2,
        (c.resumeOffer cb tag event current rest delivered).2.1) := by
    simp only [signal, hrun.loop?]
    rfl
  obtain ⟨served, left, -, hhanded⟩ :=
    resumeOffer_handedOut hgive.handlersStay tag event hrun delivered current rest
  exact run_attend_handOut hgive.handlersStay (attends_resumeOffer c current delivered honce)
    (hrun.of_sameLink hhanded.link) (hsignal callbacks) (hsignal _)

theorem Going.run_attend (hgive : callbacks.Give (·.Spares broken))
    (hlisteners : callbacks.ListenersStay) (hgoing : c.Going id phase) (h : c.Accompanies broken)
    (s : Signal) :
    c.run (c.attend broken ⟨callbacks, .signal id s⟩) =
      c.take ⟨callbacks.rushed broken, .signal id s⟩ := by
  have hrun := hgoing.toRunning
  have hspares : phase.Spares broken := h.spares hrun
  cases c.heard phase s with
  | frame frame hevent => exact run_attend_frame hgive hrun h hevent
  | resumed tag event current rest delivered => exact run_attend_resumed hgive hrun hspares.2
  | aside hshake hnone =>
    have hsame : c.signal (callbacks.rushed broken) id s = c.signal callbacks id s := by
      apply signal_rushed hrun
      · intro frame hp hs hevent
        exact absurd (hshake hp frame hs) hevent
      · intro tag event current rest delivered hp hs
        have hidle := hnone hs
        rw [hp] at hidle
        exact absurd hidle (Option.some_ne_none _)
    refine run_attend_of_not_awaits hsame fun own s' hact => ?_
    obtain ⟨rfl, -⟩ : id = own ∧ s = s' := by simpa using hact
    obtain ⟨phase', hhand, -, hmoves⟩ :=
      moves_aside hlisteners hrun hgoing.uncancelled s hshake hnone
    exact hmoves.running.awaits.trans ((Phase.awaits_congr hhand).trans hspares.awaits)

/-- Whether the handler is resumed at once or does not wait at all: the turn comes to the same. -/
theorem Stands.run_attend (hstands : Stands c) (h : c.Accompanies broken) {turn : Turn}
    (hgives : turn.Gives (·.Spares broken)) :
    c.run (c.attend broken turn) = c.take (turn.rushed broken) := by
  obtain ⟨callbacks, act⟩ := turn
  cases act with
  | command command =>
    refine run_attend_of_not_awaits ?_ nofun
    simp only [Turn.rushed, Client.take, perform, disconnect_rushed]
  | signal id s =>
    by_cases hloop : c.loop? id = none
    · have hsame := (take_unheard hloop (callbacks.rushed broken) s).trans
        (take_unheard hloop callbacks s).symm
      refine run_attend_of_not_awaits hsame fun own s' hact => ?_
      obtain ⟨rfl, -⟩ : id = own ∧ s = s' := by simpa using hact
      rw [take_unheard hloop, Client.awaits, hloop]
      rfl
    obtain ⟨phase, hgoing⟩ := hstands.going_of_loop hloop
    exact hgoing.run_attend hgives.callbacks hgives.callbacks.listenersStay h s

end Turns

theorem mirrors_take_rushed {c : Client} (hstands : Stands c) (h : c.Accompanies broken)
    {turn : Turn} (hgives : turn.Gives (·.Spares broken)) (hbreak : turn.callbacks.Break broken) :
    Mirrors broken (c.take (turn.rushed broken)) ((c.without broken).take (turn.rushed broken)) :=
  mirrors_take hstands h hgives.rushed hbreak.rushed (turn.callbacks.rush_rushed broken)

section Runs

variable {c : Client} {turns : List Turn} (hundisturbed : c.Undisturbed)
  (h : c.Accompanies broken) (hgives : ∀ turn ∈ turns, turn.Gives (·.Spares broken))
  (hbreak : ∀ turn ∈ turns, turn.callbacks.Break broken)
include hundisturbed h hgives hbreak

theorem run_attended :
    c.run (c.attended broken turns) = c.run (turns.map (Turn.rushed broken)) := by
  induction turns generalizing c with
  | nil => rfl
  | cons turn rest ih =>
    simp only [List.forall_mem_cons] at hgives hbreak
    have hfirst := mirrors_take_rushed hundisturbed.stands h hgives.1 hbreak.1
    simp only [attended, run_append, hundisturbed.stands.run_attend h hgives.1, List.map_cons, run,
      ih (hundisturbed.take hgives.1.rushed.stays) hfirst.accompanies hgives.2 hbreak.2]

/-- For a handler that never waits nothing is to be attended to. -/
theorem run_attended_of_rush (hrush : ∀ turn ∈ turns, turn.callbacks.Rush broken) :
    c.run (c.attended broken turns) = c.run turns := by
  have hsame : turns.map (Turn.rushed broken) = turns := by
    refine (List.map_congr_left fun turn hturn => ?_).trans (List.map_id _)
    rw [Turn.rushed, Callbacks.rushed_of_rush (hrush turn hturn), id]
  rw [run_attended hundisturbed h hgives hbreak, hsame]

/-- A run in which the handler is resumed at once whenever it waits is mirrored by a run without
the handler. -/
theorem mirrors_run_attended :
    Mirrors broken (c.run (c.attended broken turns))
      ((c.without broken).run (turns.map (Turn.rushed broken))) := by
  rw [run_attended hundisturbed h hgives hbreak]
  induction turns generalizing c with
  | nil => exact .refl h []
  | cons turn rest ih =>
    simp only [List.forall_mem_cons] at hgives hbreak
    have hfirst := mirrors_take_rushed hundisturbed.stands h hgives.1 hbreak.1
    exact hfirst.append (f := (run · (rest.map (Turn.rushed broken)))) <|
      ih (hundisturbed.take hgives.1.rushed.stays) hfirst.accompanies hgives.2 hbreak.2

end Runs

end Client

end LineWatch
