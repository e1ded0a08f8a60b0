import LineWatch.Proofs.Connection.Delivery
import LineWatch.Proofs.Connection.HandOut
import LineWatch.Proofs.Connection.Silence

/-!
# What a client remembers of the events that were accepted

The hand-out of an event may take several turns, and it is over when the loop has no event in hand
any more. If an event was accepted and no handler was left out, the client remembers its moment for
good, over all disconnects and reconnects, and offers no older event of the channel. If the client
was disconnected in the middle of a hand-out, the event is forgotten although a handler has
accepted it.
-/

namespace LineWatch

/-- An event whose hand-out is over: whether a handler has accepted it, and whether it has got to
all its handlers. -/
structure HandOut where
  event : StreamEvent
  accepted : Bool
  whole : Bool
  deriving DecidableEq, Repr

/-- What the hand-out leaves behind as the newest moment of a channel. -/
def HandOut.mark? (channel : String) (handOut : HandOut) : Option Int :=
  if handOut.accepted && handOut.whole then momentOn? channel handOut.event else none

namespace Client

/-- The hand-out that is over with this turn. -/
def handOut? (c : Client) (turn : Turn) : Option HandOut :=
  match turn.act with
  | .command _ => none
  | .signal id s =>
    match c.carried? id s, (c.take turn).1.handOf? id with
    | some (event, handlers, delivered), none => some {
        event := event
        accepted := delivered || !(turn.callbacks.acceptedIn (c.take turn).2).isEmpty
        whole := offersIn (c.take turn).2 = handlers.map (·, event) }
    | _, _ => none

/-- The client knows of this moment of the channel, or of a later one. -/
def Recalls (c : Client) (channel : String) (t : Instant) : Prop :=
  ∃ last, c.watermark? channel = some last ∧ t ≤ last

theorem recalls_iff {c : Client} {channel : String} {t : Instant} :
    c.Recalls channel t ↔ ∃ last, c.newest? channel = some last ∧ t.micros ≤ last := by
  constructor
  · rintro ⟨last, hlast, hle⟩
    exact ⟨last.micros, by simp [newest?, hlast], hle⟩
  · rintro ⟨micros, hmicros, hle⟩
    obtain ⟨last, hlast, rfl⟩ := Option.map_eq_some_iff.1 hmicros
    exact ⟨last, hlast, hle⟩

/-! ## The watermarks of a run -/

theorem isEmpty_acceptedIn {callbacks : Callbacks} {emissions : List Emission}
    {event : StreamEvent} {served : List Handler}
    (h : offersIn emissions = served.map (·, event)) :
    (callbacks.acceptedIn emissions).isEmpty = !served.any (callbacks.accepts event) := by
  rw [acceptedIn_of_offersIn h, List.isEmpty_replicate]
  cases hany : served.any (callbacks.accepts event) with
  | false => simpa [List.countP_eq_zero] using hany
  | true => simpa [List.countP_eq_zero] using hany

theorem newest?_marksAfter {c c' : Client} {event : StreamEvent} {accepted : Bool}
    {left : List Handler} (h : c'.watermarks = c.marksAfter event accepted left)
    (channel : String) :
    c'.newest? channel = laterMoment (c.newest? channel)
      (if accepted && left.isEmpty then momentOn? channel event else none) := by
  unfold marksAfter at h
  rw [newest?_congr h, Bool.and_comm]
  split
  · exact newest?_advance c event channel
  · rfl

/-- A hand-out that has come to `served` is over if the loop has nothing in hand any more, and whole
if nobody is left. -/
theorem handOut?_of_serves {callbacks : Callbacks} {c : Client} {id : Nat} {s : Signal}
    {event : StreamEvent} {served left : List Handler} {delivered : Bool}
    (hcarried : c.carried? id s = some (event, served ++ left, delivered))
    (hserves : Serves callbacks event delivered c served left
      ((c.signal callbacks id s).1.handOf? id) (c.signal callbacks id s)) :
    c.handOut? ⟨callbacks, .signal id s⟩ =
      if (c.signal callbacks id s).1.handOf? id = none then
        some ⟨event, delivered || served.any (callbacks.accepts event), left.isEmpty⟩
      else none := by
  have hwhole : offersIn (c.signal callbacks id s).2 = (served ++ left).map (·, event) ↔
      left.isEmpty = true := by
    rw [hserves.offers, List.map_append]
    simp [List.isEmpty_iff]
  simp only [handOut?, Client.take, hcarried]
  cases (c.signal callbacks id s).1.handOf? id with
  | some hand => simp
  | none =>
    simp only [if_true, hwhole, isEmpty_acceptedIn hserves.offers, Bool.not_not,
      Bool.decide_eq_true]

/-- The newest moment of a channel moves with hand-outs that are over, and with nothing else. -/
theorem newest?_take (c : Client) (turn : Turn) (channel : String) :
    (c.take turn).1.newest? channel =
      laterMoment (c.newest? channel) ((c.handOut? turn).bind (·.mark? channel)) := by
  obtain ⟨callbacks, act⟩ := turn
  cases act with
  | command command =>
    have hinert := inert_perform callbacks c command
    exact congrFun (newest?_congr hinert.watermarks) channel
  | signal id s =>
    change (c.signal callbacks id s).1.newest? channel = _
    cases hcarried : c.carried? id s with
    | none =>
      have hnone : c.handOut? ⟨callbacks, .signal id s⟩ = none := by simp [handOut?, hcarried]
      have hidles := idles_of_carried? callbacks hcarried
      rw [hnone]
      exact congrFun (newest?_congr hidles.watermarks) channel
    | some carried =>
      obtain ⟨event, handlers, delivered⟩ := carried
      obtain ⟨served, left, rfl, hserves⟩ := serves_of_carried? callbacks hcarried
      rw [newest?_marksAfter hserves.watermarks channel, handOut?_of_serves hcarried hserves]
      rcases hserves.hand with hover | ⟨hleft, hhand⟩
      · rw [if_pos hover]
        rfl
      · rw [if_neg (by simp [hleft]), if_neg (by simp [hhand])]
        rfl

variable {c : Client} {channel : String} {t : Instant}

theorem Recalls.take (h : c.Recalls channel t) (turn : Turn) : (c.take turn).1.Recalls channel t := by
  rw [recalls_iff] at h ⊢
  obtain ⟨last, hlast, hle⟩ := h
  rw [newest?_take, hlast]
  cases (c.handOut? turn).bind (·.mark? channel) with
  | none => exact ⟨last, rfl, hle⟩
  | some moment => exact ⟨max last moment, rfl, Int.le_trans hle (Int.le_max_left ..)⟩

/-- What a client knows of it knows of for good. -/
theorem Recalls.run (h : c.Recalls channel t) (turns : List Turn) :
    (c.run turns).1.Recalls channel t := by
  induction turns generalizing c with
  | nil => exact h
  | cons turn rest ih => exact ih (h.take turn)

/-- After the hand-out of an accepted event the client knows of its moment if the hand-out has been
whole, or if it has known of it before. -/
theorem recalls_take_iff {turn : Turn} {handOut : HandOut} (hover : c.handOut? turn = some handOut)
    (haccepted : handOut.accepted = true) (hchannel : handOut.event.channel? = some channel)
    (htime : handOut.event.timestamp? = some t) :
    (c.take turn).1.Recalls channel t ↔ handOut.whole = true ∨ c.Recalls channel t := by
  have hmoment : momentOn? channel handOut.event = some t.micros := by
    simp [momentOn?, hchannel, htime]
  have hmark : (c.handOut? turn).bind (·.mark? channel) =
      if handOut.whole then some t.micros else none := by
    simp [hover, HandOut.mark?, haccepted, hmoment]
  rw [recalls_iff, recalls_iff, newest?_take, hmark]
  cases handOut.whole with
  | false => simp [laterMoment]
  | true =>
    refine ⟨fun _ => .inl rfl, fun _ => ?_⟩
    cases c.newest? channel with
    | none => exact ⟨t.micros, rfl, Int.le_refl _⟩
    | some last => exact ⟨max last t.micros, rfl, Int.le_max_right ..⟩

/-! ## Loops that go on -/

/-- A loop that is to be cancelled gets no more frames once the next loop of the client has begun.
Until then it may take those that are there already. -/
def prompt (c : Client) : Act → Bool
  | .signal id (.frame _) =>
    !(c.loop? id).any (·.cancelling) || !(c.task.bind c.loop?).any (·.phase != .scheduled)
  | _ => true

def promptly (c : Client) : List Turn → Bool
  | [] => true
  | turn :: rest => c.prompt turn.act && (c.take turn).1.promptly rest

theorem promptly_append (c : Client) (first later : List Turn) :
    c.promptly (first ++ later) = (c.promptly first && (c.run first).1.promptly later) := by
  induction first generalizing c with
  | nil => rfl
  | cons turn rest ih =>
    simp only [List.cons_append, promptly, ih, Bool.and_assoc]
    rfl

/-- Each of the other loops is new or waits for what it has waited for, and a cancellation that has
been pending is pending still. -/
def LetsBe (id : Nat) (c : Client) (result : Client × List Emission) : Prop :=
  ∀ other l', other ≠ id → result.1.loop? other = some l' → l'.phase = .scheduled ∨
    ∃ l, c.loop? other = some l ∧ l.phase = l'.phase ∧ (l.cancelling = true → l'.cancelling = true)

theorem LetsBe.trans {id : Nat} {c c' c'' : Client} {first later : List Emission}
    (h : LetsBe id c (c', first)) (h' : LetsBe id c' (c'', later)) :
    LetsBe id c (c'', first ++ later) := by
  intro other l'' hother hl''
  rcases h' other l'' hother hl'' with hnew | ⟨l', hl', hphase', hstays'⟩
  · exact .inl hnew
  rcases h other l' hother hl' with hnew | ⟨l, hl, hphase, hstays⟩
  · exact .inl (hphase' ▸ hnew)
  · exact .inr ⟨l, hl, hphase.trans hphase', fun hcancelling => hstays' (hstays hcancelling)⟩

theorem MovedTo.letsBe {c c' : Client} {id : Nat} (h : c.MovedTo id c')
    (emissions : List Emission) : LetsBe id c (c', emissions) := fun other l' hother hl' =>
  .inr ⟨l', (h.loop? other hother).symm.trans hl', rfl, fun hcancelling => hcancelling⟩

theorem letsBe_state (id : Nat) (c : Client) (state : ConnectionState)
    (emissions : List Emission) : LetsBe id c ({ c with state := state }, emissions) :=
  fun _ l' _ hl' => .inr ⟨l', hl', rfl, fun hcancelling => hcancelling⟩

theorem letsBe_halt (id : Nat) (c : Client) : LetsBe id c c.halt := by
  intro other l' _ hl'
  obtain ⟨l, hl, hphase, hstays, -⟩ := exists_loop?_of_halt hl'
  exact .inr ⟨l, hl, hphase, hstays⟩

theorem letsBe_connect (id : Nat) (c : Client) : LetsBe id c c.connect := by
  cases hactive : c.activeLoop? with
  | some own =>
    rw [connect, hactive]
    exact (MovedTo.refl c id).letsBe _
  | none =>
    intro other l' _ hl'
    rw [loop?_connect hactive, Option.or_eq_some_iff] at hl'
    rcases hl' with hl' | ⟨-, hl'⟩
    · exact .inr ⟨l', hl', rfl, fun hcancelling => hcancelling⟩
    · split at hl'
      · exact .inl (Option.some.inj hl' ▸ rfl)
      · cases hl'

theorem lasting_letsBe_halt (id : Nat) :
    Lasting halt haltStory (fun _ => True) fun c result _ => LetsBe id c result where
  rewires h := (h.movedTo id).letsBe []
  trans := .trans
  report c _ _ := (MovedTo.refl c id).letsBe _
  connect _ := letsBe_connect id
  leave _ := letsBe_halt id

theorem narrates_letsBe (callbacks : Callbacks) (id : Nat) :
    Narrates callbacks (fun _ => True) id fun c result _ => LetsBe id c result where
  toLasting := (lasting_letsBe_halt id).lift callbacks.give_any (letsBe_halt id)
    fun c _ _ => letsBe_state id c .disconnected _
  offers {c} _ _ _ := (MovedTo.refl c id).letsBe _
  invokes {c} _ _ _ := (MovedTo.refl c id).letsBe _
  emits c _ _ := (MovedTo.refl c id).letsBe _
  moves h := h.letsBe []
  enters {c} _ state _ := letsBe_state id c state _

/-! ## Events in hand are up to date -/

/-- Of the loops that are not to be cancelled, none has an event in hand that is older than what the
client remembers of its channel. -/
def UpToDate (c : Client) : Prop :=
  ∀ {id : Nat} {l : Loop} {hand : StreamEvent × List Handler × Bool}, c.loop? id = some l →
    l.cancelling = false → l.phase.inHand? = some hand → c.isStale hand.1 = false

theorem isStale_of_sort {frame : Frame} {hand : StreamEvent × List Handler × Bool}
    (h : (c.sort frame).inHand? = some hand) : c.isStale hand.1 = false := by
  have hsorts := c.sorts_sort frame
  cases hsort : c.sort frame with
  | drop | unreadable => simp [hsort, Sorted.inHand?] at h
  | event event handlers =>
    rw [hsort] at h hsorts
    obtain rfl : (event, handlers, false) = hand := Option.some.inj h
    exact hsorts.2.2.2

theorem swallows_of_inHand? {phase : Phase} {hand : StreamEvent × List Handler × Bool}
    (h : phase.inHand? = some hand) (s : Signal) : phase.swallows s = false := by
  cases phase with
  | handling => rfl
  | _ => cases h

section Turn

variable (callbacks : Callbacks) {id : Nat} {l : Loop} {hand : StreamEvent × List Handler × Bool}

/-- A loop that is to be cancelled goes no further with the event that it has in hand. -/
theorem signal_of_cancelling (hloop : c.loop? id = some l) (hcancelling : l.cancelling = true)
    (hhand : l.phase.inHand? = some hand) (s : Signal) :
    Inert c (c.signal callbacks id s) ∧
      ∀ l', (c.signal callbacks id s).1.loop? id = some l' → l'.phase.inHand? ≠ none →
        l'.cancelling = true := by
  obtain ⟨phase, cancelling⟩ := l
  obtain rfl : cancelling = true := hcancelling
  rcases signal_cancelling callbacks hloop (swallows_of_inHand? hhand s) with hcancel | hsame
  · rw [hcancel]
    refine ⟨inert_cancel c id phase, fun l' hl' hphase => absurd ?_ hphase⟩
    rw [loop?_cancel c id phase hl']
    rfl
  · rw [hsame]
    refine ⟨.refl c, fun l' hl' _ => ?_⟩
    obtain rfl := Option.some.inj (hloop.symm.trans hl')
    rfl

/-- What a turn finds in hand is up to date, if the turn does anything with it. -/
theorem UpToDate.carried (h : c.UpToDate) {s : Signal} (hcarried : c.carried? id s = some hand) :
    c.isStale hand.1 = false ∨ ∃ l, c.loop? id = some l ∧ l.cancelling = true ∧
      l.phase.inHand? = some hand := by
  unfold carried? at hcarried
  cases hframe : c.takenFrame? (.signal id s) with
  | some frame =>
    rw [hframe] at hcarried
    dsimp only at hcarried
    split at hcarried
    · cases hcarried
    · exact .inl (isStale_of_sort hcarried)
  | none =>
    rw [hframe] at hcarried
    obtain ⟨l, hloop, hhand⟩ := Option.bind_eq_some_iff.mp hcarried
    cases hcancelling : l.cancelling with
    | false => exact .inl (h hloop hcancelling hhand)
    | true => exact .inr ⟨l, hloop, hcancelling, hhand⟩

/-- No event is offered that is older than what the client remembers of its channel. -/
theorem UpToDate.offers (h : c.UpToDate) (turn : Turn) :
    ∀ offer ∈ offersIn (c.take turn).2, c.isStale offer.2 = false := by
  obtain ⟨callbacks, act⟩ := turn
  intro offer hoffer
  cases act with
  | command command =>
    have hnone : offersIn (c.take ⟨callbacks, .command command⟩).2 = [] :=
      (inert_perform callbacks c command).offers
    simp [hnone] at hoffer
  | signal id s =>
    have hoffer' : offer ∈ offersIn (c.signal callbacks id s).2 := hoffer
    cases hcarried : c.carried? id s with
    | none => simp [(idles_of_carried? callbacks hcarried).offers] at hoffer'
    | some hand =>
      rcases h.carried hcarried with hfresh | ⟨l, hloop, hcancelling, hhand⟩
      · obtain ⟨served, left, -, hserves⟩ := serves_of_carried? callbacks hcarried
        rw [hserves.offers] at hoffer'
        obtain ⟨handler, -, rfl⟩ := List.mem_map.mp hoffer'
        exact hfresh
      · have hinert := (signal_of_cancelling callbacks hloop hcancelling hhand s).1
        simp [hinert.offers] at hoffer'

theorem cancelling_of_abandoned (h : l.Abandoned) (hhand : l.phase.inHand? = some hand) :
    l.cancelling = true :=
  h.resolve_right fun hclosing => by simp [hclosing, Phase.inHand?] at hhand

/-- While a loop that goes on has an event in hand, the other loops move no watermark. -/
theorem watermarks_signal_of_busy (htidy : c.Tidy) {own : Nat} (hown : c.loop? own = some l)
    (hgoing : l.cancelling = false) (hhand : l.phase.inHand? = some hand) (hother : own ≠ id)
    {s : Signal} (hprompt : c.prompt (.signal id s) = true) :
    (c.signal callbacks id s).1.watermarks = c.watermarks := by
  have htask : c.task = some own := by
    refine Classical.byContradiction fun hne => ?_
    have hcancelling := cancelling_of_abandoned (htidy.abandoned hown hne) hhand
    simp [hgoing] at hcancelling
  have hforgotten : c.task ≠ some id := fun h => hother (Option.some.inj (htask.symm.trans h))
  cases hframe : c.takenFrame? (.signal id s) with
  | some frame =>
    obtain ⟨rfl, -, l', hl', hphase⟩ := takenFrame?_eq_some.mp hframe
    have hcancelling : l'.cancelling = true :=
      (htidy.abandoned hl' hforgotten).resolve_right (by simp [hphase])
    have hscheduled : l.phase = .scheduled := by
      simpa [prompt, hl', hcancelling, htask, hown] using hprompt
    simp [hscheduled, Phase.inHand?] at hhand
  | none =>
    cases hhand' : c.handOf? id with
    | none => exact (idles_signal callbacks hframe hhand').watermarks
    | some hand' =>
      obtain ⟨l', hl', hphase⟩ := Option.bind_eq_some_iff.mp hhand'
      have hcancelling := cancelling_of_abandoned (htidy.abandoned hl' hforgotten) hphase
      exact (signal_of_cancelling callbacks hl' hcancelling hphase s).1.watermarks

/-- An event in hand of another loop than the one whose turn it is has been in hand before. -/
theorem LetsBe.inHand {result : Client × List Emission} (h : LetsBe id c result) {other : Nat}
    (hother : other ≠ id) (hl : result.1.loop? other = some l) (hgoing : l.cancelling = false)
    (hhand : l.phase.inHand? = some hand) :
    ∃ l', c.loop? other = some l' ∧ l'.cancelling = false ∧ l'.phase.inHand? = some hand := by
  rcases h other l hother hl with hnew | ⟨l', hl', hphase, hstays⟩
  · simp [hnew, Phase.inHand?] at hhand
  · refine ⟨l', hl', ?_, by rw [hphase, hhand]⟩
    cases hcancelling : l'.cancelling with
    | false => rfl
    | true => simp [hstays hcancelling] at hgoing

end Turn

theorem UpToDate.take (h : c.UpToDate) (htidy : c.Tidy) {turn : Turn}
    (hprompt : c.prompt turn.act = true) : (c.take turn).1.UpToDate := by
  obtain ⟨callbacks, act⟩ := turn
  intro own l hand hl hgoing hhand
  cases act with
  | command command =>
    have hletsBe : LetsBe (own + 1) c (c.perform callbacks command) :=
      (narrates_letsBe callbacks (own + 1)).performWith c trivial
    obtain ⟨l', hl', hgoing', hhand'⟩ := hletsBe.inHand (by omega) hl hgoing hhand
    exact (isStale_congr (inert_perform callbacks c command).watermarks _).trans
      (h hl' hgoing' hhand')
  | signal id s =>
    have hl' : (c.signal callbacks id s).1.loop? own = some l := hl
    by_cases hown : own = id
    · subst hown
      have hhand' : (c.signal callbacks own s).1.handOf? own = some hand := by
        rw [handOf?, hl', Option.bind_some, hhand]
      cases hcarried : c.carried? own s with
      | none => simp [(idles_of_carried? callbacks hcarried).hand] at hhand'
      | some carried =>
        rcases h.carried hcarried with hfresh | ⟨l', hloop, hcancelling, hcarry⟩
        · obtain ⟨served, left, -, hserves⟩ := serves_of_carried? callbacks hcarried
          obtain ⟨hleft, hsame⟩ : left ≠ [] ∧ _ :=
            hserves.hand.resolve_left (by simp [hhand'])
          obtain rfl := Option.some.inj (hhand'.symm.trans hsame)
          have hmarks : (c.signal callbacks own s).1.watermarks = c.watermarks := by
            rw [hserves.watermarks, marksAfter, if_neg (by simp [hleft])]
          exact (isStale_congr hmarks _).trans hfresh
        · have hpending := (signal_of_cancelling callbacks hloop hcancelling hcarry s).2 l hl'
            (by simp [hhand])
          simp [hgoing] at hpending
    · have hletsBe : LetsBe id c (c.signal callbacks id s) :=
        (narrates_letsBe callbacks id).signal callbacks.give_any htidy s
      obtain ⟨l', hl', hgoing', hhand'⟩ := hletsBe.inHand hown hl' hgoing hhand
      have hsame := watermarks_signal_of_busy callbacks htidy hl' hgoing' hhand' hown hprompt
      exact (isStale_congr hsame _).trans (h hl' hgoing' hhand')

theorem UpToDate.run (h : c.UpToDate) (htidy : c.Tidy) {turns : List Turn}
    (hprompt : c.promptly turns = true) : (c.run turns).1.UpToDate := by
  induction turns generalizing c with
  | nil => exact h
  | cons turn rest ih =>
    rw [promptly, Bool.and_eq_true] at hprompt
    exact ih (h.take htidy hprompt.1) (htidy.take turn) hprompt.2

/-- The event is not older than this moment of the channel, or not one of the channel. -/
def NotBefore (channel : String) (t : Instant) (event : StreamEvent) : Prop :=
  event.channel? = some channel → ∀ u, event.timestamp? = some u → t ≤ u

theorem Recalls.notBefore (h : c.Recalls channel t) {event : StreamEvent}
    (hfresh : c.isStale event = false) : NotBefore channel t event := by
  intro hchannel u htime
  obtain ⟨last, hlast, hle⟩ := h
  have hnot : ¬u < last := by simpa [isStale, hchannel, htime, hlast] using hfresh
  exact Int.le_trans hle (Int.not_lt.mp hnot)

/-- What a client remembers keeps older events from its handlers in all that follows. -/
theorem Recalls.offers_run (h : c.Recalls channel t) (hup : c.UpToDate) (htidy : c.Tidy)
    {turns : List Turn} (hprompt : c.promptly turns = true) :
    ∀ offer ∈ offersIn (c.run turns).2, NotBefore channel t offer.2 := by
  induction turns generalizing c with
  | nil => simp [Client.run, offersIn]
  | cons turn rest ih =>
    rw [promptly, Bool.and_eq_true] at hprompt
    intro offer hoffer
    simp only [Client.run, offersIn_append, List.mem_append] at hoffer
    rcases hoffer with hfirst | hlater
    · exact h.notBefore (hup.offers turn offer hfirst)
    · exact ih (h.take turn) (hup.take htidy hprompt.1) (htidy.take turn) hprompt.2 offer hlater

/-- In whatever run, through disconnects and reconnects: an event whose hand-out is over and that a
handler has accepted is remembered for good, and no older event of its channel offered any more,
exactly if the hand-out has left out no handler or the client has known of the moment before. -/
theorem accepted_event_remembered_iff (connectedEvent : String) (backoff : Backoff)
    (turns : List Turn) {turn : Turn} {handOut : HandOut} {channel : String} {t : Instant}
    (hover : ((fresh connectedEvent backoff).run turns).1.handOut? turn = some handOut)
    (haccepted : handOut.accepted = true) (hchannel : handOut.event.channel? = some channel)
    (htime : handOut.event.timestamp? = some t) :
    let start := fresh connectedEvent backoff
    let before := (start.run turns).1
    let after := (before.take turn).1
    (∀ later, (after.run later).1.Recalls channel t ∧
        (start.promptly (turns ++ turn :: later) = true →
          ∀ offer ∈ offersIn (after.run later).2, NotBefore channel t offer.2)) ↔
      handOut.whole = true ∨ before.Recalls channel t := by
  intro start before after
  have hafter : after.Recalls channel t ↔ handOut.whole = true ∨ before.Recalls channel t :=
    recalls_take_iff hover haccepted hchannel htime
  rw [← hafter]
  constructor
  · intro h
    exact (h []).1
  · intro hrecalls later
    refine ⟨hrecalls.run later, fun hprompt => ?_⟩
    have htidy : start.Tidy := tidy_fresh connectedEvent backoff
    have hup : start.UpToDate := by simp [UpToDate, start, fresh, loop?]
    rw [promptly_append, Bool.and_eq_true, promptly, Bool.and_eq_true] at hprompt
    obtain ⟨hbefore, hturn, hlater⟩ := hprompt
    have hup' : before.UpToDate := hup.run htidy hbefore
    have htidy' : before.Tidy := htidy.run turns
    exact hrecalls.offers_run (hup'.take htidy' hturn) (htidy'.take turn) hlater

/-- The first attempt ends, somebody connects again, and an older event comes in. -/
def olderAgain : List Act := [
  .signal 0 .cancelled, .signal 0 .closed, .command .connect, .signal 1 .begun, .signal 1 .opened,
  .signal 1 (.frame (statusFrame "2024-01-01T00:00:00Z"))]

/-- The handler that disconnects comes last, so nobody is left out. -/
theorem last_handler_leaves :
    let start := fresh "connected" doubling
    let turns : List Turn := [
      ⟨leaveFirst, .command (.subscribe "two" "line.status" (.named "second"))⟩,
      ⟨leaveFirst, .command (.subscribe "one" "line.status" (.named "first"))⟩,
      ⟨leaveFirst, .command .connect⟩, ⟨leaveFirst, .signal 0 .begun⟩,
      ⟨leaveFirst, .signal 0 .opened⟩]
    let turn : Turn := ⟨leaveFirst, .signal 0 (.frame (statusFrame "2024-01-01T00:00:01Z"))⟩
    let before := (start.run turns).1
    let result := (before.take turn).1.run (olderAgain.map (⟨leaveFirst, ·⟩))
    (before.watermark? "line.status:a").isNone = true ∧
      (∃ last, result.1.watermark? "line.status:a" = some last ∧ 1704067201000000 ≤ last.micros) ∧
      ∀ offer ∈ offersIn result.2, offer.2.channel? = some "line.status:a" →
        ∀ u, offer.2.timestamp? = some u → 1704067201000000 ≤ u.micros := by
  intro start turns turn before result
  have hsome : (before.handOut? turn).isSome = true := by decide +kernel
  obtain ⟨handOut, hover⟩ := Option.isSome_iff_exists.1 hsome
  have hhanded : (before.handOut? turn).map (fun handOut => (handOut.accepted, handOut.whole,
      handOut.event.channel?, handOut.event.timestamp?.map (·.micros))) =
      some (true, true, some "line.status:a", some 1704067201000000) := by decide +kernel
  simp only [hover, Option.map_some, Option.some.injEq, Prod.mk.injEq] at hhanded
  obtain ⟨haccepted, hwhole, hchannel, htime⟩ := hhanded
  obtain ⟨t, htime, hmicros⟩ := Option.map_eq_some_iff.1 htime
  obtain ⟨⟨last, hlast, hle⟩, hoffers⟩ := (accepted_event_remembered_iff "connected" doubling turns
    hover haccepted hchannel htime).mpr (.inl hwhole) (olderAgain.map (⟨leaveFirst, ·⟩))
  refine ⟨by decide +kernel, ⟨last, hlast, hmicros ▸ hle⟩, ?_⟩
  intro offer hoffer hchannel' u htime'
  exact hmicros ▸ hoffers (by decide +kernel) offer hoffer hchannel' u htime'

/-- The first handler accepts an event and disconnects, so the second one is left out. Then the
client knows of no moment of the channel, and once it is connected again it offers an older
event. -/
theorem accepted_event_forgotten :
    let start := fresh "connected" doubling
    let turns : List Turn := toFirstFrames.map (⟨leaveFirst, ·⟩)
    let turn : Turn := ⟨leaveFirst, .signal 0 (.frame (statusFrame "2024-01-01T00:00:01Z"))⟩
    let before := (start.run turns).1
    let taken := before.take turn
    let later : List Turn := olderAgain.map (⟨leaveFirst, ·⟩)
    start.promptly (turns ++ turn :: later) = true ∧
      (before.handOut? turn).map (fun handOut => (handOut.accepted, handOut.whole)) =
        some (true, false) ∧
      newestOn? "line.status:a" (leaveFirst.acceptedIn taken.2) = some 1704067201000000 ∧
      (taken.1.watermark? "line.status:a").isNone = true ∧
      (offersIn (taken.1.run later).2).map (fun offer =>
          (offer.1, offer.2.channel?, offer.2.timestamp?.map (·.micros))) =
        [(.named "first", some "line.status:a", some 1704067200000000)] := by
  decide +kernel

end Client

end LineWatch
