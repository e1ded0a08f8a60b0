import LineWatch.Proofs.Connection.Attempt
import LineWatch.Proofs.Connection.Round
import LineWatch.Proofs.Connection.Tally

/-!
# Handlers get what is due to them

In a run in which nobody disconnects, the client is idle at first and then has one loop that goes
on for ever. Every turn keeps offers and watermarks in tally with the diary, so over the whole
run, across all reconnects, the handlers are offered what the frames that came in have made due,
in their order.
-/

namespace LineWatch

namespace Client

/-- The one loop of the client has come to `phase` and is not ending. -/
structure Going (c : Client) (id : Nat) (phase : Phase) : Prop extends c.Running id phase where
  alone : c.loops.map (·.1) = [id]
  uncancelled : phase ≠ .closing .cancelled

/-- How a client stands that nobody has disconnected. -/
inductive Stands (c : Client) : Prop where
  | idle (closed : c.closed = true) (task : c.task = none) (loops : c.loops = [])
  | going (id : Nat) (phase : Phase) (going : c.Going id phase)

/-- After the turn the client stands and tallies again. -/
structure TurnTallies (c : Client) (offered : List (Handler × StreamEvent)) (diary : Diary)
    (turn : Turn) : Prop where
  stands : Stands (c.take turn).1
  tallies : Tallies (c.take turn).1 (offered ++ offersIn (c.take turn).2) (diary.note c turn)

theorem Moves.offers {c : Client} {id : Nat} {phase : Phase} {news : List Emission}
    {watermarks : Keyed Instant} {result : Client × List Emission}
    (h : Moves c id phase news watermarks result) : offersIn result.2 = offersIn news := by
  rw [← offersIn_frameNews, h.news]

theorem Going.stands {c : Client} {id : Nat} {phase phase' : Phase} {news : List Emission}
    {watermarks : Keyed Instant} {result : Client × List Emission} (hgoing : c.Going id phase)
    (h : Moves c id phase' news watermarks result) (hphase' : phase' ≠ .closing .cancelled) :
    Stands result.1 :=
  .going id phase' ⟨h.running, h.loops.trans hgoing.alone, hphase'⟩

variable {c : Client} {offered : List (Handler × StreamEvent)} {diary : Diary}
  {callbacks : Callbacks}

/-- A turn of the loop that has nothing to do with offers. -/
theorem Going.aside {id : Nat} {phase phase' : Phase} {news : List Emission} {turn : Turn}
    (hgoing : c.Going id phase) (h : Tallies c offered diary)
    (hmoves : Moves c id phase' news c.watermarks (c.take turn))
    (hphase' : phase' ≠ .closing .cancelled) (hhand : phase'.inHand? = phase.inHand?)
    (hoffers : offersIn news = []) (hdue : c.dueIn diary.accepted turn.act = []) :
    TurnTallies c offered diary turn := by
  have hsame : (c.take turn).1.inHand? = c.inHand? := by
    rw [hmoves.running.inHand?, hgoing.inHand?, hhand]
  exact ⟨hgoing.stands hmoves hphase',
    h.aside hsame hmoves.watermarks (hmoves.offers.trans hoffers) hdue⟩

/-- A frame other than the handshake comes in. -/
theorem Going.frame (hstay : callbacks.HandlersStay) {id : Nat} {frame : Frame}
    (hgoing : c.Going id .receiving) (hframe : frame.event ≠ c.connectedEvent)
    (h : Tallies c offered diary) :
    TurnTallies c offered diary ⟨callbacks, .signal id (.frame frame)⟩ := by
  have hrun := hgoing.toRunning
  have hhand : c.inHand? = none := hrun.inHand?
  have hnewest : ∀ channel, c.newest? channel = newestOn? channel diary.accepted := by
    intro channel
    rw [← h.newest channel, newestInHand?, hhand]
  have hall : offered = diary.due := by
    simpa [outstanding, hhand] using h.offers
  have hdue : c.dueIn diary.accepted (.signal id (.frame frame)) =
      c.dueTo diary.accepted frame := by
    simp [dueIn, takesFrame, hrun.closed, hrun.loop?, hframe]
  rw [dueTo_of_sort hnewest] at hdue
  cases hsort : c.sort frame with
  | drop reason notices =>
    rw [hsort] at hdue
    exact hgoing.aside h (moves_drop callbacks hrun hframe hsort) (by simp) rfl rfl hdue
  | unreadable =>
    rw [hsort] at hdue
    exact hgoing.aside h (moves_unreadable callbacks hrun hframe hsort) (by simp) rfl rfl hdue
  | event event handlers =>
    rw [hsort] at hdue
    obtain ⟨served, left, rfl, hmoves⟩ := moves_event hstay hrun hframe hsort
    refine ⟨hgoing.stands hmoves Phase.before_ne_closing, ?_⟩
    refine Tallies.offer false ?_ hnewest hmoves ?_
    · rw [hdue, hall]
    · exact hmoves.offers.trans (offersIn_map_offered served event)

/-- The handler that has waited goes on. -/
theorem Going.resumed (hstay : callbacks.HandlersStay) {id : Nat} {tag : String}
    {event : StreamEvent} {current : Handler} {rest : List Handler} {delivered : Bool}
    (hgoing : c.Going id (.handling tag event current rest delivered))
    (h : Tallies c offered diary) :
    TurnTallies c offered diary ⟨callbacks, .signal id .resumed⟩ := by
  have hrun := hgoing.toRunning
  have hhand : c.inHand? = some (event, current :: rest, delivered) := hrun.inHand?
  obtain ⟨served, left, rfl, hmoves⟩ := moves_resumed hstay hrun
  refine ⟨hgoing.stands hmoves Phase.before_ne_closing, ?_⟩
  refine Tallies.offer delivered ?_ ?_ hmoves ?_
  · have hdue : c.dueIn diary.accepted (.signal id .resumed) = [] := rfl
    rw [hdue, List.append_nil, ← h.offers, outstanding, hhand]
    rfl
  · intro channel
    rw [← h.newest channel, newestInHand?, hhand]
    cases delivered <;> rfl
  · exact hmoves.offers.trans (offersIn_map_offered (current :: served) event)

theorem Going.signal (hhandlers : callbacks.HandlersStay) (hlisteners : callbacks.ListenersStay)
    {id : Nat} {phase : Phase} (hgoing : c.Going id phase) (h : Tallies c offered diary)
    (s : Signal) : TurnTallies c offered diary ⟨callbacks, .signal id s⟩ := by
  have hrun := hgoing.toRunning
  cases c.heard phase s with
  | frame frame hevent => exact hgoing.frame hhandlers hevent h
  | resumed tag event current rest delivered => exact hgoing.resumed hhandlers h
  | aside hshake hnone =>
    obtain ⟨phase', hhand, hphase', hmoves⟩ :=
      moves_aside hlisteners hrun hgoing.uncancelled s hshake hnone
    refine hgoing.aside h hmoves hphase' hhand rfl ?_
    apply dueIn_of_not_taken
    intro id' frame hact htakes
    obtain ⟨rfl, rfl⟩ : id = id' ∧ s = .frame frame := by simpa using hact
    have hreceiving : phase = .receiving := by
      simpa [takesFrame, hrun.closed, hrun.loop?] using htakes
    exact hshake hreceiving frame rfl

/-- A signal to a loop that is none of the client's. -/
theorem Stands.unheard {id : Nat} (hstands : Stands c) (hloop : c.loop? id = none)
    (h : Tallies c offered diary) (s : Signal) :
    TurnTallies c offered diary ⟨callbacks, .signal id s⟩ := by
  have hsame := take_unheard hloop callbacks s
  refine ⟨by rwa [hsame], h.aside (by rw [hsame]) (by rw [hsame]) (by rw [hsame]; rfl) ?_⟩
  apply dueIn_of_not_taken
  intro id' frame hact htakes
  obtain ⟨rfl, -⟩ : id = id' ∧ s = .frame frame := by simpa using hact
  simp [takesFrame, hloop] at htakes

/-- A client that is not connected begins its first attempt. -/
theorem going_connect (htask : c.task = none) (hloops : c.loops = []) :
    c.connect.1.Going c.nextLoop .scheduled ∧ c.connect.1.watermarks = c.watermarks ∧
      c.connect.2 = [] := by
  have hinactive : c.activeLoop? = none := by simp [activeLoop?, htask]
  rw [connect, hinactive]
  exact ⟨⟨⟨rfl, rfl, by simp [loop?, hloops]⟩, by simp [hloops], by simp⟩, rfl, rfl⟩

theorem Stands.command (hstands : Stands c) {command : Command} (hleave : command ≠ .disconnect)
    (h : Tallies c offered diary) : TurnTallies c offered diary ⟨callbacks, .command command⟩ := by
  cases hstands with
  | idle hclosed htask hloops =>
    have hhand : c.inHand? = none := inHand?_of_no_task htask
    by_cases hconnect : command = .connect
    · subst hconnect
      obtain ⟨hgoing, hmarks, hemissions⟩ := going_connect htask hloops
      have hhand' : c.connect.1.inHand? = none := hgoing.inHand?
      exact ⟨.going _ _ hgoing, h.aside (hhand'.trans hhand.symm) hmarks
        (congrArg offersIn hemissions) rfl⟩
    · have haside : Aside c (c.take ⟨callbacks, .command command⟩) :=
        aside_rewiring c hconnect hleave
      have htask' := haside.link.task.trans htask
      have hoffers : offersIn (c.take ⟨callbacks, .command command⟩).2 = [] := by
        rw [← offersIn_frameNews, haside.news]
        rfl
      refine ⟨.idle (haside.link.closed.trans hclosed) htask' (haside.link.loops.trans hloops), ?_⟩
      exact h.aside ((inHand?_of_no_task htask').trans hhand.symm) haside.watermarks hoffers rfl
  | going id phase hgoing =>
    have haside : Aside c (c.take ⟨callbacks, .command command⟩) :=
      aside_performWith hgoing.active hleave
    exact hgoing.aside h (haside.moves hgoing.toRunning) hgoing.uncancelled rfl rfl rfl

theorem eq_of_alone {own id : Nat} (halone : c.loops.map (·.1) = [own])
    (hloop : c.loop? id ≠ none) : id = own := by
  obtain ⟨⟨k, l⟩, hl, hk⟩ := List.map_eq_singleton_iff.1 halone
  obtain rfl : k = own := hk
  by_cases hid : id = k
  · exact hid
  · have hne : (id == k) = false := by simpa using hid
    have hnone : c.loop? id = none := by simp [loop?, hl, List.lookup_cons, hne]
    exact absurd hnone hloop

/-- A loop that has not ended is the one loop of the client. -/
theorem Stands.going_of_loop (hstands : Stands c) {id : Nat} (hloop : c.loop? id ≠ none) :
    ∃ phase, c.Going id phase := by
  cases hstands with
  | idle _ _ hloops => exact absurd (by simp [loop?, hloops]) hloop
  | going own phase hgoing =>
    obtain rfl : id = own := eq_of_alone hgoing.alone hloop
    exact ⟨phase, hgoing⟩

theorem Stands.take (hstands : Stands c) (h : Tallies c offered diary) {turn : Turn}
    (hstays : turn.Stays) : TurnTallies c offered diary turn := by
  obtain ⟨callbacks, act⟩ := turn
  cases act with
  | command command =>
    have hleave : command ≠ .disconnect := fun hc => hstays.act (by rw [hc])
    exact hstands.command hleave h
  | signal id s =>
    by_cases hloop : c.loop? id = none
    · exact hstands.unheard hloop h s
    obtain ⟨phase, hgoing⟩ := hstands.going_of_loop hloop
    exact hgoing.signal hstays.handlers hstays.listeners h s

theorem Tallies.run {turns : List Turn} (hstands : Stands c) (h : Tallies c offered diary)
    (hstays : ∀ turn ∈ turns, turn.Stays) :
    Tallies (c.run turns).1 (offered ++ offersIn (c.run turns).2) (c.diary diary turns) := by
  induction turns generalizing c offered diary with
  | nil => simpa [Client.run, Client.diary, offersIn] using h
  | cons turn rest ih =>
    have hturn := hstands.take h (hstays turn List.mem_cons_self)
    have hrest := ih hturn.stands hturn.tallies fun t ht => hstays t (List.mem_cons_of_mem _ ht)
    simpa [Client.run, Client.diary, offersIn] using hrest

/-- A client that nobody has disconnected, with the offers and watermarks of its run so far. -/
structure Undisturbed (c : Client) : Prop where
  stands : Stands c
  tallies : ∃ offered diary, Tallies c offered diary

theorem undisturbed_fresh (connectedEvent : String) (backoff : Backoff) :
    (fresh connectedEvent backoff).Undisturbed :=
  ⟨.idle rfl rfl rfl, [], {}, rfl, fun _ => rfl⟩

theorem Undisturbed.take (h : c.Undisturbed) {turn : Turn} (hstays : turn.Stays) :
    (c.take turn).1.Undisturbed := by
  obtain ⟨offered, diary, htallies⟩ := h.tallies
  have hturn := h.stands.take htallies hstays
  exact ⟨hturn.stands, _, _, hturn.tallies⟩

theorem Undisturbed.run (h : c.Undisturbed) {turns : List Turn}
    (hstays : ∀ turn ∈ turns, turn.Stays) : (c.run turns).1.Undisturbed := by
  induction turns generalizing c with
  | nil => exact h
  | cons turn rest ih =>
    exact ih (h.take (hstays turn List.mem_cons_self)) fun later hlater =>
      hstays later (List.mem_cons_of_mem _ hlater)

/-- However the attempts, the frames and the handlers turn out: as long as nobody disconnects,
the handlers get what is due to them, in order and once. While no event is in hand, the watermark
of a channel is the greatest timestamp that has been accepted on it. -/
theorem offers_are_due (connectedEvent : String) (backoff : Backoff) (turns : List Turn)
    (hstays : ∀ turn ∈ turns, turn.Stays) :
    let start := fresh connectedEvent backoff
    let result := start.run turns
    let diary := start.diary {} turns
    offersIn result.2 ++ result.1.outstanding = diary.due ∧
      (result.1.inHand? = none →
        ∀ channel, (result.1.watermark? channel).map (·.micros) =
          newestOn? channel diary.accepted) := by
  intro start result diary
  have hstart : Tallies start [] {} := ⟨rfl, fun _ => rfl⟩
  have h : Tallies result.1 ([] ++ offersIn result.2) diary :=
    hstart.run (.idle rfl rfl rfl) hstays
  refine ⟨h.offers, ?_⟩
  intro hnone channel
  have hnewest := h.newest channel
  rwa [newestInHand?, hnone] at hnewest

/-- Two handlers of status events, and a first attempt that has come to its frames. -/
def toFirstFrames : List Act := [
  .command (.subscribe "one" "line.status" (.named "first")),
  .command (.subscribe "two" "line.status" (.named "second")),
  .command .connect, .signal 0 .begun, .signal 0 .opened]

/-- An event comes in, and after a reconnect an older one and the same once more. -/
def replayed : List Act := toFirstFrames ++ [
  .signal 0 (.frame (statusFrame "2024-01-01T00:00:00Z")), .signal 0 .resumed,
  .signal 0 .ended, .signal 0 .closed, .signal 0 .woken, .signal 0 .opened,
  .signal 0 (.frame (statusFrame "2023-12-31T23:59:59Z")),
  .signal 0 (.frame (statusFrame "2024-01-01T00:00:00Z")), .signal 0 .resumed]

theorem replay_offered :
    let result := (fresh "connected" doubling).run (replayed.map (⟨failThenWait, ·⟩))
    (offersIn result.2).map (fun offer => (offer.1, offer.2.timestamp?.map (·.micros))) = [
        (.named "first", some 1704067200000000), (.named "second", some 1704067200000000),
        (.named "first", some 1704067200000000), (.named "second", some 1704067200000000)] ∧
      (result.1.watermark? "line.status:a").map (·.micros) = some 1704067200000000 := by
  intro result
  have hacts : ∀ act ∈ replayed, act ≠ .command .disconnect := by decide
  have hstays : ∀ turn ∈ replayed.map (⟨failThenWait, ·⟩), Turn.Stays turn := by
    intro turn hturn
    obtain ⟨act, hact, rfl⟩ := List.mem_map.1 hturn
    refine ⟨failThenWait_handlersStay, ?_, hacts act hact⟩
    intro listener state commands h
    obtain rfl : [] = commands := by simpa [failThenWait] using h
    exact List.not_mem_nil
  obtain ⟨hoffers, hnewest⟩ := offers_are_due "connected" doubling _ hstays
  have hhand : result.1.inHand?.isNone = true := by decide +kernel
  have hnone : result.1.inHand? = none := by simpa using hhand
  have hout : result.1.outstanding = [] := by rw [outstanding, hnone]
  refine ⟨?_, ?_⟩
  · have hall : offersIn result.2 = ((fresh "connected" doubling).diary {}
        (replayed.map (⟨failThenWait, ·⟩))).due := by
      rw [← hoffers]
      change _ = _ ++ result.1.outstanding
      rw [hout, List.append_nil]
    rw [hall]
    decide +kernel
  · rw [hnewest hnone]
    decide +kernel

/-- The handshake is not offered to a handler of its tag. While the second handler waits, the
watermark does not know of the event that the first one has accepted. A disconnect in that moment
leaves the second handler without the event. -/
theorem delivery_exceptions :
    let prompt : Callbacks := ⟨fun _ _ => {}, fun _ _ => .ok []⟩
    let slow : Callbacks := ⟨fun h _ => { suspends := h = .named "second" }, fun _ _ => .ok []⟩
    let handshake : Frame := { event := "connected", data := "\x7b\"client_id\": \"c-1\"\x7d" }
    let listening := ((fresh "connected" doubling).run
      ((Act.command (.subscribe "three" "connected" (.named "third")) :: toFirstFrames).map
        (⟨prompt, ·⟩))).1
    let shaken := listening.signal prompt 0 (.frame handshake)
    let halfway := shaken.1.signal slow 0 (.frame (statusFrame "2024-01-01T00:00:00Z"))
    let left := halfway.1.perform prompt .disconnect
    let ended := left.1.signal prompt 0 .resumed
    listening.dueTo [] handshake = [(.named "third", .connected (some "c-1"))] ∧
      offersIn shaken.2 = [] ∧ shaken.1.outstanding = [] ∧
      newestOn? "line.status:a" (slow.acceptedIn halfway.2) = some 1704067200000000 ∧
      (halfway.1.watermark? "line.status:a").isNone = true ∧
      halfway.1.outstanding.map (·.1) = [.named "second"] ∧
      offersIn left.2 = [] ∧ offersIn ended.2 = [] ∧
      (ended.1.loop? 0).map (·.phase) = some (.closing .cancelled) := by
  decide +kernel

end Client

end LineWatch
