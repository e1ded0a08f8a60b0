import LineWatch.Proofs.Connection.Delivery
import LineWatch.Proofs.Connection.Succession
import LineWatch.Proofs.Number.Growth
import Mathlib.Data.List.Chain

/-!
# Attempts and the sleeps between them

As long as nobody disconnects, a client makes one attempt after another. The course of a run notes
when an attempt begins, when it gets to the handshake and when it ends, and puts one sleep after
each end; how long that sleep is depends on the course so far. A run opens its transports and goes
to sleep exactly as its course says, and its loop never ends.
-/

namespace LineWatch

/-- What a loop does between its waits, as far as the pace of its attempts is concerned. -/
inductive Leg where
  | opens
  | sleeps (delay : Binary64)
  deriving DecidableEq, Repr

def Emission.leg? : Emission → Option Leg
  | .opening _ => some .opens
  | .sleeping delay => some (.sleeps delay)
  | _ => none

def legsIn (emissions : List Emission) : List Leg := emissions.filterMap (·.leg?)

@[simp] theorem legsIn_append (first later : List Emission) :
    legsIn (first ++ later) = legsIn first ++ legsIn later := List.filterMap_append ..

theorem Emission.leg?_of_isReport {emission : Emission} (h : emission.isReport = true) :
    emission.leg? = none := by
  cases emission <;> first | rfl | cases h

def Emission.header? : Emission → Option (Option String)
  | .opening lastEventId => some lastEventId
  | _ => none

/-- The identifiers with which transports are opened. -/
def headersIn (emissions : List Emission) : List (Option String) :=
  emissions.filterMap (·.header?)

@[simp] theorem headersIn_append (first later : List Emission) :
    headersIn (first ++ later) = headersIn first ++ headersIn later := List.filterMap_append ..

/-- Without the leg that opens a transport there is no header. -/
theorem headersIn_eq_nil {emissions : List Emission} (h : .opens ∉ legsIn emissions) :
    headersIn emissions = [] := by
  rw [headersIn, List.filterMap_eq_nil_iff]
  intro emission hemission
  cases emission with
  | opening lastEventId =>
    have hleg : Leg.opens ∈ legsIn emissions := List.mem_filterMap.mpr ⟨_, hemission, rfl⟩
    exact absurd hleg h
  | _ => rfl

/-- What a turn means for an attempt. -/
inductive Milestone where
  | begins
  | shakes
  | ends
  deriving DecidableEq, Repr

def Phase.milestone? (connectedEvent : String) : Phase → Signal → Option Milestone
  | .scheduled, .begun | .sleeping, .woken => some .begins
  | .receiving, .frame frame => if frame.event = connectedEvent then some .shakes else none
  | .opening, .openFailed _ | .closing _, .closed => some .ends
  | _, _ => none

def Client.milestone? (c : Client) : Act → Option Milestone
  | .signal id s => (c.loop? id).bind fun l => l.phase.milestone? c.connectedEvent s
  | .command _ => none

/-- The sleep after an attempt, and whether there was a handshake during the attempt. -/
structure Rest where
  shaken : Bool
  delay : Binary64
  deriving DecidableEq, Repr

/-- The sleeps so far, whether an attempt is under way, and whether there has been a handshake
since the last sleep. -/
structure Course where
  rests : List Rest := []
  underWay : Bool := false
  shaken : Bool := false
  deriving DecidableEq, Repr

namespace Course

/-- How long to sleep after the attempt: for the floor after the first one and after a handshake,
otherwise for longer than the time before. -/
def delay (course : Course) (b : Backoff) : Binary64 :=
  match course.rests.getLast? with
  | none => b.floor
  | some last => if course.shaken then b.floor else b.grown last.delay

def note (b : Backoff) (course : Course) : Option Milestone → Course
  | some .begins => { course with underWay := true }
  | some .shakes => { course with shaken := true }
  | some .ends => { rests := course.rests ++ [⟨course.shaken, course.delay b⟩] }
  | none => course

/-- Each attempt that has ended is followed by one sleep, and each sleep by one attempt. -/
def legs (course : Course) : List Leg :=
  course.rests.flatMap (fun rest => [.opens, .sleeps rest.delay]) ++
    if course.underWay then [.opens] else []

theorem delay_shaken (course : Course) (b : Backoff) :
    Course.delay { course with shaken := true } b = b.floor := by
  unfold delay
  split <;> rfl

theorem delay_ended (rests : List Rest) (rest : Rest) (b : Backoff) :
    Course.delay { rests := rests ++ [rest] } b = b.grown rest.delay := by
  simp [delay]

/-- The sleeps of a course as the backoff has them. -/
structure Paced (b : Backoff) (course : Course) : Prop where
  first : ∀ rest ∈ course.rests.head?, rest.delay = b.floor
  later : course.rests.IsChain fun earlier later =>
    later.delay = if later.shaken then b.floor else b.grown earlier.delay
  within : ∀ rest ∈ course.rests, b.Within rest.delay

variable {b : Backoff} {course : Course}

theorem Paced.delay_within (h : course.Paced b) (hb : b.Sound) : b.Within (course.delay b) := by
  unfold delay
  cases hlast : course.rests.getLast? with
  | none => exact hb.within_floor
  | some last =>
    have hmem : last ∈ course.rests := List.mem_of_getLast? hlast
    dsimp only
    split
    · exact hb.within_floor
    · exact hb.within_grown (h.within last hmem)

theorem Paced.note (h : course.Paced b) (hb : b.Sound) (milestone? : Option Milestone) :
    (course.note b milestone?).Paced b := by
  match milestone? with
  | none => exact h
  | some .begins | some .shakes => exact ⟨h.first, h.later, h.within⟩
  | some .ends =>
    refine ⟨?_, ?_, ?_⟩
    · cases hrests : course.rests with
      | nil => simp [Course.note, hrests, delay]
      | cons rest rests => simpa [Course.note, hrests] using h.first
    · refine h.later.append (List.isChain_singleton _) ?_
      intro earlier hearlier later hlater
      obtain rfl : ⟨course.shaken, course.delay b⟩ = later := by simpa using hlater
      have hlast : course.rests.getLast? = some earlier := hearlier
      simp [delay, hlast]
    · intro rest hrest
      rcases List.mem_append.1 hrest with hearlier | hlast
      · exact h.within rest hearlier
      · obtain rfl : rest = ⟨course.shaken, course.delay b⟩ := by simpa using hlast
        exact h.delay_within hb

/-- Between two handshakes no sleep is shorter than the one before. -/
theorem Paced.grows (h : course.Paced b) (hb : b.Sound) :
    course.rests.IsChain fun earlier later =>
      later.shaken = false → earlier.delay.le later.delay = true := by
  refine h.later.imp_of_mem_imp fun {earlier later} hearlier _ hdelay hshaken => ?_
  rw [hdelay, hshaken]
  exact hb.le_grown (h.within earlier hearlier)

theorem legs_ended (hunderWay : course.underWay = true) :
    course.legs ++ [.sleeps (course.delay b)] = (course.note b (some .ends)).legs := by
  simp [legs, note, hunderWay]

theorem legs_begun (hunderWay : course.underWay = false) (b : Backoff) :
    course.legs ++ [.opens] = (course.note b (some .begins)).legs := by
  simp [legs, note, hunderWay]

end Course

/-- The course of a run, begun with what is noted in it already. -/
def Client.course (c : Client) (b : Backoff) (course : Course) : List Turn → Course
  | [] => course
  | turn :: rest => (c.take turn).1.course b (course.note b (c.milestone? turn.act)) rest

namespace Client

/-! ## What leaves the pace alone -/

/-- Neither the delays nor the attempts are touched. -/
structure Steady (c : Client) (result : Client × List Emission) : Prop where
  backoff : result.1.backoff = c.backoff
  legs : legsIn result.2 = []

theorem Steady.refl (c : Client) : Steady c (c, []) := ⟨rfl, rfl⟩

theorem Steady.trans {c c' c'' : Client} {first later : List Emission}
    (h : Steady c (c', first)) (h' : Steady c' (c'', later)) : Steady c (c'', first ++ later) :=
  ⟨h'.backoff.trans h.backoff, by simp [h.legs, h'.legs]⟩

theorem steady_halt (c : Client) : Steady c c.halt := by
  unfold halt
  dsimp only
  split <;> exact ⟨rfl, rfl⟩

theorem steady_connect (c : Client) : Steady c c.connect := by
  unfold connect
  split <;> exact ⟨rfl, rfl⟩

theorem RewiredTo.steady {c c' : Client} (h : c.RewiredTo c') : Steady c (c', []) := by
  obtain ⟨handlers, subscriptions, listeners, watermarks, rfl⟩ := h
  exact ⟨rfl, rfl⟩

theorem lasting_steady_halt :
    Lasting halt haltStory (fun _ => True) fun c result _ => Steady c result where
  rewires := RewiredTo.steady
  trans := .trans
  report c emission h := ⟨rfl, by simp [legsIn, Emission.leg?_of_isReport h]⟩
  connect _ := steady_connect
  leave _ := steady_halt

theorem offering_steady (callbacks : Callbacks) :
    Offering callbacks (fun _ => True) fun c result _ => Steady c result where
  toLasting := lasting_steady_halt.lift callbacks.give_any steady_halt fun _ _ _ => ⟨rfl, rfl⟩
  offers _ _ _ := ⟨rfl, rfl⟩
  invokes _ _ _ := ⟨rfl, rfl⟩

section Steady

variable (callbacks : Callbacks) (c : Client) (id : Nat)

theorem steady_perform (command : Command) : Steady c (c.perform callbacks command) :=
  (offering_steady callbacks).performWith c trivial

theorem steady_enter (state : ConnectionState) : Steady c (c.enter callbacks state) :=
  (offering_steady callbacks).enterWith callbacks.give_any fun _ => ⟨rfl, rfl⟩

theorem steady_cancel (phase : Phase) : Steady c (c.cancel id phase) := by
  cases phase <;> exact ⟨rfl, rfl⟩

theorem Steady.setPhase {c c' : Client} {emissions : List Emission}
    (h : Steady c (c', emissions)) (id : Nat) (phase : Phase) :
    Steady c (c'.setPhase id phase, emissions) := ⟨h.backoff, h.legs⟩

theorem Steady.settleHanding {c c' : Client} {emissions : List Emission}
    (h : Steady c (c', emissions)) (id : Nat) (handing : Handing) :
    Steady c (c'.settleHanding id handing, emissions) := by
  cases handing <;> exact h.setPhase id _

theorem steady_dispatch (frame : Frame) :
    Steady c ((c.dispatch callbacks frame).1, (c.dispatch callbacks frame).2.1) :=
  (offering_steady callbacks).dispatch callbacks.give_any c frame

theorem steady_receive {frame : Frame} (hframe : frame.event ≠ c.connectedEvent) :
    Steady c (c.receive callbacks id frame) := by
  by_cases hclosed : c.closed = true
  · rw [receive, if_pos hclosed]
    exact (Steady.refl c).setPhase id _
  · obtain ⟨lastEventId, hreceive, -⟩ := receive_noted callbacks (by simpa using hclosed) id frame
    have hnoted : Steady c ({ c with lastEventId := lastEventId }, []) := ⟨rfl, rfl⟩
    rw [hreceive, if_neg hframe]
    exact (hnoted.trans (steady_dispatch callbacks _ frame)).settleHanding id _

/-- A signal that is no milestone. -/
theorem steady_signal {s : Signal} (hopen : c.closed = false)
    (h : c.milestone? (.signal id s) = none) : Steady c (c.signal callbacks id s) := by
  unfold Client.signal
  cases hloop : c.loop? id with
  | none => exact .refl c
  | some loop =>
    have hphase : loop.phase.milestone? c.connectedEvent s = none := by
      simpa [milestone?, hloop] using h
    dsimp only
    split
    · split
      · exact steady_cancel c id _
      · exact .refl c
    · next hp => simp [hp, Phase.milestone?] at hphase
    · exact (Steady.refl c).setPhase id _
    · next hp => simp [hp, Phase.milestone?] at hphase
    · next frame hp =>
      refine steady_receive callbacks c id ?_
      simpa [hp, Phase.milestone?] using hphase
    · exact (Steady.refl c).setPhase id _
    · exact (Steady.refl c).setPhase id _
    · split
      · exact steady_cancel c id _
      · have hresumed := (offering_steady callbacks).resumeOffer callbacks.give_any hopen
        exact (hresumed ..).settleHanding id _
    · next hp => simp [hp, Phase.milestone?] at hphase
    · next hp => simp [hp, Phase.milestone?] at hphase
    · exact .refl c

end Steady

/-! ## The turns of an attempt -/

theorem Going.loops_eq {c : Client} {id : Nat} {phase : Phase} (h : c.Going id phase) :
    c.loops = [(id, { phase := phase })] := by
  obtain ⟨⟨k, l⟩, hl, hk⟩ := List.map_eq_singleton_iff.1 h.alone
  obtain rfl : k = id := hk
  have hloop : l = { phase := phase } := by simpa [loop?, hl] using h.loop?
  rw [hl, hloop]

theorem Going.moved {c : Client} {id : Nat} {phase phase' : Phase} {news : List Emission}
    {watermarks : Keyed Instant} {result : Client × List Emission} (hgoing : c.Going id phase)
    (h : Moves c id phase' news watermarks result) (hphase' : phase' ≠ .closing .cancelled) :
    result.1.Going id phase' :=
  ⟨h.running, h.loops.trans hgoing.alone, hphase'⟩

theorem Phase.hasTransport_before (tag : String) (event : StreamEvent) (delivered : Bool)
    (left : List Handler) : (Phase.before tag event delivered left).hasTransport = true := by
  cases left <;> rfl

section Turns

variable (callbacks : Callbacks) {c : Client} {id : Nat} {phase : Phase}

theorem attempt_pace (hrun : c.Running id phase) :
    (c.attempt callbacks id).1.backoff = c.backoff ∧
      legsIn (c.attempt callbacks id).2 = [.opens] := by
  have hsteady := steady_enter callbacks c .connecting
  rw [attempt, if_neg (by simp [hrun.closed])]
  exact ⟨hsteady.backoff, by rw [legsIn_append, hsteady.legs]; rfl⟩

theorem retry_pace (hrun : c.Running id phase) (failure : Failure) :
    (c.retry callbacks id failure).1.backoff = c.backoff.grow ∧
      legsIn (c.retry callbacks id failure).2 = [.sleeps c.backoff.delay] := by
  have hsteady := steady_enter callbacks { c with backoff := c.backoff.grow } .reconnecting
  rw [retry, if_neg (by simp [hrun.closed])]
  refine ⟨hsteady.backoff, ?_⟩
  rw [legsIn_append, legsIn, List.filterMap_cons_none rfl, ← legsIn, hsteady.legs]
  rfl

theorem shake_pace (c : Client) :
    (c.shake callbacks).1.backoff = c.backoff.reset ∧ legsIn (c.shake callbacks).2 = [] := by
  have hsteady := steady_enter callbacks { c with backoff := c.backoff.reset } .connected
  refine ⟨hsteady.backoff, ?_⟩
  rw [shake, legsIn_append, legsIn, List.filterMap_cons_none rfl, ← legsIn, hsteady.legs]
  rfl

theorem handshake_pace (hrun : c.Running id phase) {frame : Frame}
    (hframe : frame.event = c.connectedEvent) :
    (c.receive callbacks id frame).1.backoff = c.backoff.reset ∧
      legsIn (c.receive callbacks id frame).2 = [] := by
  obtain ⟨lastEventId, hreceive, -⟩ := receive_noted callbacks hrun.closed id frame
  rw [hreceive, if_pos hframe]
  exact shake_pace callbacks { c with lastEventId := lastEventId }

theorem Running.signal_begins (hrun : c.Running id phase) {s : Signal}
    (h : phase.milestone? c.connectedEvent s = some .begins) :
    c.signal callbacks id s = c.attempt callbacks id ∧ phase.hasTransport = false := by
  unfold Phase.milestone? at h
  split at h
  · exact ⟨by simp [signal, hrun.loop?], rfl⟩
  · exact ⟨by simp [signal, hrun.loop?], rfl⟩
  · split at h <;> simp at h
  all_goals simp at h

theorem Running.signal_shakes (hrun : c.Running id phase) {s : Signal}
    (h : phase.milestone? c.connectedEvent s = some .shakes) :
    phase = .receiving ∧ ∃ frame, frame.event = c.connectedEvent ∧
      c.signal callbacks id s = c.receive callbacks id frame := by
  unfold Phase.milestone? at h
  split at h
  · simp at h
  · simp at h
  · next frame =>
    split at h
    · next hframe => exact ⟨rfl, frame, hframe, by simp [signal, hrun.loop?]⟩
    · simp at h
  all_goals simp at h

/-- However an attempt ends, the client goes on to sleep. -/
theorem Going.signal_ends (hgoing : c.Going id phase) {s : Signal}
    (h : phase.milestone? c.connectedEvent s = some .ends) :
    phase.hasTransport = true ∧ ∃ failure,
      (c.signal callbacks id s).1 = (c.retry callbacks id failure).1 ∧
      legsIn (c.signal callbacks id s).2 = legsIn (c.retry callbacks id failure).2 := by
  have hrun := hgoing.toRunning
  unfold Phase.milestone? at h
  split at h
  · simp at h
  · simp at h
  · split at h <;> simp at h
  · next failure => exact ⟨rfl, failure, by simp [Client.signal, hrun.loop?]⟩
  · next outcome =>
    refine ⟨rfl, ?_⟩
    simp only [Client.signal, hrun.loop?]
    cases outcome with
    | left =>
      have hleft : c.afterClosing callbacks id .left = c.retry callbacks id .closedByServer := by
        rw [afterClosing, if_neg (by simp [hrun.closed])]
      exact ⟨.closedByServer, by rw [hleft], by rw [hleft]; rfl⟩
    | failed failure => exact ⟨failure, rfl, rfl⟩
    | cancelled => exact absurd rfl hgoing.uncancelled
  · simp at h

variable {callbacks}

theorem Going.frame_stays (hstay : callbacks.HandlersStay) (hgoing : c.Going id .receiving)
    {frame : Frame} (hframe : frame.event ≠ c.connectedEvent) :
    ∃ phase', (c.signal callbacks id (.frame frame)).1.Going id phase' ∧
      phase'.hasTransport = true := by
  have hrun := hgoing.toRunning
  match hsort : c.sort frame with
  | .drop reason notices =>
    exact ⟨_, hgoing.moved (moves_drop callbacks hrun hframe hsort) (by simp), rfl⟩
  | .unreadable =>
    exact ⟨_, hgoing.moved (moves_unreadable callbacks hrun hframe hsort) (by simp), rfl⟩
  | .event event handlers =>
    obtain ⟨served, left, -, hmoves⟩ := moves_event hstay hrun hframe hsort
    exact ⟨_, hgoing.moved hmoves Phase.before_ne_closing, Phase.hasTransport_before ..⟩

/-- Short of a milestone, a transport that is in use stays in use. -/
theorem Going.stays (hhandlers : callbacks.HandlersStay) (hgoing : c.Going id phase) {s : Signal}
    (h : phase.milestone? c.connectedEvent s = none) :
    ∃ phase', (c.signal callbacks id s).1.Going id phase' ∧
      phase'.hasTransport = phase.hasTransport := by
  have hrun := hgoing.toRunning
  -- Handlers get their turn with a frame or with a resumption. Otherwise just the phase changes.
  by_cases hframe : ∃ frame, s = .frame frame ∧ phase = .receiving
  · obtain ⟨frame, rfl, rfl⟩ := hframe
    exact hgoing.frame_stays hhandlers (by simpa [Phase.milestone?] using h)
  by_cases hresumed : s = .resumed ∧ phase.inHand? ≠ none
  · obtain ⟨rfl, hhand⟩ := hresumed
    cases phase with
    | handling tag event current rest delivered =>
      obtain ⟨served, left, -, hmoves⟩ := moves_resumed hhandlers hrun
      exact ⟨_, hgoing.moved hmoves Phase.before_ne_closing, Phase.hasTransport_before ..⟩
    | _ => exact absurd rfl hhand
  have hto (phase' : Phase) (hphase' : phase' ≠ .closing .cancelled) :
      (c.setPhase id phase').Going id phase' :=
    hgoing.moved ((Aside.refl c).moves_to hrun phase') hphase'
  simp only [Client.signal, hrun.loop?, Bool.false_eq_true, if_false]
  split
  · exact ⟨_, hgoing, rfl⟩
  · simp [Phase.milestone?] at h
  · exact ⟨_, hto .receiving (by simp), rfl⟩
  · simp [Phase.milestone?] at h
  · next frame => exact absurd ⟨frame, rfl, rfl⟩ hframe
  · exact ⟨_, hto (.closing .left) (by simp), rfl⟩
  · next failure => exact ⟨_, hto (.closing (.failed failure)) (by simp), rfl⟩
  · exact absurd ⟨rfl, by simp [Phase.inHand?]⟩ hresumed
  · simp [Phase.milestone?] at h
  · simp [Phase.milestone?] at h
  · exact ⟨_, hgoing, rfl⟩

end Turns

/-! ## A run and its course -/

/-- The client stands where the course has come to, and will sleep as long as the course says. -/
structure OnCourse (b : Backoff) (course : Course) (c : Client) : Prop where
  stands : Stands c
  backoff : c.backoff = { b with delay := course.delay b }
  underWay : course.underWay = c.loops.any (·.2.phase.hasTransport)

/-- After the turn the client is on its course again, has the loop that it had, and has done the
legs that have come on. -/
structure TurnCovers (b : Backoff) (course : Course) (c : Client) (turn : Turn) : Prop where
  onCourse : OnCourse b (course.note b (c.milestone? turn.act)) (c.take turn).1
  task : c.task.isSome → (c.take turn).1.task = c.task
  legs : course.legs ++ legsIn (c.take turn).2 =
    (course.note b (c.milestone? turn.act)).legs

section Run

variable {b : Backoff} {course : Course} {c : Client} {callbacks : Callbacks}

theorem Going.onCourse {id : Nat} {phase : Phase} (hgoing : c.Going id phase)
    (hbackoff : c.backoff = { b with delay := course.delay b })
    (hunderWay : course.underWay = phase.hasTransport) : OnCourse b course c :=
  ⟨.going id phase hgoing, hbackoff, by simp [hunderWay, hgoing.loops_eq]⟩

theorem OnCourse.quiet {turn : Turn} (h : OnCourse b course c)
    (hmilestone : c.milestone? turn.act = none) (hsteady : Steady c (c.take turn))
    (hstands : Stands (c.take turn).1) (htask : c.task.isSome → (c.take turn).1.task = c.task)
    (htransport : (c.take turn).1.loops.any (·.2.phase.hasTransport) =
      c.loops.any (·.2.phase.hasTransport)) : TurnCovers b course c turn := by
  refine ⟨?_, htask, ?_⟩
  · rw [hmilestone]
    exact ⟨hstands, hsteady.backoff.trans h.backoff, h.underWay.trans htransport.symm⟩
  · rw [hmilestone, hsteady.legs, List.append_nil]
    rfl

theorem OnCourse.command (h : OnCourse b course c) {command : Command}
    (hleave : command ≠ .disconnect) :
    TurnCovers b course c ⟨callbacks, .command command⟩ := by
  have hsteady : Steady c (c.take ⟨callbacks, .command command⟩) :=
    steady_perform callbacks c command
  cases h.stands with
  | idle hclosed htask hloops =>
    by_cases hconnect : command = .connect
    · subst hconnect
      have hgoing : c.connect.1.Going c.nextLoop .scheduled := (going_connect htask hloops).1
      refine h.quiet rfl hsteady (.going _ _ hgoing) (by simp [htask]) ?_
      have hloops' : c.connect.1.loops = _ := hgoing.loops_eq
      have htake : (c.take ⟨callbacks, .command .connect⟩).1 = c.connect.1 := rfl
      rw [htake, hloops', hloops]
      rfl
    · have haside : Aside c (c.take ⟨callbacks, .command command⟩) :=
        aside_rewiring c hconnect hleave
      refine h.quiet rfl hsteady ?_ (fun _ => haside.link.task) (by rw [haside.link.loops])
      exact .idle (haside.link.closed.trans hclosed) (haside.link.task.trans htask)
        (haside.link.loops.trans hloops)
  | going id phase hgoing =>
    have haside : Aside c (c.take ⟨callbacks, .command command⟩) :=
      aside_performWith hgoing.active hleave
    refine h.quiet rfl hsteady ?_ (fun _ => haside.link.task) (by rw [haside.link.loops])
    exact .going id phase (hgoing.moved (haside.moves hgoing.toRunning) hgoing.uncancelled)

theorem OnCourse.signal (h : OnCourse b course c) (hhandlers : callbacks.HandlersStay)
    (hlisteners : callbacks.ListenersStay) {id : Nat} {phase : Phase} (hgoing : c.Going id phase)
    (s : Signal) : TurnCovers b course c ⟨callbacks, .signal id s⟩ := by
  have hrun := hgoing.toRunning
  have htake : c.take ⟨callbacks, .signal id s⟩ = c.signal callbacks id s := rfl
  have hphase : c.milestone? (.signal id s) = phase.milestone? c.connectedEvent s := by
    simp [milestone?, hrun.loop?]
  have hunderWay : course.underWay = phase.hasTransport := by
    simpa [hgoing.loops_eq] using h.underWay
  cases hmilestone : phase.milestone? c.connectedEvent s with
  | none =>
    obtain ⟨phase', hgoing', htransport⟩ := hgoing.stays hhandlers hmilestone
    have hnone := hphase.trans hmilestone
    refine h.quiet hnone (steady_signal callbacks c id hrun.closed hnone) (.going id phase' hgoing')
      (fun _ => hgoing'.task.trans hgoing.task.symm) ?_
    rw [htake, hgoing'.loops_eq, hgoing.loops_eq]
    simpa using htransport
  | some milestone =>
    rw [hmilestone] at hphase
    cases milestone with
    | begins =>
      obtain ⟨hsignal, htransport⟩ := hrun.signal_begins callbacks hmilestone
      obtain ⟨hbackoff, hlegs⟩ := attempt_pace callbacks hrun
      have hgoing' := hgoing.moved (moves_attempt hlisteners hrun) (by simp)
      refine ⟨?_, fun _ => ?_, ?_⟩
      · rw [htake, hphase, hsignal]
        exact hgoing'.onCourse (hbackoff.trans h.backoff) rfl
      · rw [htake, hsignal]
        exact hgoing'.task.trans hgoing.task.symm
      · rw [htake, hphase, hsignal, hlegs]
        exact Course.legs_begun (hunderWay.trans htransport) b
    | shakes =>
      obtain ⟨rfl, frame, hframe, hsignal⟩ := hrun.signal_shakes callbacks hmilestone
      obtain ⟨hbackoff, hlegs⟩ := handshake_pace callbacks hrun hframe
      have hgoing' := hgoing.moved (moves_handshake hlisteners hrun hframe) (by simp)
      refine ⟨?_, fun _ => ?_, ?_⟩
      · rw [htake, hphase, hsignal]
        refine hgoing'.onCourse ?_ hunderWay
        rw [hbackoff, h.backoff, Course.note, Course.delay_shaken]
        rfl
      · rw [htake, hsignal]
        exact hgoing'.task.trans hgoing.task.symm
      · rw [htake, hphase, hsignal, hlegs, List.append_nil]
        rfl
    | ends =>
      obtain ⟨htransport, failure, hsignal, hsame⟩ := hgoing.signal_ends callbacks hmilestone
      obtain ⟨hbackoff, hlegs⟩ := retry_pace callbacks hrun failure
      have hgoing' := hgoing.moved (moves_retry hlisteners hrun failure) (by simp)
      refine ⟨?_, fun _ => ?_, ?_⟩
      · rw [htake, hphase, hsignal]
        refine hgoing'.onCourse ?_ rfl
        rw [hbackoff, h.backoff, Course.note, Course.delay_ended]
        rfl
      · rw [htake, hsignal]
        exact hgoing'.task.trans hgoing.task.symm
      · rw [htake, hphase, hsame, hlegs, h.backoff]
        exact Course.legs_ended (hunderWay.trans htransport)

theorem OnCourse.take (h : OnCourse b course c) {turn : Turn} (hstays : turn.Stays) :
    TurnCovers b course c turn := by
  obtain ⟨callbacks, act⟩ := turn
  cases act with
  | command command => exact h.command fun hc => hstays.act (by rw [hc])
  | signal id s =>
    by_cases hloop : c.loop? id = none
    · have hsame := take_unheard hloop callbacks s
      refine h.quiet (by simp [milestone?, hloop]) ?_ ?_ (by simp [hsame]) (by rw [hsame])
      · rw [hsame]
        exact .refl c
      · rw [hsame]
        exact h.stands
    obtain ⟨phase, hgoing⟩ := h.stands.going_of_loop hloop
    exact h.signal hstays.handlers hstays.listeners hgoing s

theorem isSome_task_connect (c : Client) : c.connect.1.task.isSome := by
  unfold connect
  split
  · next id hactive =>
    have htask : c.task = some id := (Option.filter_eq_some_iff.1 hactive).1
    simp [htask]
  · rfl

theorem OnCourse.run (h : OnCourse b course c) {turns : List Turn}
    (hstays : ∀ turn ∈ turns, turn.Stays) :
    OnCourse b (c.course b course turns) (c.run turns).1 ∧
      course.legs ++ legsIn (c.run turns).2 = (c.course b course turns).legs ∧
      (c.task.isSome ∨ .command .connect ∈ turns.map (·.act) →
        (c.run turns).1.task.isSome) := by
  induction turns generalizing c course with
  | nil => exact ⟨h, by simp [Client.run, Client.course, legsIn], by simp [Client.run]⟩
  | cons turn rest ih =>
    have hturn := h.take (hstays turn List.mem_cons_self)
    obtain ⟨hend, hlegs, htask⟩ := ih hturn.onCourse fun later hlater =>
      hstays later (List.mem_cons_of_mem _ hlater)
    refine ⟨hend, ?_, ?_⟩
    · simp only [Client.run, Client.course, legsIn_append]
      rw [← List.append_assoc, hturn.legs, hlegs]
    · rintro (hhas | hconnect)
      · exact htask (.inl (by rwa [hturn.task hhas]))
      · rcases List.mem_cons.1 hconnect with hact | hlater
        · have hact' : turn.act = .command .connect := hact.symm
          refine htask (.inl ?_)
          simp only [Client.take, hact']
          exact isSome_task_connect c
        · exact htask (.inr hlater)

theorem paced_course (hb : b.Sound) (h : course.Paced b) (c : Client) (turns : List Turn) :
    (c.course b course turns).Paced b := by
  induction turns generalizing c course with
  | nil => exact h
  | cons turn rest ih => exact ih (h.note hb _) _

end Run

/-- However the attempts turn out: as long as nobody disconnects, the loop of a client that has been
connected goes on. Its transports and its sleeps follow the course of the run, one sleep after each
attempt and one attempt after each sleep. The sleeps start at the floor, again after a handshake,
and grow in between. -/
theorem sleeps_between_attempts {floor ceiling multiplier : Binary64} {b : Backoff}
    (hnew : Backoff.new floor ceiling multiplier = .ok b) (hb : b.Sound) (connectedEvent : String)
    {turns : List Turn} (hstays : ∀ turn ∈ turns, turn.Stays) :
    let start := fresh connectedEvent b
    let result := start.run turns
    let rests := (start.course b {} turns).rests
    legsIn result.2 = (start.course b {} turns).legs ∧
      (.command .connect ∈ turns.map (·.act) → ∃ id phase, result.1.Going id phase) ∧
      (∀ rest ∈ rests.head?, rest.delay = b.floor) ∧
      rests.IsChain (fun earlier later => later.delay =
        if later.shaken then b.floor
        else (earlier.delay.mul b.multiplier).smaller b.ceiling) ∧
      (∀ rest ∈ rests, b.floor.le rest.delay = true ∧ rest.delay.le b.ceiling = true) ∧
      rests.IsChain fun earlier later =>
        later.shaken = false → earlier.delay.le later.delay = true := by
  intro start result rests
  have hstart : OnCourse b {} start := ⟨.idle rfl rfl rfl, Backoff.eq_of_new hnew, rfl⟩
  obtain ⟨hend, hlegs, htask⟩ := hstart.run hstays
  have hpaced : (start.course b {} turns).Paced b :=
    paced_course hb ⟨by simp, .nil, by simp⟩ start turns
  refine ⟨hlegs, ?_, hpaced.first, hpaced.later, ?_, hpaced.grows hb⟩
  · intro hconnect
    cases hend.stands with
    | idle _ hnone _ => simpa [hnone] using htask (.inr hconnect)
    | going id phase hgoing => exact ⟨id, phase, hgoing⟩
  · intro rest hrest
    exact ⟨(hpaced.within rest hrest).floor, (hpaced.within rest hrest).ceiling⟩

/-- Two attempts that get no transport, and a third one that gets to the handshake. -/
def thirdTime : List Act := [
  .command .connect, .signal 0 .begun, .signal 0 (.openFailed (.transport "refused")),
  .signal 0 .woken, .signal 0 (.openFailed (.unexpected "refused")),
  .signal 0 .woken, .signal 0 .opened, .signal 0 (.frame { event := "connected" }),
  .signal 0 .ended, .signal 0 .closed, .signal 0 .woken]

theorem doubling_sound : doubling.Sound where
  floor := by
    change Binary64.ofRat 1 = .finite 1
    decide +kernel
  ceiling := by
    change Binary64.ofRat 30 = .finite 30
    decide +kernel
  positive := by decide +kernel
  ordered := by decide +kernel
  growing := by decide +kernel

theorem sleeps_until_third_time :
    Backoff.new (.finite 1) (.finite 30) (.finite 2) = .ok doubling ∧
      let result := (fresh "connected" doubling).run (thirdTime.map (⟨.quiet, ·⟩))
      legsIn result.2 = [.opens, .sleeps (.finite 1), .opens, .sleeps (.finite 2),
        .opens, .sleeps (.finite 1), .opens] ∧
      ∃ id phase, result.1.Going id phase := by
  have hnew : Backoff.new (.finite 1) (.finite 30) (.finite 2) = .ok doubling := by rfl
  have hacts : ∀ act ∈ thirdTime, act ≠ .command .disconnect := by decide
  obtain ⟨hlegs, hgoing, -⟩ := sleeps_between_attempts hnew doubling_sound "connected"
    (Turn.stays_of_quiet hacts)
  refine ⟨hnew, ?_, hgoing ?_⟩
  · rw [hlegs]
    decide +kernel
  · decide

end Client

end LineWatch
