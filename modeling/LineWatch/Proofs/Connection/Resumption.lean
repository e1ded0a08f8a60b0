import LineWatch.Proofs.Connection.Course

/-!
# Where an attempt resumes the stream

A client notes the identifier of every frame that it takes, whatever becomes of the frame, and asks
for the next transport with the last one that it has noted, unless that is empty. The records of a
run tell what each attempt was opened with and which frames it brought. As long as nobody
disconnects, an attempt resumes after the last identifier of all attempts before it.
-/

namespace LineWatch

/-- The identifier of the last frame that has one. -/
def lastId? (frames : List Frame) : Option String := (frames.filterMap (·.id)).getLast?

theorem lastId?_concat (frames : List Frame) (frame : Frame) :
    lastId? (frames ++ [frame]) = frame.id.or (lastId? frames) := by
  cases hid : frame.id <;> simp [lastId?, hid]

/-- An attempt: its loop, what its transport was asked for with, and the frames it has brought. -/
structure AttemptRecord where
  loop : Nat
  resumesAfter : Option String
  frames : List Frame := []
  deriving DecidableEq, Repr

namespace AttemptRecord

/-- All frames of these records, where the last attempt comes first. -/
def framesOf : List AttemptRecord → List Frame
  | [] => []
  | record :: earlier => framesOf earlier ++ record.frames

/-- A frame goes to the last attempt of its loop. -/
def add (id : Nat) (frame : Frame) : List AttemptRecord → List AttemptRecord
  | [] => []
  | record :: earlier =>
    if record.loop = id then { record with frames := record.frames ++ [frame] } :: earlier
    else record :: add id frame earlier

/-- Each attempt resumes after the last identifier of the attempts before it; an empty one counts
as none. -/
def Resume : List AttemptRecord → Prop
  | [] => True
  | record :: earlier =>
    record.resumesAfter = (lastId? (framesOf earlier)).filter (· != "") ∧ Resume earlier

theorem framesOf_eq (records : List AttemptRecord) :
    framesOf records = records.reverse.flatMap (·.frames) := by
  induction records with
  | nil => rfl
  | cons record earlier ih => simp [framesOf, ih]

theorem Resume.of_append {later : List AttemptRecord} {record : AttemptRecord}
    {earlier : List AttemptRecord} (h : Resume (later ++ record :: earlier)) :
    record.resumesAfter = (lastId? (framesOf earlier)).filter (· != "") := by
  induction later with
  | nil => exact h.1
  | cons _ later ih => exact ih h.2

theorem Resume.resumesAfter_of_getElem? {attempts : List AttemptRecord}
    (h : Resume attempts.reverse) {k : Nat} {record : AttemptRecord}
    (hk : attempts[k]? = some record) :
    record.resumesAfter =
      (lastId? ((attempts.take k).flatMap (·.frames))).filter (· != "") := by
  obtain ⟨hlt, hget⟩ := List.getElem?_eq_some_iff.1 hk
  have hsplit : attempts = attempts.take k ++ record :: attempts.drop (k + 1) := by
    rw [← hget, List.getElem_cons_drop, List.take_append_drop]
  rw [hsplit, List.reverse_append, List.reverse_cons, List.append_assoc,
    List.singleton_append] at h
  rw [h.of_append, framesOf_eq, List.reverse_reverse]

end AttemptRecord

namespace Client

open AttemptRecord (framesOf Resume)

/-- The records after a turn. The last attempt comes first. -/
def noteAttempts (c : Client) (turn : Turn) (records : List AttemptRecord) :
    List AttemptRecord :=
  match turn.act with
  | .signal id _ =>
    let brought := (c.takenFrame? turn.act).elim records (AttemptRecord.add id · records)
    (headersIn (c.take turn).2).map (⟨id, ·, []⟩) ++ brought
  | .command _ => records

/-- The records of a run, begun with those that there are. -/
def attemptRecords (c : Client) (records : List AttemptRecord) : List Turn → List AttemptRecord
  | [] => records
  | turn :: rest => (c.take turn).1.attemptRecords (c.noteAttempts turn records) rest

/-- The attempts of a run in their order. -/
def attempts (c : Client) (turns : List Turn) : List AttemptRecord :=
  (c.attemptRecords [] turns).reverse

/-- The frames that a run brings to the client. -/
def takenFrames (c : Client) : List Turn → List Frame
  | [] => []
  | turn :: rest => (c.takenFrame? turn.act).toList ++ (c.take turn).1.takenFrames rest

/-! ## What notes an identifier -/

theorem lasting_lastEventId_halt : Lasting halt haltStory (fun _ => True)
    fun c result _ => result.1.lastEventId = c.lastEventId where
  rewires h := by
    obtain ⟨handlers, subscriptions, listeners, watermarks, rfl⟩ := h
    rfl
  trans h h' := h'.trans h
  report _ _ _ := rfl
  connect _ c := by
    unfold connect
    split <;> rfl
  leave _ c := by
    unfold halt
    dsimp only
    split <;> rfl

theorem offering_lastEventId (callbacks : Callbacks) : Offering callbacks (fun _ => True)
    fun c result _ => result.1.lastEventId = c.lastEventId where
  toLasting := lasting_lastEventId_halt.lift callbacks.give_any
    (lasting_lastEventId_halt.leave trivial) fun _ _ _ => rfl
  offers _ _ _ := rfl
  invokes _ _ _ := rfl

section Place

variable (callbacks : Callbacks) (c : Client) (id : Nat)

theorem lastEventId_enter (state : ConnectionState) :
    (c.enter callbacks state).1.lastEventId = c.lastEventId :=
  (offering_lastEventId callbacks).enterWith callbacks.give_any fun _ => rfl

theorem lastEventId_settleHanding (handing : Handing) :
    (c.settleHanding id handing).lastEventId = c.lastEventId := by
  cases handing <;> rfl

theorem lastEventId_cancel (phase : Phase) :
    (c.cancel id phase).1.lastEventId = c.lastEventId := by
  cases phase <;> rfl

theorem lastEventId_attempt : (c.attempt callbacks id).1.lastEventId = c.lastEventId := by
  unfold attempt
  split
  · rfl
  · exact lastEventId_enter callbacks c .connecting

theorem lastEventId_retry (failure : Failure) :
    (c.retry callbacks id failure).1.lastEventId = c.lastEventId := by
  unfold retry
  dsimp only
  split
  · rfl
  · exact lastEventId_enter callbacks { c with backoff := c.backoff.grow } .reconnecting

theorem lastEventId_shake : (c.shake callbacks).1.lastEventId = c.lastEventId :=
  lastEventId_enter callbacks { c with backoff := c.backoff.reset } .connected

theorem lastEventId_afterClosing (outcome : Outcome) :
    (c.afterClosing callbacks id outcome).1.lastEventId = c.lastEventId := by
  cases outcome with
  | cancelled => rfl
  | failed failure => exact lastEventId_retry callbacks c id failure
  | left =>
    unfold afterClosing
    dsimp only
    split
    · rfl
    · exact lastEventId_retry callbacks c id .closedByServer

variable {c}

theorem lastEventId_noted (c : Client) (frame : Frame) :
    (c.noted frame).lastEventId = frame.id.or c.lastEventId := by
  unfold noted
  cases frame.id <;> rfl

/-- The identifier of a frame is noted whatever becomes of the frame. -/
theorem lastEventId_receive (hopen : c.closed = false) (frame : Frame) :
    (c.receive callbacks id frame).1.lastEventId = frame.id.or c.lastEventId := by
  rw [receive_of_open callbacks hopen, ← lastEventId_noted]
  split
  · exact lastEventId_shake callbacks _
  · rw [lastEventId_settleHanding]
    exact (offering_lastEventId callbacks).dispatch callbacks.give_any _ frame

theorem lastEventId_signal (hopen : c.closed = false) (s : Signal) :
    (c.signal callbacks id s).1.lastEventId =
      ((c.takenFrame? (.signal id s)).bind (·.id)).or c.lastEventId := by
  cases hframe : c.takenFrame? (.signal id s) with
  | some frame =>
    rw [signal_of_takenFrame? callbacks hframe]
    exact lastEventId_receive callbacks id hopen frame
  | none =>
    have hanswers := answers_signal callbacks hframe
    generalize c.signal callbacks id s = result at hanswers ⊢
    cases hanswers with
    | waits | moves => rfl
    | cancels => exact lastEventId_cancel c id _
    | begins => exact lastEventId_attempt callbacks c id
    | fails failure => exact lastEventId_retry callbacks c id failure
    | resumes hloop hhanded =>
      subst hhanded
      exact (lastEventId_settleHanding _ id _).trans
        ((offering_lastEventId callbacks).resumeOffer callbacks.give_any hopen ..)
    | closes outcome => exact lastEventId_afterClosing callbacks c id outcome

end Place

/-! ## The records of a run -/

/-- The client stands where its records have come to: it has noted their last identifier, each of
its attempts has resumed after the ones before it, and a transport in use belongs to the last. -/
structure Placed (c : Client) (records : List AttemptRecord) : Prop where
  place : c.lastEventId = lastId? (framesOf records)
  resume : Resume records
  current : ∀ {id phase}, c.Going id phase → phase.hasTransport = true →
    ∃ last earlier, records = last :: earlier ∧ last.loop = id

/-- After the turn the client stands where its records have come to. -/
structure TurnRecorded (c : Client) (records : List AttemptRecord) (turn : Turn) : Prop where
  placed : Placed (c.take turn).1 (c.noteAttempts turn records)
  headers : (c.noteAttempts turn records).reverse.map (·.resumesAfter) =
    records.reverse.map (·.resumesAfter) ++ headersIn (c.take turn).2
  frames : framesOf (c.noteAttempts turn records) =
    framesOf records ++ (c.takenFrame? turn.act).toList

section Turns

variable {c : Client} {records : List AttemptRecord} {callbacks : Callbacks} {id : Nat}
  {phase : Phase}

theorem TurnRecorded.of_same {turn : Turn} (h : Placed (c.take turn).1 records)
    (hrecords : c.noteAttempts turn records = records)
    (hheaders : headersIn (c.take turn).2 = []) (hframe : c.takenFrame? turn.act = none) :
    TurnRecorded c records turn where
  placed := hrecords.symm ▸ h
  headers := by rw [hrecords, hheaders, List.append_nil]
  frames := by rw [hrecords, hframe, Option.toList_none, List.append_nil]

theorem Running.takenFrame? (hrun : c.Running id phase) {s : Signal} {frame : Frame}
    (h : c.takenFrame? (.signal id s) = some frame) : phase = .receiving := by
  obtain ⟨-, -, l, hloop, hphase⟩ := takenFrame?_eq_some.mp h
  obtain rfl := Option.some.inj (hrun.loop?.symm.trans hloop)
  exact hphase

/-- A signal opens one transport at most; without it no transport comes into use. -/
theorem Going.opens (hhandlers : callbacks.HandlersStay) (hlisteners : callbacks.ListenersStay)
    (hgoing : c.Going id phase) (s : Signal) :
    ∃ phase', (c.signal callbacks id s).1.Going id phase' ∧
      (headersIn (c.signal callbacks id s).2 = [] ∧
          (phase'.hasTransport = true → phase.hasTransport = true) ∨
        headersIn (c.signal callbacks id s).2 =
          [(c.signal callbacks id s).1.lastEventId.filter (· != "")]) := by
  have hrun := hgoing.toRunning
  have hphase : c.milestone? (.signal id s) = phase.milestone? c.connectedEvent s := by
    simp [milestone?, hrun.loop?]
  cases hmilestone : phase.milestone? c.connectedEvent s with
  | none =>
    obtain ⟨phase', hgoing', htransport⟩ := hgoing.stays hhandlers hmilestone
    have hsteady := steady_signal callbacks c id hrun.closed (hphase.trans hmilestone)
    refine ⟨phase', hgoing', .inl ⟨headersIn_eq_nil ?_, fun h => htransport ▸ h⟩⟩
    simp [hsteady.legs]
  | some milestone =>
    cases milestone with
    | begins =>
      obtain ⟨hsignal, -⟩ := hrun.signal_begins callbacks hmilestone
      have hgoing' := hgoing.moved (moves_attempt hlisteners hrun) (by simp)
      refine ⟨.opening, hsignal ▸ hgoing', .inr ?_⟩
      have hentered : headersIn (c.enter callbacks .connecting).2 = [] :=
        headersIn_eq_nil (by simp [(steady_enter callbacks c .connecting).legs])
      rw [hsignal, attempt, if_neg (by simp [hrun.closed])]
      simp only [headersIn_append, hentered, List.nil_append]
      rfl
    | shakes =>
      obtain ⟨rfl, frame, hframe, hsignal⟩ := hrun.signal_shakes callbacks hmilestone
      obtain ⟨-, hlegs⟩ := handshake_pace callbacks hrun hframe
      have hgoing' := hgoing.moved (moves_handshake hlisteners hrun hframe) (by simp)
      refine ⟨.receiving, hsignal ▸ hgoing', .inl ⟨headersIn_eq_nil ?_, fun _ => rfl⟩⟩
      simp [hsignal, hlegs]
    | ends =>
      obtain ⟨htransport, failure, hsignal, hsame⟩ := hgoing.signal_ends callbacks hmilestone
      obtain ⟨-, hlegs⟩ := retry_pace callbacks hrun failure
      have hgoing' := hgoing.moved (moves_retry hlisteners hrun failure) (by simp)
      refine ⟨.sleeping, hsignal ▸ hgoing', .inl ⟨headersIn_eq_nil ?_, fun _ => htransport⟩⟩
      simp [hsame, hlegs]

/-- The records with the frame of the signal, before a transport is opened. -/
theorem Placed.brought (callbacks : Callbacks) (h : Placed c records) (hgoing : c.Going id phase)
    (s : Signal) :
    let brought := (c.takenFrame? (.signal id s)).elim records (AttemptRecord.add id · records)
    (c.signal callbacks id s).1.lastEventId = lastId? (framesOf brought) ∧ Resume brought ∧
      framesOf brought = framesOf records ++ (c.takenFrame? (.signal id s)).toList ∧
      brought.map (·.resumesAfter) = records.map (·.resumesAfter) ∧
      (phase.hasTransport = true → ∃ last earlier, brought = last :: earlier ∧ last.loop = id) := by
  intro brought
  have hnoted := lastEventId_signal callbacks id hgoing.closed s
  cases hframe : c.takenFrame? (.signal id s) with
  | none =>
    have hbrought : brought = records := by simp [brought, hframe]
    rw [hbrought, hnoted, hframe]
    exact ⟨h.place, h.resume, (List.append_nil _).symm, rfl, h.current hgoing⟩
  | some frame =>
    obtain rfl := hgoing.toRunning.takenFrame? hframe
    obtain ⟨last, earlier, rfl, hlast⟩ := h.current hgoing rfl
    have hbrought : brought = { last with frames := last.frames ++ [frame] } :: earlier := by
      simp [brought, hframe, AttemptRecord.add, hlast]
    have hframes : framesOf brought = framesOf (last :: earlier) ++ [frame] := by
      simp [hbrought, framesOf]
    refine ⟨?_, ?_, hframes, ?_, fun _ => ⟨_, earlier, hbrought, hlast⟩⟩
    · rw [hframes, lastId?_concat, ← h.place, hnoted, hframe]
      rfl
    · rw [hbrought]
      exact h.resume
    · rw [hbrought]
      rfl

theorem Placed.signal (h : Placed c records) (hhandlers : callbacks.HandlersStay)
    (hlisteners : callbacks.ListenersStay) (hgoing : c.Going id phase) (s : Signal) :
    TurnRecorded c records ⟨callbacks, .signal id s⟩ := by
  obtain ⟨hplace, hresume, hframes, hsame, hcurrent⟩ := h.brought callbacks hgoing s
  obtain ⟨phase', hgoing', hopens⟩ := hgoing.opens hhandlers hlisteners s
  have hown {own : Nat} {own' : Phase} (h : (c.signal callbacks id s).1.Going own own') :
      own = id ∧ own' = phase' := by
    obtain rfl : own = id := Option.some.inj (h.task.symm.trans hgoing'.task)
    exact ⟨rfl, h.toRunning.phase_eq hgoing'.toRunning⟩
  have hrecords : c.noteAttempts ⟨callbacks, .signal id s⟩ records =
      (headersIn (c.signal callbacks id s).2).map (⟨id, ·, []⟩) ++
        (c.takenFrame? (.signal id s)).elim records (AttemptRecord.add id · records) := rfl
  rcases hopens with ⟨hheaders, htransport⟩ | hheaders
  · rw [hheaders, List.map_nil, List.nil_append] at hrecords
    refine ⟨hrecords ▸ ⟨hplace, hresume, fun hgoing'' htransport'' => ?_⟩, ?_, ?_⟩
    · obtain ⟨rfl, rfl⟩ := hown hgoing''
      exact hcurrent (htransport htransport'')
    · simp only [hrecords, Client.take, hheaders, List.append_nil, List.map_reverse, hsame]
    · rw [hrecords, hframes]
  · rw [hheaders, List.map_singleton, List.singleton_append] at hrecords
    have hall : framesOf (c.noteAttempts ⟨callbacks, .signal id s⟩ records) =
        framesOf ((c.takenFrame? (.signal id s)).elim records (AttemptRecord.add id · records)) := by
      rw [hrecords, framesOf, List.append_nil]
    refine ⟨⟨?_, ?_, fun hgoing'' _ => ?_⟩, ?_, ?_⟩
    · rw [hall]
      exact hplace
    · rw [hrecords]
      exact ⟨by rw [hplace], hresume⟩
    · obtain ⟨rfl, -⟩ := hown hgoing''
      exact ⟨_, _, hrecords, rfl⟩
    · simp only [hrecords, Client.take, hheaders, List.reverse_cons, List.map_append,
        List.map_reverse, hsame, List.map_singleton]
    · rw [hall, hframes]

/-- Whatever is asked of the client from outside, it notes nothing and opens nothing. -/
theorem Placed.command (h : Placed c records) (hstands : Stands c) {command : Command}
    (hleave : command ≠ .disconnect) :
    TurnRecorded c records ⟨callbacks, .command command⟩ := by
  have hplace : (c.perform callbacks command).1.lastEventId = c.lastEventId :=
    (offering_lastEventId callbacks).performWith c trivial
  have hsteady := steady_perform callbacks c command
  refine .of_same ⟨hplace.trans h.place, h.resume, fun {id phase} hgoing htransport => ?_⟩ rfl
    (headersIn_eq_nil (by simp [Client.take, hsteady.legs])) rfl
  have hgoing' : (c.perform callbacks command).1.Going id phase := hgoing
  cases hstands with
  | idle hclosed htask hloops =>
    by_cases hconnect : command = .connect
    · subst hconnect
      have hscheduled : c.connect.1.Going c.nextLoop .scheduled := (going_connect htask hloops).1
      obtain rfl : id = c.nextLoop := Option.some.inj (hgoing'.task.symm.trans hscheduled.task)
      obtain rfl : phase = .scheduled := hgoing'.toRunning.phase_eq hscheduled.toRunning
      exact absurd htransport (by simp [Phase.hasTransport])
    · have haside : Aside c (c.perform callbacks command) := aside_rewiring c hconnect hleave
      have hnone := haside.link.task.trans htask
      exact absurd (hgoing'.task.symm.trans hnone) (by simp)
  | going own own' hown =>
    have haside : Aside c (c.perform callbacks command) := aside_performWith hown.active hleave
    have hown' := hown.moved (haside.moves hown.toRunning) hown.uncancelled
    obtain rfl : id = own := Option.some.inj (hgoing'.task.symm.trans hown'.task)
    obtain rfl : phase = own' := hgoing'.toRunning.phase_eq hown'.toRunning
    exact h.current hown htransport

theorem Placed.take (h : Placed c records) (hstands : Stands c) {turn : Turn}
    (hstays : turn.Stays) : TurnRecorded c records turn := by
  obtain ⟨callbacks, act⟩ := turn
  cases act with
  | command command => exact h.command hstands fun hc => hstays.act (by rw [hc])
  | signal id s =>
    by_cases hloop : c.loop? id = none
    · have hsame := take_unheard hloop callbacks s
      have hframe : c.takenFrame? (.signal id s) = none := by
        cases s <;> simp [Client.takenFrame?, takesFrame, hloop]
      refine .of_same ?_ ?_ (by rw [hsame]; rfl) hframe
      · rwa [hsame]
      · simp [noteAttempts, hsame, hframe, headersIn]
    obtain ⟨phase, hgoing⟩ := hstands.going_of_loop hloop
    exact h.signal hstays.handlers hstays.listeners hgoing s

end Turns

theorem Placed.run {c : Client} {records : List AttemptRecord} (h : Placed c records)
    (hundisturbed : c.Undisturbed) {turns : List Turn} (hstays : ∀ turn ∈ turns, turn.Stays) :
    Resume (c.attemptRecords records turns) ∧
      (c.attemptRecords records turns).reverse.map (·.resumesAfter) =
        records.reverse.map (·.resumesAfter) ++ headersIn (c.run turns).2 ∧
      framesOf (c.attemptRecords records turns) = framesOf records ++ c.takenFrames turns := by
  induction turns generalizing c records with
  | nil => simp [attemptRecords, Client.run, takenFrames, headersIn, h.resume]
  | cons turn rest ih =>
    rw [List.forall_mem_cons] at hstays
    have hturn := h.take hundisturbed.stands hstays.1
    obtain ⟨hresume, hheaders, hframes⟩ :=
      ih hturn.placed (hundisturbed.take hstays.1) hstays.2
    refine ⟨hresume, ?_, ?_⟩
    · simp only [attemptRecords, Client.run, headersIn_append, hheaders, hturn.headers,
        List.append_assoc]
    · simp only [attemptRecords, takenFrames, hframes, hturn.frames, List.append_assoc]

/-- As long as nobody disconnects: each attempt asks for its transport with the last identifier
among the frames of all attempts before it, whatever became of those frames, and with none if
there is no such identifier or it is empty. -/
theorem attempts_resume (connectedEvent : String) (backoff : Backoff) {turns : List Turn}
    (hstays : ∀ turn ∈ turns, turn.Stays) :
    let start := fresh connectedEvent backoff
    let attempts := start.attempts turns
    attempts.map (·.resumesAfter) = headersIn (start.run turns).2 ∧
      attempts.flatMap (·.frames) = start.takenFrames turns ∧
      ∀ k attempt, attempts[k]? = some attempt →
        let place := lastId? ((attempts.take k).flatMap (·.frames))
        (∀ v, attempt.resumesAfter = some v ↔ v ≠ "" ∧ place = some v) ∧
          (attempt.resumesAfter = none ↔ place = none ∨ place = some "") := by
  intro start attempts
  have hstart : Placed start [] := ⟨rfl, trivial, fun hgoing _ => nomatch hgoing.task⟩
  obtain ⟨hresume, hheaders, hframes⟩ :=
    hstart.run (undisturbed_fresh connectedEvent backoff) hstays
  refine ⟨hheaders, ?_, fun k attempt hk => ?_⟩
  · rw [AttemptRecord.framesOf_eq] at hframes
    exact hframes
  · intro place
    have hafter : attempt.resumesAfter = place.filter (· != "") := by
      rw [← List.reverse_reverse (start.attemptRecords [] turns)] at hresume
      exact hresume.resumesAfter_of_getElem? hk
    rw [hafter]
    refine ⟨fun v => ?_, ?_⟩
    · rw [Option.filter_eq_some_iff, bne_iff_ne, and_comm]
    · cases hplace : place with
      | none => simp
      | some v => simp [Option.filter_eq_none_iff]

/-- Identifiers on a handshake, on a frame that nobody has subscribed to and, empty, on a malformed
one; then one on a frame that ends its attempt. Some frames have none, and one attempt gets no
transport. -/
def identified : List Act := [
  .command (.subscribe "one" "line.status" (.named "first")), .command .connect,
  .signal 0 .begun, .signal 0 .opened,
  .signal 0 (.frame { event := "connected", id := some "1" }),
  .signal 0 (.frame { event := "line.created", id := some "2" }),
  .signal 0 (.frame (statusFrame "2024-01-01T00:00:00Z")),
  .signal 0 .ended, .signal 0 .closed, .signal 0 .woken, .signal 0 .opened,
  .signal 0 (.frame { event := "line.status", id := some "", data := "?" }),
  .signal 0 (.broke (.transport "reset")), .signal 0 .closed, .signal 0 .woken, .signal 0 .opened,
  .signal 0 (.frame { statusFrame "0001-01-01T00:00:00+01:00" with id := some "3" }),
  .signal 0 .closed, .signal 0 .woken, .signal 0 (.openFailed (.transport "refused")),
  .signal 0 .woken]

theorem identified_attempts_resume :
    let start := fresh "connected" doubling
    let turns := identified.map (⟨.quiet, ·⟩)
    headersIn (start.run turns).2 = [none, some "2", none, some "3", some "3"] ∧
      (start.takenFrames turns).map (·.id) = [some "1", some "2", none, some "", some "3"] ∧
      lastId? (((start.attempts turns).take 4).flatMap (·.frames)) = some "3" := by
  intro start turns
  have hacts : ∀ act ∈ identified, act ≠ .command .disconnect := by decide
  obtain ⟨hheaders, hframes, hresume⟩ := attempts_resume "connected" doubling
    (Turn.stays_of_quiet hacts)
  have hattempts : (start.attempts turns).map
      (fun attempt => (attempt.resumesAfter, attempt.frames.map (·.id))) = [
        (none, [some "1", some "2", none]), (some "2", [some ""]), (none, [some "3"]),
        (some "3", []), (some "3", [])] := by decide +kernel
  refine ⟨?_, ?_, ?_⟩
  · have hfirst := congrArg (List.map Prod.fst) hattempts
    rw [List.map_map] at hfirst
    exact hheaders.symm.trans hfirst
  · have hsecond := congrArg (List.flatMap Prod.snd) hattempts
    rw [List.flatMap_map] at hsecond
    rw [← hframes, List.map_flatMap]
    exact hsecond
  · have hfifth := congrArg (·[4]?) hattempts
    rw [List.getElem?_map] at hfifth
    obtain ⟨attempt, hattempt, hlast⟩ := Option.map_eq_some_iff.1 hfifth
    have hafter : attempt.resumesAfter = some "3" := congrArg Prod.fst hlast
    exact (((hresume 4 attempt hattempt).1 "3").mp hafter).2

end Client

end LineWatch
