import LineWatch.Proofs.Connection.Attending
import LineWatch.Proofs.Connection.Course

/-!
# A failing handler is on its own

A client gets one more handler, which fails whenever it is called. As long as nobody disconnects or
unsubscribes, nobody else notices: the other handlers are offered the same events, and watermarks,
states, delays and the identifiers with which transports are opened are the same as without it.
-/

namespace LineWatch

variable {broken : Handler}

/-! ## Lists without the handler -/

theorem othersThan_eq_self {handlers : List Handler} :
    othersThan broken handlers = handlers ↔ broken ∉ handlers := by
  rw [othersThan, List.filter_eq_self]
  constructor
  · intro h hmem
    simpa using h broken hmem
  · intro h handler hmem
    exact decide_eq_true fun heq => h (heq ▸ hmem)

theorem accompanied_of_not_mem {handlers : List Handler} (h : broken ∉ handlers) :
    Accompanied broken handlers where
  others hne := (othersThan_eq_self.mpr h).symm ▸ hne
  once := by simp [List.count_eq_zero.mpr h]

theorem Emission.of_concerns {emission : Emission} (h : emission.concerns broken = true) :
    (∃ event, emission = .offered broken event) ∨
      ∃ tag channel error, emission = .notice (.handlerFailed tag channel error) := by
  cases emission with
  | offered handler event =>
    obtain rfl : handler = broken := of_decide_eq_true h
    exact .inl ⟨event, rfl⟩
  | notice notice =>
    cases notice with
    | handlerFailed tag channel error => exact .inr ⟨tag, channel, error, rfl⟩
    | _ => cases h
  | _ => cases h

/-- What shows nothing of the handler and of failures is not touched by leaving them out. -/
theorem filterMap_apartFrom {β : Type} {observe : Emission → Option β}
    (hoffers : ∀ event, observe (.offered broken event) = none)
    (hfailures : ∀ tag channel error,
      observe (.notice (.handlerFailed tag channel error)) = none)
    (emissions : List Emission) :
    (apartFrom broken emissions).filterMap observe = emissions.filterMap observe := by
  rw [apartFrom, List.filterMap_filter]
  refine List.filterMap_congr fun emission _ => ?_
  cases hconcerns : emission.concerns broken with
  | false => rfl
  | true =>
    obtain ⟨event, rfl⟩ | ⟨tag, channel, error, rfl⟩ := Emission.of_concerns hconcerns
    · exact (hoffers event).symm
    · exact (hfailures tag channel error).symm

/-- The offers to the other handlers. -/
theorem offersIn_apartFrom (emissions : List Emission) :
    offersIn (apartFrom broken emissions) = (offersIn emissions).filter (·.1 ≠ broken) := by
  rw [offersIn, offersIn, apartFrom, List.filterMap_filter, List.filter_filterMap]
  refine List.filterMap_congr fun emission _ => ?_
  cases emission with
  | offered handler event =>
    by_cases h : handler = broken <;> simp [Emission.concerns, Emission.offer?, Option.filter, h]
  | notice notice => cases notice <;> rfl
  | _ => rfl

/-- The handlers that the loop has yet to get to. -/
def Phase.callees (phase : Phase) : List Handler := phase.inHand?.elim [] (·.2.1)

theorem Phase.without_eq_self {phase : Phase} (h : broken ∉ phase.callees) :
    phase.without broken = phase := by
  cases phase with
  | handling tag event current rest delivered =>
    rw [Phase.without, othersThan_eq_self.mpr (List.not_mem_of_not_mem_cons h)]
  | _ => rfl

theorem Phase.spares_of_not_mem {phase : Phase} (h : broken ∉ phase.callees) :
    phase.Spares broken := by
  cases phase with
  | handling tag event current rest delivered =>
    refine ⟨fun heq => h (heq ▸ List.mem_cons_self), ?_⟩
    simp [List.count_eq_zero.mpr (List.not_mem_of_not_mem_cons h)]
  | _ => trivial

namespace Client

variable {c : Client}

/-! ## A client that has never heard of the handler -/

/-- The handlers that the client has, or that its loops have yet to get to. -/
def callees (c : Client) : List Handler :=
  c.handlers.flatMap (·.2) ++ c.loops.flatMap (·.2.phase.callees)

/-- The handler is nowhere to be found. -/
structure Lacks (c : Client) (broken : Handler) : Prop where
  same : c.without broken = c
  accompanies : c.Accompanies broken

theorem lacks_of_not_mem (h : broken ∉ c.callees) : c.Lacks broken := by
  rw [callees, List.mem_append, not_or] at h
  simp only [List.mem_flatMap, not_exists, not_and] at h
  obtain ⟨htags, hloops⟩ := h
  refine ⟨?_, fun kv hkv => accompanied_of_not_mem (htags kv hkv),
    fun kv hkv => Phase.spares_of_not_mem (hloops kv hkv)⟩
  have hhandlers : c.handlers.map (fun kv => (kv.1, othersThan broken kv.2)) = c.handlers := by
    refine (List.map_congr_left fun kv hkv => ?_).trans (List.map_id _)
    rw [othersThan_eq_self.mpr (htags kv hkv), id]
  have hphases : c.loops.map (fun kv => (kv.1, kv.2.without broken)) = c.loops := by
    refine (List.map_congr_left fun kv hkv => ?_).trans (List.map_id _)
    rw [Loop.without, Phase.without_eq_self (hloops kv hkv), id]
  rw [without, hhandlers, hphases]

theorem Lacks.handlersOf (h : c.Lacks broken) (tag : String) : broken ∉ c.handlersOf tag := by
  rw [← othersThan_eq_self, ← handlersOf_without, h.same]

theorem Lacks.rest {id : Nat} {tag : String} {event : StreamEvent} {current : Handler}
    {rest : List Handler} {delivered : Bool} (h : c.Lacks broken)
    (hrun : c.Running id (.handling tag event current rest delivered)) : broken ∉ rest := by
  have hsame : (c.without broken).loop? id = c.loop? id := by rw [h.same]
  rw [loop?_without, hrun.loop?] at hsame
  rw [← othersThan_eq_self]
  simpa [Loop.without, Phase.without] using hsame

theorem dispatch_rushed (callbacks : Callbacks) {frame : Frame}
    (h : broken ∉ c.handlersOf frame.event) :
    c.dispatch (callbacks.rushed broken) frame = c.dispatch callbacks frame := by
  unfold dispatch
  have hsorts := c.sorts_sort frame
  cases hsort : c.sort frame with
  | drop reason notices => rfl
  | unreadable => rfl
  | event event handlers =>
    rw [hsort] at hsorts
    dsimp only
    rw [offerAll_rushed_of_not_mem frame.event event (hsorts.1 ▸ h)]

theorem resumeOffer_rushed (callbacks : Callbacks) (tag : String) (event : StreamEvent)
    (current : Handler) (delivered : Bool) {rest : List Handler} (h : broken ∉ rest) :
    c.resumeOffer (callbacks.rushed broken) tag event current rest delivered =
      c.resumeOffer callbacks tag event current rest delivered := by
  simp only [resumeOffer, offer_rushed, offerAll_rushed_of_not_mem tag event h]

/-- The handler is never asked whether it waits. -/
theorem Lacks.take_rushed (h : c.Lacks broken) (hstands : Stands c) (turn : Turn) :
    c.take (turn.rushed broken) = c.take turn := by
  obtain ⟨callbacks, act⟩ := turn
  cases act with
  | command command => simp only [Turn.rushed, Client.take, perform, disconnect_rushed]
  | signal id s =>
    by_cases hloop : c.loop? id = none
    · exact (take_unheard hloop _ s).trans (take_unheard hloop callbacks s).symm
    obtain ⟨phase, hgoing⟩ := hstands.going_of_loop hloop
    have hrun := hgoing.toRunning
    refine signal_rushed hrun (fun frame _ _ _ => dispatch_rushed callbacks ?_) ?_
    · have hnoted : (c.noted frame).handlersOf frame.event = c.handlersOf frame.event := by
        unfold noted
        cases frame.id <;> rfl
      exact hnoted ▸ h.handlersOf frame.event
    · rintro tag event current rest delivered rfl -
      exact resumeOffer_rushed callbacks tag event current delivered (h.rest hrun)

theorem Lacks.run_rushed (h : c.Lacks broken) (hundisturbed : c.Undisturbed) {turns : List Turn}
    (hgives : ∀ turn ∈ turns, turn.Gives (·.Spares broken))
    (hbreak : ∀ turn ∈ turns, turn.callbacks.Break broken) :
    c.run (turns.map (Turn.rushed broken)) = c.run turns := by
  induction turns generalizing c with
  | nil => rfl
  | cons turn rest ih =>
    simp only [List.forall_mem_cons] at hgives hbreak
    have hsame := h.take_rushed hundisturbed.stands turn
    have hmirror := mirrors_take_rushed hundisturbed.stands h.accompanies hgives.1 hbreak.1
    have hlater : (c.take turn).1.Lacks broken := by
      rw [h.same, hsame] at hmirror
      exact ⟨hmirror.client.symm, hmirror.accompanies⟩
    simp only [List.map_cons, run, hsame, ih hlater (hundisturbed.take hgives.1.stays) hgives.2
      hbreak.2]

/-! ## The handler joins -/

/-- The handler is put in among those of a tag. -/
def join (c : Client) (tag : String) (position : Nat) (handler : Handler) : Client :=
  let handlers := c.handlersOf tag
  { c with
    handlers := c.handlers.set tag (handlers.take position ++ handler :: handlers.drop position) }

/-- Who subscribes joins at the end. -/
theorem handlers_subscribe (c : Client) (name tag : String) (handler : Handler) :
    (c.subscribe name tag handler).handlers =
      (c.join tag (c.handlersOf tag).length handler).handlers := by
  simp [subscribe, join]

section Join

variable {tag : String}

theorem othersThan_join (handlers : List Handler) (position : Nat) :
    othersThan broken (handlers.take position ++ broken :: handlers.drop position) =
      othersThan broken handlers := by
  conv_rhs => rw [← List.take_append_drop position handlers]
  simp only [othersThan, List.filter_append]
  rw [List.filter_cons_of_neg (by simp)]

theorem Lacks.without_join (h : c.Lacks broken) (htag : c.handlersOf tag ≠ []) (position : Nat) :
    (c.join tag position broken).without broken = c := by
  have hget : c.handlers.get? tag = some (c.handlersOf tag) := by
    unfold Client.handlersOf at htag ⊢
    cases hget : c.handlers.get? tag with
    | none => simp [hget] at htag
    | some handlers => rfl
  have hset : c.handlers.set tag (c.handlersOf tag) = c.handlers := Keyed.set_of_get? hget
  have hjoined : (c.join tag position broken).without broken = c.without broken := by
    simp only [without, join, ← Keyed.set_map_snd, othersThan_join]
    rw [Keyed.set_map_snd (othersThan broken), hset]
  rw [hjoined, h.same]

theorem Lacks.accompanies_join (h : c.Lacks broken) (htag : c.handlersOf tag ≠ [])
    (position : Nat) : (c.join tag position broken).Accompanies broken := by
  refine ⟨fun kv hkv => ?_, h.accompanies.loops⟩
  rcases Keyed.mem_set hkv with rfl | hold
  · have hnone := List.count_eq_zero.mpr (h.handlersOf tag)
    refine ⟨fun _ => ?_, ?_⟩
    · rw [othersThan_join, othersThan_eq_self.mpr (h.handlersOf tag)]
      exact htag
    · rw [← List.take_append_drop position (c.handlersOf tag), List.count_append] at hnone
      rw [List.count_append, List.count_cons_self]
      omega
  · exact h.accompanies.tags kv hold

theorem Undisturbed.join (h : c.Undisturbed) (tag : String) (position : Nat) (handler : Handler) :
    (c.join tag position handler).Undisturbed := by
  obtain ⟨hstands, offered, diary, htallies⟩ := h
  refine ⟨?_, offered, diary, htallies.offers, fun channel => ?_⟩
  · cases hstands with
    | idle hclosed htask hloops => exact .idle hclosed htask hloops
    | going id phase hgoing =>
      exact .going id phase ⟨⟨hgoing.closed, hgoing.task, hgoing.loop?⟩, hgoing.alone,
        hgoing.uncancelled⟩
  · have hhand : (c.join tag position handler).inHand? = c.inHand? := rfl
    have hmarks : (c.join tag position handler).watermarks = c.watermarks := rfl
    have hadvance (event : StreamEvent) :
        ((c.join tag position handler).advance event).newest? = (c.advance event).newest? :=
      newest?_congr (watermarks_advance_congr hmarks event)
    rw [← htallies.newest channel]
    simp only [newestInHand?, hhand, hadvance, newest?_congr hmarks]

end Join

/-! ## Isolation -/

/-- One more handler, in any place among the handlers of a tag that has some already, which fails
whenever it is called, at once or after a wait that ends at once. As long as nobody disconnects or
unsubscribes, everybody else is offered what they would be offered without it, and the watermarks,
the changes of the state, the attempts with the sleeps between them and the identifiers with which
transports are opened are the same. If it never waits, the turns are the same, too. -/
theorem broken_handler_isolated (connectedEvent : String) (backoff : Backoff)
    {before turns : List Turn} (hbefore : ∀ turn ∈ before, turn.Stays)
    (hgives : ∀ turn ∈ turns, turn.Gives (·.Spares broken))
    (hbreak : ∀ turn ∈ turns, turn.callbacks.Break broken) (tag : String) (position : Nat)
    (hnew : broken ∉ ((fresh connectedEvent backoff).run before).1.callees)
    (htag : ((fresh connectedEvent backoff).run before).1.handlersOf tag ≠ []) :
    let c := ((fresh connectedEvent backoff).run before).1
    let joined := c.join tag position broken
    let full := joined.run (joined.attended broken turns)
    let alone := c.run turns
    (offersIn full.2).filter (·.1 ≠ broken) = (offersIn alone.2).filter (·.1 ≠ broken) ∧
      full.1.watermarks = alone.1.watermarks ∧
      stateChanges full.2 = stateChanges alone.2 ∧ full.1.state = alone.1.state ∧
      legsIn full.2 = legsIn alone.2 ∧ full.1.backoff = alone.1.backoff ∧
      headersIn full.2 = headersIn alone.2 ∧ full.1.lastEventId = alone.1.lastEventId ∧
      ((∀ turn ∈ turns, turn.callbacks.Rush broken) → full = joined.run turns) := by
  intro c joined full alone
  have hlacks : c.Lacks broken := lacks_of_not_mem hnew
  have hundisturbed : c.Undisturbed := (undisturbed_fresh connectedEvent backoff).run hbefore
  have hjoined : joined.Undisturbed := hundisturbed.join tag position broken
  have haccompanies : joined.Accompanies broken := hlacks.accompanies_join htag position
  -- the run with the handler is mirrored by the run without it, in which it does not matter
  -- whether the handler would wait
  have hmirror : Mirrors broken full alone := by
    have hmirror := mirrors_run_attended hjoined haccompanies hgives hbreak
    rwa [hlacks.without_join htag position, hlacks.run_rushed hundisturbed hgives hbreak]
      at hmirror
  have hshown {β : Type} (observe : Emission → Option β)
      (hoffers : ∀ event, observe (.offered broken event) = none)
      (hfailures : ∀ tag channel error,
        observe (.notice (.handlerFailed tag channel error)) = none) :
      full.2.filterMap observe = alone.2.filterMap observe := by
    rw [← filterMap_apartFrom hoffers hfailures, ← hmirror.emissions,
      filterMap_apartFrom hoffers hfailures]
  have hkept {β : Type} (part : Client → β) (hpart : part (full.1.without broken) = part full.1) :
      part full.1 = part alone.1 := by rw [hmirror.client, hpart]
  refine ⟨?_, hkept watermarks rfl, hshown (·.stateChange?) (fun _ => rfl) fun _ _ _ => rfl,
    hkept state rfl, hshown (·.leg?) (fun _ => rfl) fun _ _ _ => rfl, hkept Client.backoff rfl,
    hshown (·.header?) (fun _ => rfl) fun _ _ _ => rfl, hkept lastEventId rfl,
    run_attended_of_rush hjoined haccompanies hgives hbreak⟩
  rw [← offersIn_apartFrom, ← offersIn_apartFrom, hmirror.emissions]

/-- The first of three handlers waits and then fails, and the last one waits. -/
def failsLate : Callbacks where
  react handler _ :=
    if handler = .named "broken" then { suspends := true, outcome := .error "broken" }
    else { suspends := handler = .named "second" }
  hear _ _ := .ok []

theorem failsLate_give (allowed : Command → Prop) : failsLate.Give allowed where
  handlers handler event commands h := by
    by_cases hbroken : handler = .named "broken"
    · simp [failsLate, hbroken] at h
    · obtain rfl : [] = commands := by simpa [failsLate, hbroken] using h
      simp
  listeners listener state commands h := by
    obtain rfl : [] = commands := Except.ok.inj h
    simp

/-- A handshake and an event with an identifier, and after a reconnect an older event and the same
one again. -/
def twoAttempts : List Signal := [
  .frame { event := "connected" },
  .frame { statusFrame "2024-01-01T00:00:00Z" with id := some "7" }, .resumed,
  .ended, .closed, .woken, .opened, .frame (statusFrame "2023-12-31T23:59:59Z"),
  .frame (statusFrame "2024-01-01T00:00:00Z"), .resumed]

theorem broken_first_isolated :
    let c := ((fresh "connected" doubling).run (toFirstFrames.map (⟨.quiet, ·⟩))).1
    let joined := c.join "line.status" 0 (.named "broken")
    let turns : List Turn := twoAttempts.map fun s => ⟨failsLate, .signal 0 s⟩
    let full := joined.run (joined.attended (.named "broken") turns)
    joined.handlersOf "line.status" = [.named "broken", .named "first", .named "second"] ∧
      ((offersIn full.2).filter (·.1 ≠ .named "broken")).map
          (fun offer => (offer.1, offer.2.timestamp?.map (·.micros))) = [
        (.named "first", some 1704067200000000), (.named "second", some 1704067200000000),
        (.named "first", some 1704067200000000), (.named "second", some 1704067200000000)] ∧
      (offersIn full.2).countP (·.1 = .named "broken") = 2 ∧
      (full.1.watermark? "line.status:a").map (·.micros) = some 1704067200000000 ∧
      stateChanges full.2 = [(.connecting, .connected), (.connected, .reconnecting),
        (.reconnecting, .connecting)] ∧
      legsIn full.2 = [.sleeps (.finite 1), .opens] ∧ headersIn full.2 = [some "7"] := by
  intro c joined turns full
  have hacts : ∀ act ∈ toFirstFrames, act ≠ .command .disconnect := by decide
  have hgives : ∀ turn ∈ turns, turn.Gives (·.Spares (.named "broken")) := by
    intro turn hturn
    obtain ⟨s, -, rfl⟩ := List.mem_map.1 hturn
    exact ⟨failsLate_give _, fun command hcommand => by cases hcommand⟩
  have hbreak : ∀ turn ∈ turns, turn.callbacks.Break (.named "broken") := by
    intro turn hturn event
    obtain ⟨s, -, rfl⟩ := List.mem_map.1 hturn
    rfl
  obtain ⟨hoffers, hmarks, hstates, -, hlegs, -, hheaders, -⟩ :=
    broken_handler_isolated "connected" doubling (Turn.stays_of_quiet hacts) hgives hbreak
      "line.status" 0 (by decide +kernel) (by decide +kernel)
  rw [hoffers, watermark?, hmarks, hstates, hlegs, hheaders]
  decide +kernel

end Client

end LineWatch
