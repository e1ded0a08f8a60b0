import LineWatch.Proofs.Connection.Succession

/-!
# Loops that the client has forgotten

A client that is closed has no loop, and the loops that it has forgotten are on their way out:
their cancellation is pending, or it has taken effect and they are closing. Nothing that handlers
and listeners do moves a loop on; they can only start one more and ask for the end of the one that
the client has.
-/

namespace LineWatch

/-- The loop is to be cancelled, or has been and is closing. -/
def Loop.Abandoned (l : Loop) : Prop := l.cancelling = true ∨ l.phase = .closing .cancelled

/-- The signal takes a loop on that is to be cancelled: the transport swallows the cancellation. -/
def Phase.swallows : Phase → Signal → Bool
  | .opening, .opened | .opening, .openFailed _ | .receiving, .frame _ | .receiving, .ended
  | .receiving, .broke _ | .closing _, .closed => true
  | _, _ => false

namespace Client

theorem loop?_mapLoop_of_ne (c : Client) {id other : Nat} (h : other ≠ id) (f : Loop → Loop) :
    (c.mapLoop id f).loop? other = c.loop? other := by
  simp only [loop?, mapLoop]
  induction c.loops with
  | nil => rfl
  | cons kv rest ih =>
    obtain ⟨k, l⟩ := kv
    by_cases hk : k = id
    · have hne : (other == k) = false := by simpa [hk] using h
      simpa [List.lookup_cons, hk, hk ▸ hne] using ih
    · simp only [List.map_cons, if_neg hk, List.lookup_cons, ih]

theorem loop?_setPhase (c : Client) (id : Nat) (phase : Phase) :
    (c.setPhase id phase).loop? id = (c.loop? id).map fun l => { l with phase := phase } :=
  loop?_mapLoop c id _

theorem loop?_setPhase_of_ne (c : Client) {id other : Nat} (h : other ≠ id) (phase : Phase) :
    (c.setPhase id phase).loop? other = c.loop? other := loop?_mapLoop_of_ne c h _

theorem loop?_endLoop (c : Client) (id : Nat) : (c.endLoop id).loop? id = none := by
  simp only [loop?, endLoop]
  induction c.loops with
  | nil => rfl
  | cons kv rest ih =>
    obtain ⟨k, l⟩ := kv
    by_cases hk : k = id
    · simpa [hk] using ih
    · have hne : (id == k) = false := by simpa using Ne.symm hk
      simpa [hk, List.lookup_cons, hne] using ih

theorem loop?_endLoop_of_ne (c : Client) {id other : Nat} (h : other ≠ id) :
    (c.endLoop id).loop? other = c.loop? other := by
  simp only [loop?, endLoop]
  induction c.loops with
  | nil => rfl
  | cons kv rest ih =>
    obtain ⟨k, l⟩ := kv
    by_cases hk : k = id
    · have hne : (other == id) = false := by simpa using h
      simpa [hk, List.lookup_cons, hne] using ih
    · simp [hk, List.lookup_cons, ih]

theorem task_ne_of_activeLoop? {c : Client} {id : Nat} {l : Loop} (h : c.activeLoop? = none)
    (hloop : c.loop? id = some l) : c.task ≠ some id := by
  intro htask
  simp [activeLoop?, htask, hloop] at h

theorem task_halt (c : Client) : c.halt.1.task = none := by
  unfold halt
  dsimp only
  split <;> rfl

theorem nextLoop_halt (c : Client) : c.halt.1.nextLoop = c.nextLoop := by
  unfold halt
  dsimp only
  split <;> rfl

/-- Halting asks for the end of the loop that the client has, and of no other. -/
theorem loop?_halt (c : Client) (id : Nat) : c.halt.1.loop? id =
    if c.activeLoop? = some id then (c.loop? id).map fun l => { l with cancelling := true }
    else c.loop? id := by
  unfold halt
  dsimp only
  cases hactive : c.activeLoop? with
  | none => rfl
  | some own =>
    dsimp only
    by_cases hid : id = own
    · rw [hid, if_pos rfl]
      exact loop?_mapLoop _ own _
    · rw [if_neg fun h => hid (Option.some.inj h).symm]
      exact loop?_mapLoop_of_ne _ hid _

theorem exists_loop?_of_halt {c : Client} {id : Nat} {l : Loop}
    (hl : c.halt.1.loop? id = some l) : ∃ l', c.loop? id = some l' ∧ l'.phase = l.phase ∧
      (l'.cancelling = true → l.cancelling = true) ∧
      (c.activeLoop? = some id → l.cancelling = true) := by
  rw [loop?_halt] at hl
  split at hl
  · obtain ⟨l', hl', rfl⟩ := Option.map_eq_some_iff.1 hl
    exact ⟨l', hl', rfl, fun _ => rfl, fun _ => rfl⟩
  · next hidle => exact ⟨l, hl, rfl, fun h => h, fun hactive => absurd hactive hidle⟩

/-- The loop that `connect` starts comes after those that there are. -/
theorem loop?_connect {c : Client} (h : c.activeLoop? = none) (id : Nat) :
    c.connect.1.loop? id =
      (c.loop? id).or (if id = c.nextLoop then some { phase := .scheduled } else none) := by
  have hloops : c.connect.1.loops = c.loops ++ [(c.nextLoop, { phase := .scheduled })] := by
    rw [connect, h]
  rw [loop?, hloops, loop?, List.lookup_append]
  by_cases hid : id = c.nextLoop
  · simp [hid]
  · have hne : (id == c.nextLoop) = false := by simpa using hid
    simp [List.lookup_cons, hne, hid]

/-- The client has at most one loop that goes on, and none if it is closed. -/
structure Tidy (c : Client) : Prop where
  closed : c.closed = true → c.task = none
  numbered : ∀ {id : Nat} {l : Loop}, c.loop? id = some l → id < c.nextLoop
  abandoned : ∀ {id : Nat} {l : Loop}, c.loop? id = some l → c.task ≠ some id → l.Abandoned

theorem tidy_fresh (connectedEvent : String) (backoff : Backoff) :
    (fresh connectedEvent backoff).Tidy where
  closed _ := rfl
  numbered h := by simp [fresh, loop?] at h
  abandoned h := by simp [fresh, loop?] at h

theorem running_connect {c : Client} (h : c.Tidy) (hactive : c.activeLoop? = none) :
    c.connect.1.Running c.nextLoop .scheduled := by
  have hnew : c.loop? c.nextLoop = none := by
    cases hloop : c.loop? c.nextLoop with
    | none => rfl
    | some l => exact absurd (h.numbered hloop) (Nat.lt_irrefl _)
  refine ⟨by rw [connect, hactive], by rw [connect, hactive], ?_⟩
  rw [loop?_connect hactive, hnew, if_pos rfl]
  rfl

theorem Tidy.isOpen {c : Client} (h : c.Tidy) {id : Nat} {l : Loop} (hloop : c.loop? id = some l)
    (hgoing : ¬l.Abandoned) : c.closed = false := by
  cases hclosed : c.closed with
  | false => rfl
  | true =>
    have htask : c.task ≠ some id := by simp [h.closed hclosed]
    exact absurd (h.abandoned hloop htask) hgoing

/-- The loops that there are wait for what they have waited for. -/
structure Retains (c : Client) (result : Client × List Emission) : Prop where
  phase : ∀ {id : Nat} {l : Loop}, c.loop? id = some l →
    ∃ l', result.1.loop? id = some l' ∧ l'.phase = l.phase
  tidy : c.Tidy → result.1.Tidy

theorem Retains.refl (c : Client) : Retains c (c, []) := ⟨fun h => ⟨_, h, rfl⟩, fun h => h⟩

theorem Retains.trans {c c' c'' : Client} {first later : List Emission}
    (h : Retains c (c', first)) (h' : Retains c' (c'', later)) :
    Retains c (c'', first ++ later) where
  phase hloop := by
    obtain ⟨l', hl', hphase⟩ := h.phase hloop
    obtain ⟨l'', hl'', hphase'⟩ := h'.phase hl'
    exact ⟨l'', hl'', hphase'.trans hphase⟩
  tidy htidy := h'.tidy (h.tidy htidy)

/-- What does not touch the connection. -/
theorem Retains.of_sameLink {c : Client} {result : Client × List Emission}
    (h : SameLink c result.1) (hnext : result.1.nextLoop = c.nextLoop) : Retains c result := by
  have hloop (id : Nat) : result.1.loop? id = c.loop? id := by simp [loop?, h.loops]
  refine ⟨fun {id l} hl => ⟨l, (hloop id).trans hl, rfl⟩, fun htidy => ⟨?_, ?_, ?_⟩⟩
  · rw [h.closed, h.task]
    exact htidy.closed
  · intro id l hl
    rw [hloop] at hl
    rw [hnext]
    exact htidy.numbered hl
  · intro id l hl htask
    rw [hloop] at hl
    rw [h.task] at htask
    exact htidy.abandoned hl htask

theorem retains_halt (c : Client) : Retains c c.halt where
  phase {id l} hl := by
    rw [loop?_halt, hl]
    split
    · exact ⟨_, rfl, rfl⟩
    · exact ⟨_, rfl, rfl⟩
  tidy h := by
    refine ⟨fun _ => task_halt c, fun hl => ?_, fun {id l} hl _ => ?_⟩
    · obtain ⟨l', hl', -⟩ := exists_loop?_of_halt hl
      rw [nextLoop_halt]
      exact h.numbered hl'
    · obtain ⟨l', hl', hphase, hstays, hasked⟩ := exists_loop?_of_halt hl
      by_cases hactive : c.activeLoop? = some id
      · exact .inl (hasked hactive)
      · have htask : c.task ≠ some id := fun htask => hactive (by simp [activeLoop?, htask, hl'])
        rcases h.abandoned hl' htask with hcancelling | hclosing
        · exact .inl (hstays hcancelling)
        · exact .inr (hphase.symm.trans hclosing)

theorem retains_connect (c : Client) : Retains c c.connect := by
  cases hactive : c.activeLoop? with
  | some id =>
    rw [connect, hactive]
    exact .of_sameLink (.refl c) rfl
  | none =>
    have hloop := loop?_connect hactive
    have hclosed : c.connect.1.closed = false := by rw [connect, hactive]
    have htask : c.connect.1.task = some c.nextLoop := by rw [connect, hactive]
    have hnext : c.connect.1.nextLoop = c.nextLoop + 1 := by rw [connect, hactive]
    refine ⟨?_, fun htidy => ⟨?_, ?_, ?_⟩⟩
    · intro id l hl
      exact ⟨l, by rw [hloop, hl]; rfl, rfl⟩
    · simp [hclosed]
    · intro id l hl
      rw [hloop, Option.or_eq_some_iff] at hl
      rw [hnext]
      rcases hl with hl | ⟨-, hl⟩
      · exact Nat.lt_succ_of_lt (htidy.numbered hl)
      · split at hl
        · next hid => exact hid ▸ Nat.lt_succ_self _
        · cases hl
    · intro id l hl hne
      rw [hloop, Option.or_eq_some_iff] at hl
      rw [htask] at hne
      rcases hl with hl | ⟨-, hl⟩
      · exact htidy.abandoned hl (task_ne_of_activeLoop? hactive hl)
      · rw [if_neg fun hid => hne (by rw [hid])] at hl
        cases hl

theorem RewiredTo.retains {c c' : Client} (h : c.RewiredTo c') (emissions : List Emission) :
    Retains c (c', emissions) := by
  obtain ⟨handlers, subscriptions, listeners, watermarks, rfl⟩ := h
  exact .of_sameLink ⟨rfl, rfl, rfl⟩ rfl

theorem lasting_retains_halt :
    Lasting halt haltStory (fun _ => True) fun c result _ => Retains c result where
  rewires h := h.retains []
  trans := .trans
  report c _ _ := .of_sameLink (.refl c) rfl
  connect _ := retains_connect
  leave _ := retains_halt

theorem offering_retains (callbacks : Callbacks) :
    Offering callbacks (fun _ => True) fun c result _ => Retains c result where
  toLasting := lasting_retains_halt.lift callbacks.give_any retains_halt
    fun _ _ _ => .of_sameLink ⟨rfl, rfl, rfl⟩ rfl
  offers {c} _ _ _ := .of_sameLink (.refl c) rfl
  invokes {c} _ _ _ := .refl c

section Turns

variable (callbacks : Callbacks) {c : Client} {id : Nat} {l : Loop}

theorem retains_enter (c : Client) (state : ConnectionState) :
    Retains c (c.enter callbacks state) :=
  (offering_retains callbacks).enterWith callbacks.give_any fun _ =>
    .of_sameLink ⟨rfl, rfl, rfl⟩ rfl

/-- A loop that waits for something else than before is as abandoned as before. -/
theorem Tidy.setPhase (h : c.Tidy) (hloop : c.loop? id = some l)
    (hphase : l.phase ≠ .closing .cancelled) (phase : Phase) : (c.setPhase id phase).Tidy where
  closed := h.closed
  numbered {other l'} hl' := by
    by_cases hid : other = id
    · rw [hid]
      exact h.numbered hloop
    · rw [loop?_setPhase_of_ne c hid] at hl'
      exact h.numbered hl'
  abandoned {other l'} hl' htask := by
    by_cases hid : other = id
    · subst hid
      rw [loop?_setPhase, hloop] at hl'
      obtain rfl := Option.some.inj hl'
      exact .inl ((h.abandoned hloop htask).resolve_right hphase)
    · rw [loop?_setPhase_of_ne c hid] at hl'
      exact h.abandoned hl' htask

theorem Retains.setPhase {c' : Client} {emissions : List Emission}
    (h : Retains c (c', emissions)) (htidy : c.Tidy) (hloop : c.loop? id = some l)
    (hphase : l.phase ≠ .closing .cancelled) (phase : Phase) : (c'.setPhase id phase).Tidy := by
  obtain ⟨l', hl', hsame⟩ := h.phase hloop
  exact (h.tidy htidy).setPhase hl' (by rwa [hsame]) phase

theorem Tidy.endLoop (h : c.Tidy) (id : Nat) : (c.endLoop id).Tidy := by
  have hloop {other : Nat} {l' : Loop} (hl' : (c.endLoop id).loop? other = some l') :
      c.loop? other = some l' := by
    by_cases hid : other = id
    · rw [hid, loop?_endLoop] at hl'
      cases hl'
    · rwa [loop?_endLoop_of_ne c hid] at hl'
  exact ⟨h.closed, fun hl' => h.numbered (hloop hl'), fun hl' => h.abandoned (hloop hl')⟩

/-- A cancellation that takes effect ends the loop, or leaves it closing. -/
theorem loop?_cancel (c : Client) (id : Nat) (phase : Phase) {l' : Loop}
    (hl' : (c.cancel id phase).1.loop? id = some l') : l' = { phase := .closing .cancelled } := by
  cases phase with
  | scheduled | opening | sleeping | closing =>
    simp only [cancel, loop?_endLoop, reduceCtorEq] at hl'
  | receiving | handling =>
    simp only [cancel, loop?_setPhase, loop?_mapLoop, Option.map_map] at hl'
    obtain ⟨l, -, rfl⟩ := Option.map_eq_some_iff.1 hl'
    rfl

theorem loop?_cancel_of_ne (c : Client) {id other : Nat} (h : other ≠ id) (phase : Phase) :
    (c.cancel id phase).1.loop? other = c.loop? other := by
  cases phase with
  | scheduled | opening | sleeping | closing =>
    simp only [cancel, loop?_endLoop_of_ne _ h, loop?_mapLoop_of_ne c h]
  | receiving | handling =>
    simp only [cancel, loop?_setPhase_of_ne _ h, loop?_mapLoop_of_ne c h]

theorem sameClient_cancel (c : Client) (id : Nat) (phase : Phase) :
    (c.cancel id phase).1.closed = c.closed ∧ (c.cancel id phase).1.task = c.task ∧
      (c.cancel id phase).1.nextLoop = c.nextLoop := by
  cases phase <;> exact ⟨rfl, rfl, rfl⟩

/-- A loop that is to be cancelled and does not get on waits or is cancelled. -/
theorem signal_cancelling {phase : Phase} (hloop : c.loop? id = some ⟨phase, true⟩) {s : Signal}
    (h : phase.swallows s = false) :
    c.signal callbacks id s = c.cancel id phase ∨ c.signal callbacks id s = (c, []) := by
  unfold Client.signal
  rw [hloop]
  cases phase with
  | scheduled =>
    cases s with
    | begun | cancelled => exact .inl rfl
    | _ => exact .inr rfl
  | opening =>
    cases s with
    | cancelled => exact .inl rfl
    | opened | openFailed => cases h
    | _ => exact .inr rfl
  | receiving =>
    cases s with
    | cancelled => exact .inl rfl
    | frame | ended | broke => cases h
    | _ => exact .inr rfl
  | handling =>
    cases s with
    | resumed | cancelled => exact .inl rfl
    | _ => exact .inr rfl
  | closing =>
    cases s with
    | cancelled => exact .inl rfl
    | closed => cases h
    | _ => exact .inr rfl
  | sleeping =>
    cases s with
    | woken | cancelled => exact .inl rfl
    | _ => exact .inr rfl

theorem Tidy.cancel (h : c.Tidy) (hloop : c.loop? id = some l) (phase : Phase) :
    (c.cancel id phase).1.Tidy := by
  obtain ⟨hclosed, htask, hnext⟩ := sameClient_cancel c id phase
  refine ⟨by rw [hclosed, htask]; exact h.closed, ?_, ?_⟩
  · intro other l' hl'
    rw [hnext]
    by_cases hid : other = id
    · rw [hid]
      exact h.numbered hloop
    · rw [loop?_cancel_of_ne c hid] at hl'
      exact h.numbered hl'
  · intro other l' hl' hne
    rw [htask] at hne
    by_cases hid : other = id
    · exact .inr (congrArg Loop.phase (loop?_cancel c id phase (hid ▸ hl')))
    · rw [loop?_cancel_of_ne c hid] at hl'
      exact h.abandoned hl' hne

theorem Tidy.attempt (h : c.Tidy) (hloop : c.loop? id = some l)
    (hphase : l.phase ≠ .closing .cancelled) : (c.attempt callbacks id).1.Tidy := by
  unfold Client.attempt
  split
  · exact h.endLoop id
  · exact (retains_enter callbacks c .connecting).setPhase h hloop hphase .opening

theorem Tidy.retry (h : c.Tidy) (hloop : c.loop? id = some l)
    (hphase : l.phase ≠ .closing .cancelled) (failure : Failure) :
    (c.retry callbacks id failure).1.Tidy := by
  unfold Client.retry
  dsimp only
  split
  · exact h.endLoop id
  · have hgrown : Retains c ({ c with backoff := c.backoff.grow }, []) :=
      .of_sameLink ⟨rfl, rfl, rfl⟩ rfl
    exact (hgrown.trans (retains_enter callbacks _ .reconnecting)).setPhase h hloop hphase .sleeping

theorem retains_shake (c : Client) : Retains c (c.shake callbacks) := by
  have hreset : Retains c ({ c with backoff := c.backoff.reset }, []) :=
    .of_sameLink ⟨rfl, rfl, rfl⟩ rfl
  have hentered := hreset.trans (retains_enter callbacks _ .connected)
  exact ⟨hentered.phase, hentered.tidy⟩

theorem Retains.settleHanding {c' : Client} {emissions : List Emission}
    (h : Retains c (c', emissions)) (htidy : c.Tidy) (hloop : c.loop? id = some l)
    (hphase : l.phase ≠ .closing .cancelled) (handing : Handing) :
    (c'.settleHanding id handing).Tidy := by
  cases handing <;> exact h.setPhase htidy hloop hphase _

theorem Tidy.receive (h : c.Tidy) (hloop : c.loop? id = some l)
    (hphase : l.phase ≠ .closing .cancelled) (frame : Frame) :
    (c.receive callbacks id frame).1.Tidy := by
  by_cases hclosed : c.closed = true
  · rw [Client.receive, if_pos hclosed]
    exact h.setPhase hloop hphase _
  · obtain ⟨lastEventId, hreceive, -⟩ := receive_noted callbacks (by simpa using hclosed) id frame
    have hnoted : Retains c ({ c with lastEventId := lastEventId }, []) :=
      .of_sameLink ⟨rfl, rfl, rfl⟩ rfl
    rw [hreceive]
    split
    · exact (hnoted.trans (retains_shake callbacks _)).tidy h
    · have hdispatched := (offering_retains callbacks).dispatch callbacks.give_any
        { c with lastEventId := lastEventId } frame
      exact (hnoted.trans hdispatched).settleHanding h hloop hphase _

theorem Tidy.signal (h : c.Tidy) (id : Nat) (s : Signal) :
    (c.signal callbacks id s).1.Tidy := by
  unfold Client.signal
  cases hloop : c.loop? id with
  | none => exact h
  | some l =>
    dsimp only
    split
    · split
      · exact h.cancel hloop _
      · exact h
    · next hp =>
      split
      · exact h.cancel hloop _
      · exact h.attempt callbacks hloop (by simp [hp])
    · next hp => exact h.setPhase hloop (by simp [hp]) _
    · next hp => exact h.retry callbacks hloop (by simp [hp]) _
    · next hp => exact h.receive callbacks hloop (by simp [hp]) _
    · next hp => exact h.setPhase hloop (by simp [hp]) _
    · next hp => exact h.setPhase hloop (by simp [hp]) _
    · next hp =>
      split
      · exact h.cancel hloop _
      · next hstays =>
        have hopen : c.closed = false := h.isOpen hloop (by simp [Loop.Abandoned, hp, hstays])
        have hresumed := (offering_retains callbacks).resumeOffer callbacks.give_any hopen
        exact (hresumed ..).settleHanding h hloop (by simp [hp]) _
    · next outcome hp =>
      cases outcome with
      | cancelled => exact h.endLoop id
      | failed failure => exact h.retry callbacks hloop (by simp [hp]) failure
      | left =>
        simp only [afterClosing]
        split
        · exact h.endLoop id
        · exact h.retry callbacks hloop (by simp [hp]) _
    · next hp =>
      split
      · exact h.cancel hloop _
      · exact h.attempt callbacks hloop (by simp [hp])
    · exact h

end Turns

theorem Tidy.take {c : Client} (h : c.Tidy) (turn : Turn) : (c.take turn).1.Tidy := by
  obtain ⟨callbacks, act⟩ := turn
  cases act with
  | signal id s => exact h.signal callbacks id s
  | command command => exact ((offering_retains callbacks).performWith c trivial).tidy h

theorem Tidy.run {c : Client} (h : c.Tidy) (turns : List Turn) : (c.run turns).1.Tidy := by
  induction turns generalizing c with
  | nil => exact h
  | cons turn rest ih => exact ih (h.take turn)

end Client

end LineWatch
