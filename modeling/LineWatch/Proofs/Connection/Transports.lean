import LineWatch.Proofs.Connection.Attempt
import LineWatch.Proofs.Connection.Narration
import LineWatch.Proofs.Connection.Round

/-!
# Transports side by side

`disconnect` forgets a loop that may still be inside its transport, and `connect` heeds only the
loop that the client knows of. So two transports can be in use at the same time. They are not if at
the call of `connect` no loop is inside a transport: the loops that are left then get no further,
and the new loop has one transport after the other.
-/

namespace LineWatch

/-- A loop that is to be cancelled while it is outside its transport, and never gets into one. -/
def Loop.Spent (l : Loop) : Prop := l.cancelling = true ∧ l.phase.hasTransport = false

namespace Client

/-- The loop has a transport, or is about to open or to close it. -/
def usesTransport (c : Client) (id : Nat) : Bool := (c.loop? id).any (·.phase.hasTransport)

theorem usesTransport_iff {c : Client} {id : Nat} :
    c.usesTransport id = true ↔ ∃ l, c.loop? id = some l ∧ l.phase.hasTransport = true := by
  cases hloop : c.loop? id <;> simp [usesTransport, hloop]

def AtMostOneTransport (c : Client) : Prop :=
  ∀ id other, c.usesTransport id = true → c.usesTransport other = true → id = other

/-- None of the other loops is new, each waits for what it has waited for, and a cancellation that
has been pending is pending still. -/
def Spares (id : Nat) (c : Client) (result : Client × List Emission) : Prop :=
  ∀ other l', other ≠ id → result.1.loop? other = some l' →
    ∃ l, c.loop? other = some l ∧ l.phase = l'.phase ∧
      (l.cancelling = true → l'.cancelling = true)

theorem Spares.trans {id : Nat} {c c' c'' : Client} {first later : List Emission}
    (h : Spares id c (c', first)) (h' : Spares id c' (c'', later)) :
    Spares id c (c'', first ++ later) := by
  intro other l'' hother hl''
  obtain ⟨l', hl', hphase', hstays'⟩ := h' other l'' hother hl''
  obtain ⟨l, hl, hphase, hstays⟩ := h other l' hother hl'
  exact ⟨l, hl, hphase.trans hphase', fun hcancelling => hstays' (hstays hcancelling)⟩

theorem MovedTo.spares {c c' : Client} {id : Nat} (h : c.MovedTo id c')
    (emissions : List Emission) : Spares id c (c', emissions) := fun other l' hother hl' =>
  ⟨l', (h.loop? other hother).symm.trans hl', rfl, fun hcancelling => hcancelling⟩

theorem spares_state (id : Nat) (c : Client) (state : ConnectionState)
    (emissions : List Emission) : Spares id c ({ c with state := state }, emissions) :=
  fun _ l' _ hl' => ⟨l', hl', rfl, fun hcancelling => hcancelling⟩

theorem spares_halt (id : Nat) (c : Client) : Spares id c c.halt := by
  intro other l' _ hl'
  obtain ⟨l, hl, hphase, hstays, -⟩ := exists_loop?_of_halt hl'
  exact ⟨l, hl, hphase, hstays⟩

theorem lasting_spares_halt (id : Nat) :
    Lasting halt haltStory (· ≠ .connect) fun c result _ => Spares id c result where
  rewires h := (h.movedTo id).spares []
  trans := .trans
  report c _ _ := (MovedTo.refl c id).spares _
  connect hconnect := absurd rfl hconnect
  leave _ := spares_halt id

theorem narrates_spares {callbacks : Callbacks} (hgive : callbacks.Give (· ≠ .connect))
    (id : Nat) : Narrates callbacks (· ≠ .connect) id fun c result _ => Spares id c result where
  toLasting := (lasting_spares_halt id).lift hgive (spares_halt id)
    fun c _ _ => spares_state id c .disconnected _
  offers {c} _ _ _ := (MovedTo.refl c id).spares _
  invokes {c} _ _ _ := (MovedTo.refl c id).spares _
  emits c _ _ := (MovedTo.refl c id).spares _
  moves h := h.spares []
  enters {c} _ state _ := spares_state id c state _

/-- Whatever it gets, such a loop waits on or ends. -/
theorem signal_spent (callbacks : Callbacks) {c : Client} {id : Nat} {l : Loop}
    (hl : c.loop? id = some l) (hspent : l.Spent) (s : Signal) :
    (c.signal callbacks id s).1 = c ∨ (c.signal callbacks id s).1.loop? id = none := by
  obtain ⟨phase, cancelling⟩ := l
  obtain ⟨rfl, hphase⟩ : cancelling = true ∧ phase.hasTransport = false := hspent
  have hswallows : phase.swallows s = false := by
    cases phase with
    | scheduled | sleeping => rfl
    | _ => cases hphase
  rcases signal_cancelling callbacks hl hswallows with hcancel | hsame
  · rw [hcancel]
    right
    cases phase with
    | scheduled | sleeping => exact loop?_endLoop _ id
    | _ => cases hphase
  · exact .inl (congrArg Prod.fst hsame)

/-- All loops but this one are spent. -/
def OthersSpent (own : Nat) (c : Client) : Prop :=
  ∀ id l, id ≠ own → c.loop? id = some l → l.Spent

theorem Spares.spent {own id : Nat} {c : Client} {result : Client × List Emission}
    (h : Spares id c result) (hspent : OthersSpent own c) {other : Nat} {l' : Loop}
    (hown : other ≠ own) (hid : other ≠ id) (hl' : result.1.loop? other = some l') :
    l'.Spent := by
  obtain ⟨l, hl, hphase, hstays⟩ := h other l' hid hl'
  obtain ⟨hcancelling, htransport⟩ := hspent other l hown hl
  exact ⟨hstays hcancelling, hphase ▸ htransport⟩

theorem OthersSpent.take {own : Nat} {c : Client} (h : OthersSpent own c) (htidy : c.Tidy)
    {turn : Turn} (hgives : turn.Gives (· ≠ .connect)) : OthersSpent own (c.take turn).1 := by
  obtain ⟨callbacks, act⟩ := turn
  have hnarrates (id : Nat) := narrates_spares hgives.callbacks id
  intro other l' hown hl'
  cases act with
  | command command =>
    have hspares : Spares own c (c.perform callbacks command) :=
      (hnarrates own).performWith c (hgives.act command rfl)
    exact hspares.spent h hown hown hl'
  | signal id s =>
    have hspares : Spares id c (c.signal callbacks id s) :=
      (hnarrates id).signal hgives.callbacks htidy s
    have hafter : (c.signal callbacks id s).1.loop? other = some l' := hl'
    by_cases hid : other = id
    · subst hid
      cases hl : c.loop? other with
      | none => simp [Client.signal, hl] at hafter
      | some l =>
        have hspent := h other l hown hl
        rcases signal_spent callbacks hl hspent s with hsame | hended
        · exact h other l' hown (hsame ▸ hafter)
        · simp [hended] at hafter
    · exact hspares.spent h hown hid hafter

theorem OthersSpent.run {own : Nat} {c : Client} (h : OthersSpent own c) (htidy : c.Tidy)
    {turns : List Turn} (hgives : ∀ turn ∈ turns, turn.Gives (· ≠ .connect)) :
    OthersSpent own (c.run turns).1 := by
  induction turns generalizing c with
  | nil => exact h
  | cons turn rest ih =>
    exact ih (h.take htidy (hgives turn List.mem_cons_self)) (htidy.take turn)
      fun later hlater => hgives later (List.mem_cons_of_mem _ hlater)

theorem OthersSpent.atMostOne {own : Nat} {c : Client} (h : OthersSpent own c) :
    c.AtMostOneTransport := by
  have honly (id : Nat) (huses : c.usesTransport id = true) : id = own := by
    obtain ⟨l, hl, htransport⟩ := usesTransport_iff.mp huses
    refine Classical.byContradiction fun hown => ?_
    simp [(h id l hown hl).2] at htransport
  intro id other hid hother
  rw [honly id hid, honly other hother]

/-- Somebody connects while no loop is inside a transport. -/
theorem othersSpent_connect {c : Client} (htidy : c.Tidy) (hactive : c.activeLoop? = none)
    (hout : ∀ id, c.usesTransport id = false) : OthersSpent c.nextLoop c.connect.1 := by
  intro id l hid hl
  rw [loop?_connect hactive, if_neg hid, Option.or_none] at hl
  have htransport : l.phase.hasTransport = false := by
    simpa [usesTransport, hl] using hout id
  -- The client has forgotten the loop, which is not closing: its cancellation is still to come.
  rcases htidy.abandoned hl (task_ne_of_activeLoop? hactive hl) with hcancelling | hclosing
  · exact ⟨hcancelling, htransport⟩
  · rw [hclosing] at htransport
    cases htransport

theorem loop?_attempt (callbacks : Callbacks) {c : Client} (hopen : c.closed = false) (id : Nat)
    {other : Nat} {l : Loop} (hl : c.loop? other = some l) :
    ∃ l', (c.attempt callbacks id).1.loop? other = some l' ∧
      l'.phase = if other = id then .opening else l.phase := by
  obtain ⟨l', hl', hphase⟩ := (retains_enter callbacks c .connecting).phase hl
  rw [attempt, if_neg (by simp [hopen])]
  by_cases hid : other = id
  · subst hid
    exact ⟨{ l' with phase := .opening }, by rw [loop?_setPhase, hl']; rfl, by simp⟩
  · exact ⟨l', by rw [loop?_setPhase_of_ne _ hid, hl'], by rw [if_neg hid, hphase]⟩

/-- The new loop takes up its transport beside one that is in use. -/
theorem beside_of_usesTransport {c : Client} (htidy : c.Tidy) (hactive : c.activeLoop? = none)
    {id : Nat} (huses : c.usesTransport id = true) :
    ¬(c.connect.1.run [⟨.quiet, .signal c.nextLoop .begun⟩]).1.AtMostOneTransport := by
  have hrun := running_connect htidy hactive
  have hbegun : (c.connect.1.run [⟨.quiet, .signal c.nextLoop .begun⟩]).1 =
      (c.connect.1.attempt .quiet c.nextLoop).1 := by
    simp [run, take, signal, hrun.loop?]
  obtain ⟨l, hl, htransport⟩ := usesTransport_iff.mp huses
  have hid : id ≠ c.nextLoop := Nat.ne_of_lt (htidy.numbered hl)
  have hstill : c.connect.1.loop? id = some l := by
    rw [loop?_connect hactive, hl]
    rfl
  obtain ⟨new, hnew, hopening⟩ := loop?_attempt .quiet hrun.closed c.nextLoop hrun.loop?
  obtain ⟨old, hold, hsame⟩ := loop?_attempt .quiet hrun.closed c.nextLoop hstill
  rw [if_pos rfl] at hopening
  rw [if_neg hid] at hsame
  rw [hbegun]
  intro hone
  refine hid (hone id c.nextLoop ?_ ?_)
  · exact usesTransport_iff.mpr ⟨old, hold, hsame ▸ htransport⟩
  · exact usesTransport_iff.mpr ⟨new, hnew, hopening ▸ rfl⟩

/-- Until the next call of `connect` there is at most one transport in use at any time, however the
loops and the handlers fare, exactly if no loop is inside its transport when `connect` is called. -/
theorem transports_apart_iff (connectedEvent : String) (backoff : Backoff) (turns : List Turn)
    (hactive : ((fresh connectedEvent backoff).run turns).1.activeLoop? = none) :
    let c := ((fresh connectedEvent backoff).run turns).1
    (∀ later, (∀ turn ∈ later, turn.Gives (· ≠ .connect)) →
        (c.connect.1.run later).1.AtMostOneTransport) ↔
      ∀ id, c.usesTransport id = false := by
  intro c
  have htidy : c.Tidy := (tidy_fresh connectedEvent backoff).run turns
  constructor
  · intro h id
    cases huses : c.usesTransport id with
    | false => rfl
    | true =>
      refine absurd (h _ fun turn hturn => ?_) (beside_of_usesTransport htidy hactive huses)
      obtain rfl : turn = ⟨.quiet, .signal c.nextLoop .begun⟩ := by simpa using hturn
      exact ⟨Callbacks.give_quiet _, fun _ hcommand => nomatch hcommand⟩
  · intro hout later hgives
    exact ((othersSpent_connect htidy hactive hout).run
      ((retains_connect c).tidy htidy) hgives).atMostOne

/-- A client that has been disconnected while it had a transport. -/
def leftOnce : List Act := [
  .command .connect, .signal 0 .begun, .signal 0 .opened, .command .disconnect]

/-- Once the transport has been closed, the client may be connected again. -/
theorem one_transport_once_closed :
    let acts : List Act := leftOnce ++ [.signal 0 .cancelled, .signal 0 .closed]
    let c := ((fresh "connected" doubling).run (acts.map (⟨.quiet, ·⟩))).1
    c.activeLoop? = none ∧ ∀ later, (∀ turn ∈ later, turn.Gives (· ≠ .connect)) →
      (c.connect.1.run later).1.AtMostOneTransport := by
  intro acts c
  have hactive : c.activeLoop? = none := by decide +kernel
  have hloops : c.loops = [] := by decide +kernel
  refine ⟨hactive, (transports_apart_iff "connected" doubling _ hactive).mpr fun id => ?_⟩
  change c.usesTransport id = false
  simp [usesTransport, loop?, hloops]

/-- A client that is connected again at once, while the old transport still takes its time to close:
both transports have been opened, and none has been closed. -/
theorem transports_overlap :
    let acts : List Act := leftOnce ++
      [.command .connect, .signal 0 .cancelled, .signal 1 .begun, .signal 1 .opened]
    let result := (fresh "connected" doubling).run (acts.map (⟨.quiet, ·⟩))
    (result.1.loop? 0).map (·.phase) = some (.closing .cancelled) ∧
      (result.1.loop? 1).map (·.phase) = some .receiving ∧
      result.2.count (.opening none) = 2 ∧ .transportClosed ∉ result.2 ∧
      ¬result.1.AtMostOneTransport := by
  intro acts result
  refine ⟨by decide +kernel, by decide +kernel, by decide +kernel, by decide +kernel, ?_⟩
  intro hone
  have hfirst : result.1.usesTransport 0 = true := by decide +kernel
  have hsecond : result.1.usesTransport 1 = true := by decide +kernel
  exact absurd (hone 0 1 hfirst hsecond) (by decide)

end Client

end LineWatch
