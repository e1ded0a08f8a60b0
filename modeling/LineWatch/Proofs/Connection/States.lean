import LineWatch.Proofs.Connection.Narration

/-!
# The states of a client

The documented machine says which state may follow on which. What callbacks bring about that give
no `connect` leads to `disconnected` at most, and then the client is closed. A state that is
entered is followed by nothing else than that.
-/

namespace LineWatch

namespace ConnectionState

/-- The documented machine: which changes there may be. -/
def leadsTo : ConnectionState → ConnectionState → Bool
  | .disconnected, .connecting | .connecting, .connected | .connecting, .reconnecting
  | .connected, .reconnecting | .reconnecting, .connecting => true
  | previous, .disconnected => previous != .disconnected
  | _, _ => false

theorem leadsTo_disconnected {state : ConnectionState} (h : state ≠ .disconnected) :
    state.leadsTo .disconnected = true := by
  cases state <;> first | rfl | exact absurd rfl h

end ConnectionState

/-- The changes come one after the other from the first state to the last one, each as the machine
has it. -/
def IsPath : ConnectionState → List (ConnectionState × ConnectionState) → ConnectionState → Prop
  | first, [], last => first = last
  | first, (previous, state) :: rest, last =>
    previous = first ∧ previous.leadsTo state = true ∧ IsPath state rest last

theorem IsPath.append {first middle last : ConnectionState}
    {changes later : List (ConnectionState × ConnectionState)} (h : IsPath first changes middle)
    (h' : IsPath middle later last) : IsPath first (changes ++ later) last := by
  induction changes generalizing first with
  | nil =>
    obtain rfl : first = middle := h
    exact h'
  | cons change rest ih => exact ⟨h.1, h.2.1, ih h.2.2⟩

def Emission.stateChange? : Emission → Option (ConnectionState × ConnectionState)
  | .notice (.stateChanged previous state) => some (previous, state)
  | _ => none

def stateChanges (emissions : List Emission) : List (ConnectionState × ConnectionState) :=
  emissions.filterMap (·.stateChange?)

@[simp] theorem stateChanges_append (first later : List Emission) :
    stateChanges (first ++ later) = stateChanges first ++ stateChanges later :=
  List.filterMap_append ..

theorem stateChanges_of_isPlain {emissions : List Emission}
    (h : ∀ emission ∈ emissions, emission.isPlain = true) : stateChanges emissions = [] := by
  rw [stateChanges, List.filterMap_eq_nil_iff]
  intro emission hmem
  have hplain := h emission hmem
  cases emission with
  | notice notice => cases notice <;> first | rfl | cases hplain
  | offered => cases hplain
  | _ => rfl

theorem stateChanges_singleton {emission : Emission} (h : emission.isPlain = true) :
    stateChanges [emission] = [] := stateChanges_of_isPlain (by simpa using h)

namespace Client

/-! ## What callbacks bring about -/

theorem lasting_sameState_halt :
    Lasting halt haltStory (fun _ => True) fun c result _ => result.1.state = c.state where
  rewires h := (h.movedTo 0).state
  trans h h' := h'.trans h
  report _ _ _ := rfl
  connect _ := state_connect
  leave _ := state_halt

theorem state_disconnect (callbacks : Callbacks) (c : Client) :
    (c.disconnect callbacks).1.state = .disconnected := by
  change (enterWith halt callbacks .disconnected c.halt.1).1.state = .disconnected
  unfold enterWith
  split
  · assumption
  · exact lasting_sameState_halt.announceWith callbacks.give_any .disconnected
      { c.halt.1 with state := .disconnected } c.halt.1.listeners

/-- The state changes only to `disconnected`, and not at all if the client is not closed afterwards;
then the connection is as before. -/
structure Falls (c : Client) (result : Client × List Emission) : Prop where
  path : IsPath c.state (stateChanges result.2) result.1.state
  targets : ∀ change ∈ stateChanges result.2, change.2 = .disconnected
  link : result.1.closed = false → SameLink c result.1 ∧ result.1.state = c.state

theorem Falls.trans {c c' c'' : Client} {first later : List Emission}
    (h : Falls c (c', first)) (h' : Falls c' (c'', later)) : Falls c (c'', first ++ later) where
  path := by
    rw [stateChanges_append]
    exact h.path.append h'.path
  targets change hchange := by
    rw [stateChanges_append, List.mem_append] at hchange
    rcases hchange with hchange | hchange
    · exact h.targets change hchange
    · exact h'.targets change hchange
  link hopen := by
    obtain ⟨hlink', hstate'⟩ := h'.link hopen
    obtain ⟨hlink, hstate⟩ := h.link (hlink'.closed.symm.trans hopen)
    exact ⟨hlink.trans hlink', hstate'.trans hstate⟩

theorem Falls.of_sameLink {c : Client} {result : Client × List Emission}
    (hlink : SameLink c result.1) (hstate : result.1.state = c.state)
    (hemissions : stateChanges result.2 = []) : Falls c result := by
  refine ⟨?_, ?_, fun _ => ⟨hlink, hstate⟩⟩
  · rw [hemissions]
    exact hstate.symm
  · rw [hemissions]
    simp

theorem RewiredTo.falls {c c' : Client} (h : c.RewiredTo c') : Falls c (c', []) := by
  obtain ⟨handlers, subscriptions, listeners, watermarks, rfl⟩ := h
  exact .of_sameLink ⟨rfl, rfl, rfl⟩ rfl rfl

theorem falls_halt (c : Client) : Falls c c.halt := by
  have hchanges := stateChanges_of_isPlain (isPlain_halt c)
  refine ⟨?_, by simp [hchanges], fun hopen => ?_⟩
  · rw [hchanges]
    exact (state_halt c).symm
  · simp [closed_halt] at hopen

theorem falls_left {c : Client} (hclosed : c.closed = true) (hstate : c.state ≠ .disconnected) :
    Falls c ({ c with state := .disconnected },
      [.notice (.stateChanged c.state .disconnected)]) := by
  refine ⟨⟨rfl, ConnectionState.leadsTo_disconnected hstate, rfl⟩, ?_, fun hopen => ?_⟩
  · simp [stateChanges, Emission.stateChange?]
  · have hopen' : c.closed = false := hopen
    simp [hclosed] at hopen'

theorem lasting_falls_halt :
    Lasting halt haltStory (· ≠ .connect) fun c result _ => Falls c result where
  rewires := RewiredTo.falls
  trans := .trans
  report c _ hreport := .of_sameLink (.refl c) rfl
    (stateChanges_singleton (Emission.isPlain_of_isReport hreport))
  connect hconnect := absurd rfl hconnect
  leave _ := falls_halt

/-- And a client that is closed afterwards is in the state `disconnected`, unless it was closed
in another one before. -/
structure Winds (c : Client) (result : Client × List Emission) : Prop extends Falls c result where
  settled : (c.closed = true → c.state = .disconnected) →
    result.1.closed = true → result.1.state = .disconnected

theorem Falls.winds {c : Client} {result : Client × List Emission} (h : Falls c result)
    (hclosed : result.1.closed = c.closed) (hstate : result.1.state = c.state) : Winds c result :=
  ⟨h, fun hsettled hend => hstate.trans (hsettled (hclosed.symm.trans hend))⟩

theorem Winds.trans {c c' c'' : Client} {first later : List Emission}
    (h : Winds c (c', first)) (h' : Winds c' (c'', later)) : Winds c (c'', first ++ later) :=
  ⟨h.toFalls.trans h'.toFalls, fun hsettled => h'.settled (h.settled hsettled)⟩

theorem winds_emissions (c : Client) {emissions : List Emission}
    (h : stateChanges emissions = []) : Winds c (c, emissions) :=
  Falls.winds (.of_sameLink (.refl c) rfl h) rfl rfl

theorem offering_winds {callbacks : Callbacks} (hgive : callbacks.Give (· ≠ .connect)) :
    Offering callbacks (· ≠ .connect) fun c result _ => Winds c result where
  rewires h := h.falls.winds (h.movedTo 0).closed (h.movedTo 0).state
  trans := .trans
  report c _ hreport :=
    winds_emissions c (stateChanges_singleton (Emission.isPlain_of_isReport hreport))
  connect hconnect := absurd rfl hconnect
  leave hleave c :=
    ⟨(lasting_falls_halt.lift hgive falls_halt fun _ => falls_left).leave hleave c,
      fun _ _ => state_disconnect callbacks c⟩
  offers {c} _ _ _ := winds_emissions c rfl
  invokes {c} _ _ _ := winds_emissions c rfl

/-! ## States that are entered -/

/-- The client, which is not closed, comes into this state, and from there at most to
`disconnected`, closed. -/
structure Enters (c : Client) (state : ConnectionState) (result : Client × List Emission) :
    Prop where
  path : IsPath c.state (stateChanges result.2) result.1.state
  targets : ∀ change ∈ stateChanges result.2,
    change.2 = .disconnected ∨ change = (c.state, state) ∧ c.state ≠ state
  link : result.1.closed = false → SameLink c result.1 ∧ result.1.state = state
  settled : result.1.closed = true → result.1.state = .disconnected

theorem Winds.enters {c : Client} {result : Client × List Emission} (h : Winds c result)
    (hopen : c.closed = false) : c.Enters c.state result :=
  ⟨h.path, fun change hchange => .inl (h.targets change hchange), h.link,
    h.settled (by simp [hopen])⟩

theorem enters_enter {callbacks : Callbacks} (hgive : callbacks.Give (· ≠ .connect)) {c : Client}
    (hopen : c.closed = false) {state : ConnectionState}
    (hnext : c.state ≠ state → c.state.leadsTo state = true) :
    c.Enters state (c.enter callbacks state) := by
  unfold enter enterWith
  by_cases hstate : c.state = state
  · rw [if_pos hstate]
    exact ⟨rfl, by simp [stateChanges], fun _ => ⟨.refl c, hstate⟩, by simp [hopen]⟩
  · rw [if_neg hstate]
    have hwinds := (offering_winds hgive).announceWith hgive state { c with state := state }
      c.listeners
    refine ⟨⟨rfl, hnext hstate, hwinds.path⟩, ?_, ?_, hwinds.settled (by simp [hopen])⟩
    · intro change hchange
      rcases List.mem_cons.1 hchange with rfl | hchange
      · exact .inr ⟨rfl, hstate⟩
      · exact .inl (hwinds.targets change hchange)
    · intro hend
      obtain ⟨hlink, hsame⟩ := hwinds.link hend
      exact ⟨⟨hlink.closed, hlink.task, hlink.loops⟩, hsame⟩

section Enters

variable {c c' : Client} {state : ConnectionState} {emissions : List Emission}

/-- Emissions that say nothing of the state make no difference. -/
theorem Enters.emit {emissions' : List Emission} (h : c.Enters state (c', emissions))
    (hsame : stateChanges emissions' = stateChanges emissions) :
    c.Enters state (c', emissions') :=
  ⟨hsame ▸ h.path, hsame ▸ h.targets, h.link, h.settled⟩

theorem Enters.of_sameLink {start : Client} {result : Client × List Emission}
    (h : c.Enters state result) (hlink : SameLink start c) (hstate : c.state = start.state) :
    start.Enters state result :=
  ⟨hstate ▸ h.path, hstate ▸ h.targets, fun hend => ⟨hlink.trans (h.link hend).1, (h.link hend).2⟩,
    h.settled⟩

end Enters

end Client

end LineWatch
