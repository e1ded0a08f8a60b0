import LineWatch.Proofs.Connection.Narration
import LineWatch.Proofs.Connection.Round

/-!
# Silence after a disconnect

Somebody watches a story and notes whether the client has been told to disconnect. Between the call
and the return no handler is called any more, at the return the state is `disconnected`, and from
then on, until `connect` is called, there is neither a call of a handler nor a change of the state.
Wherever the calls come from, the client is closed as long as it is held back like that.
-/

namespace LineWatch

namespace Moment

/-- An event gets to a handler, or a handler that has waited for it goes on. -/
def reachesHandler : Moment → Bool
  | .invoked .. | .emitted (.offered ..) => true
  | _ => false

def newState? : Moment → Option ConnectionState
  | .emitted (.notice (.stateChanged _ state)) => some state
  | _ => none

end Moment

/-- Whether the client may do as it likes, is being disconnected or has been. -/
inductive Hold where
  | free
  | leaving
  | off
  deriving DecidableEq, Repr

structure Watch where
  hold : Hold
  state : ConnectionState
  deriving DecidableEq, Repr

namespace Watch

def next (w : Watch) : Moment → Watch
  | .connectCalled => { w with hold := .free }
  | .disconnectCalled => { w with hold := if w.hold = .off then .off else .leaving }
  | .disconnectReturned => { w with hold := if w.hold = .free then .free else .off }
  | moment => { w with state := moment.newState?.getD w.state }

def after (w : Watch) (moments : List Moment) : Watch := moments.foldl next w

def Permits (w : Watch) (moment : Moment) : Prop :=
  match w.hold with
  | .free => True
  | .leaving =>
    moment.reachesHandler = false ∧ (moment = .disconnectReturned → w.state = .disconnected)
  | .off => moment.reachesHandler = false ∧ moment.newState? = none

/-- Each of the moments is one that may come now. -/
def Fits (w : Watch) : List Moment → Prop
  | [] => True
  | moment :: rest => w.Permits moment ∧ (w.next moment).Fits rest

variable {w : Watch}

theorem after_append (first later : List Moment) :
    w.after (first ++ later) = (w.after first).after later := List.foldl_append ..

theorem fits_append {first later : List Moment} :
    w.Fits (first ++ later) ↔ w.Fits first ∧ (w.after first).Fits later := by
  induction first generalizing w with
  | nil => simp [Fits, after]
  | cons moment rest ih =>
    rw [List.cons_append, Fits, Fits, ih, and_assoc]
    rfl

theorem next_state (w : Watch) (moment : Moment) :
    (w.next moment).state = moment.newState?.getD w.state := by
  cases moment <;> rfl

theorem next_settled (h : w.hold = .off → w.state = .disconnected) {moment : Moment}
    (hpermits : w.Permits moment) (hoff : (w.next moment).hold = .off) :
    (w.next moment).state = .disconnected := by
  cases moment with
  | connectCalled => cases hoff
  | disconnectCalled =>
    refine h ?_
    simp only [next] at hoff
    split at hoff
    · assumption
    · cases hoff
  | disconnectReturned =>
    cases hhold : w.hold with
    | free => simp [next, hhold] at hoff
    | leaving =>
      rw [Permits, hhold] at hpermits
      exact hpermits.2 rfl
    | off => exact h hhold
  | emitted | invoked =>
    have hsame : w.hold = .off := hoff
    rw [Permits, hsame] at hpermits
    rw [next_state, hpermits.2]
    exact h hsame

/-- A client that is off is in the state `disconnected`. -/
theorem Fits.settled {moments : List Moment} (hfits : w.Fits moments)
    (h : w.hold = .off → w.state = .disconnected) (hoff : (w.after moments).hold = .off) :
    (w.after moments).state = .disconnected := by
  induction moments generalizing w with
  | nil => exact h hoff
  | cons moment rest ih => exact ih hfits.2 (next_settled h hfits.1) hoff

/-- The client is as the watch has it. -/
structure Matches (w : Watch) (c : Client) : Prop where
  state : w.state = c.state
  closed : w.hold ≠ .free → c.closed = true
  left : w.hold = .off → c.state = .disconnected

theorem Matches.free {c : Client} (h : w.Matches c) (hopen : c.closed = false) :
    w.hold = .free :=
  Classical.byContradiction fun hheld => by simp [h.closed hheld] at hopen

end Watch

namespace Client

/-- To whoever watches, what is done brings nothing that the client must not do. -/
def Hushed (c : Client) (result : Client × List Emission) (moments : List Moment) : Prop :=
  ∀ w : Watch, w.Matches c → w.Fits moments ∧ (w.after moments).Matches result.1

theorem Hushed.trans {c c' c'' : Client} {first later : List Emission}
    {firstStory laterStory : List Moment} (h : Hushed c (c', first) firstStory)
    (h' : Hushed c' (c'', later) laterStory) :
    Hushed c (c'', first ++ later) (firstStory ++ laterStory) := by
  intro w hw
  obtain ⟨hfits, hmatches⟩ := h w hw
  obtain ⟨hfits', hmatches'⟩ := h' _ hmatches
  exact ⟨Watch.fits_append.mpr ⟨hfits, hfits'⟩, by rwa [Watch.after_append]⟩

/-- The first handler disconnects the client. -/
def leaveFirst : Callbacks where
  react handler _ := if handler = .named "first" then { outcome := .ok [.disconnect] } else {}
  hear _ _ := .ok []

end Client

end LineWatch
