import LineWatch.Proofs.Connection.Run

/-!
# How far an event has got

An event is offered to its handlers in turn until one of them waits. The hand-out has then come
to some of the handlers, the others are still to come, and the loop goes on with them when the
waiting one is done. Nothing that a handler does keeps the event from those behind it, as long as
the client stays connected.
-/

namespace LineWatch

namespace Callbacks

def accepts (callbacks : Callbacks) (event : StreamEvent) (handler : Handler) : Bool :=
  (callbacks.react handler event).outcome.isOk

end Callbacks

namespace Frame

/-- The payload spells this event under the tag of the frame. -/
def Spells (frame : Frame) (event : StreamEvent) : Prop :=
  ∃ tag, EventTag.ofName? frame.event = some tag ∧ StreamEvent.ofData tag frame.data = .ok event

def IsMalformed (frame : Frame) : Prop :=
  ∃ tag errors, EventTag.ofName? frame.event = some tag ∧
    StreamEvent.ofData tag frame.data = .invalid errors

def IsUnreadable (frame : Frame) : Prop :=
  ∃ tag, EventTag.ofName? frame.event = some tag ∧ StreamEvent.ofData tag frame.data = .outOfRange

end Frame

/-- Where a hand-out stands that has yet to come to these handlers. -/
def Handing.before (tag : String) (event : StreamEvent) (delivered : Bool) :
    List Handler → Handing
  | [] => .finished
  | current :: rest => .waiting (.handling tag event current rest delivered)

/-- What a loop waits for once a hand-out has come so far. -/
def Handing.phase : Handing → Phase
  | .finished => .receiving
  | .waiting phase => phase
  | .failed failure => .closing (.failed failure)

/-- What a loop waits for while these handlers are still to come. -/
def Phase.before (tag : String) (event : StreamEvent) (delivered : Bool) : List Handler → Phase
  | [] => .receiving
  | current :: rest => .handling tag event current rest delivered

theorem Phase.before_ne_closing {tag : String} {event : StreamEvent} {delivered : Bool}
    {left : List Handler} {outcome : Outcome} :
    Phase.before tag event delivered left ≠ .closing outcome := by
  cases left <;> simp [Phase.before]

namespace Client

theorem sameLink_advance (c : Client) (event : StreamEvent) : SameLink c (c.advance event) := by
  simp only [advance]
  split
  · split
    · split
      · exact ⟨rfl, rfl, rfl⟩
      · exact .refl c
    · exact ⟨rfl, rfl, rfl⟩
  · exact .refl c

theorem watermarks_advance_congr {c c' : Client} (h : c'.watermarks = c.watermarks)
    (event : StreamEvent) : (c'.advance event).watermarks = (c.advance event).watermarks := by
  simp only [advance, watermark?, h]
  split
  · split
    · split
      · rfl
      · exact h
    · rfl
  · exact h

/-- The watermarks once an event is still to come to `left`: they move after the last handler. -/
def marksAfter (c : Client) (event : StreamEvent) (accepted : Bool) (left : List Handler) :
    Keyed Instant :=
  (if left.isEmpty && accepted then c.advance event else c).watermarks

theorem marksAfter_congr {c c' : Client} (h : c'.watermarks = c.watermarks)
    (event : StreamEvent) (accepted : Bool) (left : List Handler) :
    c'.marksAfter event accepted left = c.marksAfter event accepted left := by
  unfold marksAfter
  split
  · exact watermarks_advance_congr h event
  · exact h

/-- A hand-out that has come to `served` and not yet to `left`. -/
structure HandedOut (callbacks : Callbacks) (tag : String) (event : StreamEvent)
    (delivered : Bool) (c : Client) (served left : List Handler)
    (result : Client × List Emission × Handing) : Prop where
  link : SameLink c result.1
  news : frameNews result.2.1 = served.map (.offered · event)
  handing : result.2.2 =
    .before tag event (delivered || served.any (callbacks.accepts event)) left
  watermarks : result.1.watermarks =
    c.marksAfter event (delivered || served.any (callbacks.accepts event)) left

section HandOut

variable {callbacks : Callbacks}

theorem offer_spec (hstay : callbacks.HandlersStay) (tag : String) (event : StreamEvent)
    {c : Client} {id : Nat} {phase : Phase} (hrun : c.Running id phase) (handler : Handler) :
    ∃ c' emissions, offer callbacks tag event c handler =
        (c', .offered handler event :: emissions, callbacks.accepts event handler) ∧
      Aside c (c', emissions) := by
  unfold offer Callbacks.accepts
  cases hreact : (callbacks.react handler event).outcome with
  | error message => exact ⟨c, _, rfl, (Aside.refl c).cons rfl⟩
  | ok commands =>
    exact ⟨_, _, rfl, aside_performAllWith hrun.active (hstay handler event commands hreact)⟩

/-- One more handler before a hand-out. -/
theorem HandedOut.cons {tag : String} {event : StreamEvent} {c c' : Client}
    {emissions : List Emission} {handler : Handler} {delivered : Bool}
    {served left : List Handler} {result : Client × List Emission × Handing}
    (hoffer : Aside c (c', emissions))
    (h : HandedOut callbacks tag event (delivered || callbacks.accepts event handler) c' served
      left result) :
    HandedOut callbacks tag event delivered c (handler :: served) left
      (result.1, .offered handler event :: emissions ++ result.2.1, result.2.2) where
  link := hoffer.link.trans h.link
  news := by
    have hfirst : frameNews (.offered handler event :: emissions) = [.offered handler event] := by
      simpa [frameNews, Emission.tellsOfFrame] using hoffer.news
    rw [frameNews_append, hfirst, h.news]
    rfl
  handing := by simpa [Bool.or_assoc] using h.handing
  watermarks := by
    have hsame : c'.watermarks = c.watermarks := hoffer.watermarks
    rw [h.watermarks, List.any_cons, Bool.or_assoc, marksAfter_congr hsame]

theorem offerAll_handedOut (hstay : callbacks.HandlersStay) (tag : String) (event : StreamEvent)
    {c : Client} {id : Nat} {phase : Phase} (hrun : c.Running id phase) (delivered : Bool)
    (handlers : List Handler) :
    ∃ served left, handlers = served ++ left ∧
      HandedOut callbacks tag event delivered c served left
        (offerAll callbacks tag event delivered c handlers) := by
  induction handlers generalizing c delivered with
  | nil =>
    refine ⟨[], [], rfl, ?_, rfl, rfl, ?_⟩
    · cases delivered with
      | false => exact .refl c
      | true => exact sameLink_advance c event
    · simp [offerAll, marksAfter]
  | cons handler rest ih =>
    rw [offerAll, if_neg (by simp [hrun.closed])]
    by_cases hwait : (callbacks.react handler event).suspends = true
    · rw [if_pos hwait]
      exact ⟨[], handler :: rest, rfl, .refl c, rfl, by simp [Handing.before], rfl⟩
    · rw [if_neg hwait]
      obtain ⟨c', emissions, hoffer, haside⟩ := offer_spec hstay tag event hrun handler
      obtain ⟨served, left, hsplit, hrest⟩ :=
        ih (hrun.of_sameLink haside.link) (delivered || callbacks.accepts event handler)
      refine ⟨handler :: served, left, by rw [hsplit]; rfl, ?_⟩
      rw [hoffer]
      exact HandedOut.cons haside hrest

theorem resumeOffer_handedOut (hstay : callbacks.HandlersStay) (tag : String)
    (event : StreamEvent) {c : Client} {id : Nat} {phase : Phase} (hrun : c.Running id phase)
    (delivered : Bool) (current : Handler) (rest : List Handler) :
    ∃ served left, rest = served ++ left ∧
      HandedOut callbacks tag event delivered c (current :: served) left
        (resumeOffer callbacks tag event current rest delivered c) := by
  obtain ⟨c', emissions, hoffer, haside⟩ := offer_spec hstay tag event hrun current
  obtain ⟨served, left, hsplit, hrest⟩ := offerAll_handedOut hstay tag event
    (hrun.of_sameLink haside.link) (delivered || callbacks.accepts event current) rest
  refine ⟨served, left, hsplit, ?_⟩
  rw [resumeOffer, hoffer]
  exact HandedOut.cons haside hrest

end HandOut

theorem settleHanding_phase (c : Client) (id : Nat) (handing : Handing) :
    c.settleHanding id handing = c.setPhase id handing.phase := by
  cases handing <;> rfl

theorem settleHanding_before (id : Nat) (c : Client) (tag : String) (event : StreamEvent)
    (delivered : Bool) (left : List Handler) :
    c.settleHanding id (.before tag event delivered left) =
      c.setPhase id (.before tag event delivered left) := by
  cases left <;> rfl

theorem HandedOut.moves {callbacks : Callbacks} {tag : String} {event : StreamEvent}
    {delivered : Bool} {c : Client} {served left : List Handler}
    {result : Client × List Emission × Handing} {id : Nat} {phase : Phase}
    (h : HandedOut callbacks tag event delivered c served left result)
    (hrun : c.Running id phase) :
    Moves c id (.before tag event (delivered || served.any (callbacks.accepts event)) left)
      (served.map (.offered · event))
      (c.marksAfter event (delivered || served.any (callbacks.accepts event)) left)
      (result.1.settleHanding id result.2.2, result.2.1) := by
  rw [h.handing, settleHanding_before]
  exact ⟨(h.link.setPhase hrun _).1, (h.link.setPhase hrun _).2, h.news, h.watermarks⟩

theorem Moves.received {c : Client} {id : Nat} {phase : Phase} {news : List Emission}
    {watermarks : Keyed Instant} {result : Client × List Emission}
    (h : Moves c id phase news watermarks result) (tag : String) :
    Moves c id phase (.received tag :: news) watermarks (result.1, .received tag :: result.2) :=
  ⟨h.running, h.loops, by rw [← h.news]; rfl, h.watermarks⟩

/-! ## The turns that take up an event -/

theorem isStale_congr {c c' : Client} (h : c'.watermarks = c.watermarks) (event : StreamEvent) :
    c'.isStale event = c.isStale event := by
  simp only [isStale, watermark?, h]

theorem sort_congr {c c' : Client} (hmarks : c'.watermarks = c.watermarks)
    (hhandlers : c'.handlers = c.handlers) (frame : Frame) : c'.sort frame = c.sort frame := by
  have hof : c'.handlersOf = c.handlersOf := by
    funext tag
    simp [handlersOf, hhandlers]
  have hstale : c'.isStale = c.isStale := funext (isStale_congr hmarks)
  unfold sort
  rw [hof, hstale]

theorem sort_of_handlers {c : Client} {frame : Frame} (h : c.handlersOf frame.event ≠ []) :
    c.sort frame =
      match EventTag.ofName? frame.event with
      | none => .drop .unknownType []
      | some tag =>
        match StreamEvent.ofData tag frame.data with
        | .outOfRange => .unreadable
        | .invalid errors => .drop .malformed [.decodeFailed frame.event errors]
        | .ok event =>
          if c.isStale event then .drop .stale [.staleDropped frame.event event.channel?]
          else .event event (c.handlersOf frame.event) := by
  unfold sort
  split
  · next hnil => exact absurd hnil h
  · rfl

theorem sort_of_no_handlers {c : Client} {frame : Frame} (h : c.handlersOf frame.event = []) :
    c.sort frame = .drop .unsubscribed [] := by
  unfold sort
  rw [h]

/-- The one reason, if any, for which a frame is not offered. -/
def DropsFor (c : Client) (frame : Frame) : Drop → Prop
  | .unsubscribed => c.handlersOf frame.event = []
  | .unknownType => c.handlersOf frame.event ≠ [] ∧ EventTag.ofName? frame.event = none
  | .malformed => c.handlersOf frame.event ≠ [] ∧ frame.IsMalformed
  | .stale => c.handlersOf frame.event ≠ [] ∧
    ∃ event, frame.Spells event ∧ c.isStale event = true

/-- The frame is what it has been sorted as. -/
def Sorts (c : Client) (frame : Frame) : Sorted → Prop
  | .drop reason _ => c.DropsFor frame reason
  | .event event handlers =>
    handlers = c.handlersOf frame.event ∧ handlers ≠ [] ∧ frame.Spells event ∧
      c.isStale event = false
  | .unreadable => c.handlersOf frame.event ≠ [] ∧ frame.IsUnreadable

theorem sorts_sort (c : Client) (frame : Frame) : c.Sorts frame (c.sort frame) := by
  by_cases h : c.handlersOf frame.event = []
  · rw [sort_of_no_handlers h]
    exact h
  · rw [sort_of_handlers h]
    cases htag : EventTag.ofName? frame.event with
    | none => exact ⟨h, htag⟩
    | some tag =>
      dsimp only
      cases hdata : StreamEvent.ofData tag frame.data with
      | ok event =>
        dsimp only
        by_cases hstale : c.isStale event = true
        · rw [if_pos hstale]
          exact ⟨h, event, ⟨tag, htag, hdata⟩, hstale⟩
        · rw [if_neg hstale]
          exact ⟨rfl, h, ⟨tag, htag, hdata⟩, by simpa using hstale⟩
      | invalid errors => exact ⟨h, tag, errors, htag, hdata⟩
      | outOfRange => exact ⟨h, tag, htag, hdata⟩

section Turns

variable {callbacks : Callbacks} {c : Client} {id : Nat} {frame : Frame}

/-- A frame other than the handshake is handed out, once its identifier is noted. -/
theorem signal_frame (callbacks : Callbacks) (hrun : c.Running id .receiving)
    (hframe : frame.event ≠ c.connectedEvent) :
    ∃ c', SameLink c c' ∧ c'.watermarks = c.watermarks ∧ c'.sort frame = c.sort frame ∧
      c.signal callbacks id (.frame frame) =
        ((c'.dispatch callbacks frame).1.settleHanding id (c'.dispatch callbacks frame).2.2,
          (c'.dispatch callbacks frame).2.1) := by
  have hreceive : c.signal callbacks id (.frame frame) = c.receive callbacks id frame := by
    simp only [signal, hrun.loop?]
  rw [hreceive, receive, if_neg (by simp [hrun.closed])]
  cases frame.id with
  | none => exact ⟨c, .refl c, rfl, rfl, if_neg hframe⟩
  | some v =>
    exact ⟨{ c with lastEventId := some v }, ⟨rfl, rfl, rfl⟩, rfl, sort_congr rfl rfl frame,
      if_neg hframe⟩

theorem moves_drop (callbacks : Callbacks) (hrun : c.Running id .receiving)
    (hframe : frame.event ≠ c.connectedEvent) {reason : Drop} {notices : List ClientNotice}
    (hsort : c.sort frame = .drop reason notices) :
    Moves c id .receiving [.received frame.event, .dropped reason] c.watermarks
      (c.signal callbacks id (.frame frame)) := by
  obtain ⟨c', hlink, hmarks, hsort', heq⟩ := signal_frame callbacks hrun hframe
  rw [heq, dispatch, hsort', hsort]
  refine ⟨(hlink.setPhase hrun _).1, (hlink.setPhase hrun _).2, ?_, hmarks⟩
  simp [frameNews, Emission.tellsOfFrame]

theorem moves_unreadable (callbacks : Callbacks) (hrun : c.Running id .receiving)
    (hframe : frame.event ≠ c.connectedEvent) (hsort : c.sort frame = .unreadable) :
    Moves c id (.closing (.failed (.unexpected "date value out of range")))
      [.received frame.event] c.watermarks (c.signal callbacks id (.frame frame)) := by
  obtain ⟨c', hlink, hmarks, hsort', heq⟩ := signal_frame callbacks hrun hframe
  rw [heq, dispatch, hsort', hsort]
  exact ⟨(hlink.setPhase hrun _).1, (hlink.setPhase hrun _).2, rfl, hmarks⟩

theorem moves_event (hstay : callbacks.HandlersStay) (hrun : c.Running id .receiving)
    (hframe : frame.event ≠ c.connectedEvent) {event : StreamEvent} {handlers : List Handler}
    (hsort : c.sort frame = .event event handlers) :
    ∃ served left, handlers = served ++ left ∧
      Moves c id (.before frame.event event (served.any (callbacks.accepts event)) left)
        (.received frame.event :: served.map (.offered · event))
        (c.marksAfter event (served.any (callbacks.accepts event)) left)
        (c.signal callbacks id (.frame frame)) := by
  obtain ⟨c', hlink, hmarks, hsort', heq⟩ := signal_frame callbacks hrun hframe
  have hrun' : c'.Running id .receiving := hrun.of_sameLink hlink
  obtain ⟨served, left, hsplit, hhanded⟩ :=
    offerAll_handedOut hstay frame.event event hrun' false handlers
  refine ⟨served, left, hsplit, ?_⟩
  have hmoves := (hhanded.moves hrun').received frame.event
  rw [heq, dispatch, hsort', hsort]
  refine ⟨hmoves.running, by rw [hmoves.loops, hlink.loops], hmoves.news, ?_⟩
  rw [hmoves.watermarks, marksAfter_congr hmarks, Bool.false_or]

theorem moves_resumed (hstay : callbacks.HandlersStay) {tag : String} {event : StreamEvent}
    {current : Handler} {rest : List Handler} {delivered : Bool}
    (hrun : c.Running id (.handling tag event current rest delivered)) :
    ∃ served left, rest = served ++ left ∧
      Moves c id
        (.before tag event (delivered || (current :: served).any (callbacks.accepts event)) left)
        ((current :: served).map (.offered · event))
        (c.marksAfter event (delivered || (current :: served).any (callbacks.accepts event)) left)
        (c.signal callbacks id .resumed) := by
  obtain ⟨served, left, hsplit, hhanded⟩ :=
    resumeOffer_handedOut hstay tag event hrun delivered current rest
  refine ⟨served, left, hsplit, ?_⟩
  have hsignal : c.signal callbacks id .resumed =
      ((resumeOffer callbacks tag event current rest delivered c).1.settleHanding id
          (resumeOffer callbacks tag event current rest delivered c).2.2,
        (resumeOffer callbacks tag event current rest delivered c).2.1) := by
    simp only [signal, hrun.loop?]
    rfl
  rw [hsignal]
  exact hhanded.moves hrun

end Turns

end Client

end LineWatch
