import LineWatch.Proofs.Connection.Diary

/-!
# Offers and watermarks that tally with the diary

What has been offered so far, followed by what the event in hand has yet to be offered to, is
what the diary calls due. The watermarks lag behind only while an event is in hand: they are what
the accepted events before it make them, and it moves its own once its last handler has had its
turn.
-/

namespace LineWatch

namespace Client

/-- The event in hand of the loop that the client knows of. -/
def inHand? (c : Client) : Option (StreamEvent × List Handler × Bool) :=
  (c.task.bind c.loop?).bind (·.phase.inHand?)

/-- What the event in hand has yet to be offered to. -/
def outstanding (c : Client) : List (Handler × StreamEvent) :=
  match c.inHand? with
  | some (event, handlers, _) => handlers.map (·, event)
  | none => []

/-- The newest moment of a channel, with the event in hand if it has been accepted. -/
def newestInHand? (c : Client) (channel : String) : Option Int :=
  match c.inHand? with
  | some (event, _, true) => (c.advance event).newest? channel
  | _ => c.newest? channel

/-- The offers and watermarks of a client are those that the diary of its run calls for. -/
structure Tallies (c : Client) (offered : List (Handler × StreamEvent)) (diary : Diary) :
    Prop where
  offers : offered ++ c.outstanding = diary.due
  newest : ∀ channel, c.newestInHand? channel = newestOn? channel diary.accepted

variable {c : Client} {offered : List (Handler × StreamEvent)} {diary : Diary} {turn : Turn}

theorem Running.inHand? {id : Nat} {phase : Phase} (h : c.Running id phase) :
    c.inHand? = phase.inHand? := by
  simp [Client.inHand?, h.task, h.loop?]

theorem inHand?_of_no_task (h : c.task = none) : c.inHand? = none := by
  simp [inHand?, h]

theorem newest?_congr {c' : Client} (h : c'.watermarks = c.watermarks) :
    c'.newest? = c.newest? := by
  funext channel
  simp [newest?, watermark?, h]

/-- A turn without offers that leaves the event in hand and the watermarks alone. -/
theorem Tallies.aside (h : Tallies c offered diary)
    (hhand : (c.take turn).1.inHand? = c.inHand?)
    (hmarks : (c.take turn).1.watermarks = c.watermarks) (hoffers : offersIn (c.take turn).2 = [])
    (hdue : c.dueIn diary.accepted turn.act = []) :
    Tallies (c.take turn).1 (offered ++ offersIn (c.take turn).2) (diary.note c turn) := by
  refine ⟨?_, ?_⟩
  · have hsame : (c.take turn).1.outstanding = c.outstanding := by
      simp only [outstanding, hhand]
    rw [hsame, hoffers, Diary.note, hdue, List.append_nil, List.append_nil, h.offers]
  · intro channel
    have hadvance : ∀ event, ((c.take turn).1.advance event).newest? = (c.advance event).newest? :=
      fun event => newest?_congr (watermarks_advance_congr hmarks event)
    have hsame : (c.take turn).1.newestInHand? channel = c.newestInHand? channel := by
      simp only [newestInHand?, hhand, hadvance, newest?_congr hmarks]
    rw [hsame, h.newest, Diary.note, Callbacks.acceptedIn, hoffers]
    simp

theorem acceptedIn_of_offersIn {callbacks : Callbacks} {emissions : List Emission}
    {event : StreamEvent} {served : List Handler}
    (h : offersIn emissions = served.map (·, event)) :
    callbacks.acceptedIn emissions =
      List.replicate (served.countP (callbacks.accepts event)) event := by
  rw [Callbacks.acceptedIn, h, List.filter_map, List.map_map, List.countP_eq_length_filter]
  exact List.map_const' ..

section Offer

variable {id : Nat} {tag : String} {event : StreamEvent} {accepted : Bool} {left : List Handler}
  {news : List Emission} {result : Client × List Emission}

theorem Moves.outstanding
    (h : Moves c id (.before tag event accepted left) news (c.marksAfter event accepted left)
      result) : result.1.outstanding = left.map (·, event) := by
  rw [Client.outstanding, h.running.inHand?]
  cases left <;> rfl

/-- With the event in hand counted in, it does not matter which handlers are still to come. -/
theorem Moves.newestInHand?
    (h : Moves c id (.before tag event accepted left) news (c.marksAfter event accepted left)
      result) (channel : String) :
    result.1.newestInHand? channel =
      (if accepted then c.advance event else c).newest? channel := by
  have hmarks := h.watermarks
  rw [Client.newestInHand?, h.running.inHand?]
  cases left with
  | nil => exact congrFun (newest?_congr hmarks) channel
  | cons current rest =>
    have hsame : result.1.watermarks = c.watermarks := hmarks
    cases accepted with
    | false => exact congrFun (newest?_congr hsame) channel
    | true => exact congrFun (newest?_congr (watermarks_advance_congr hsame event)) channel

/-- A turn in which the event in hand, or one that has just come in, gets to `served`. -/
theorem Tallies.offer (delivered : Bool) {served : List Handler}
    (hdue : offered ++ (served ++ left).map (·, event) =
      diary.due ++ c.dueIn diary.accepted turn.act)
    (hnewest : ∀ channel, (if delivered then c.advance event else c).newest? channel =
      newestOn? channel diary.accepted)
    (hmoves : Moves c id
      (.before tag event (delivered || served.any (turn.callbacks.accepts event)) left) news
      (c.marksAfter event (delivered || served.any (turn.callbacks.accepts event)) left)
      (c.take turn))
    (hoffers : offersIn (c.take turn).2 = served.map (·, event)) :
    Tallies (c.take turn).1 (offered ++ offersIn (c.take turn).2) (diary.note c turn) := by
  refine ⟨?_, ?_⟩
  · rw [hmoves.outstanding, hoffers, Diary.note, ← hdue, List.map_append, List.append_assoc]
  · intro channel
    rw [hmoves.newestInHand?, Diary.note, acceptedIn_of_offersIn hoffers,
      newestOn?_append_replicate, ← hnewest channel]
    cases hany : served.any (turn.callbacks.accepts event) with
    | false =>
      have hnone : served.countP (turn.callbacks.accepts event) = 0 := by
        simpa [List.countP_eq_zero] using hany
      simp [hnone]
    | true =>
      have hsome : served.countP (turn.callbacks.accepts event) ≠ 0 := by
        simpa [List.countP_eq_zero] using hany
      cases delivered <;> simp [hsome, newest?_advance, laterMoment_laterMoment]

end Offer

end Client

end LineWatch
