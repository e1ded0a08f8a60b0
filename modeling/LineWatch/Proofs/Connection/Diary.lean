import LineWatch.Proofs.Connection.Handing

/-!
# What a run owes to the handlers

A diary of a run notes the events that handlers have accepted, and what the frames that came in
should have led to: the event of a frame is due to each handler that its tag has at that moment,
unless a newer one has been accepted on its channel before. The diary knows of watermarks
nothing; it looks at the whole history instead.
-/

namespace LineWatch

def momentOn? (channel : String) (event : StreamEvent) : Option Int :=
  if event.channel? = some channel then event.timestamp?.map (·.micros) else none

/-- The greatest timestamp of these events on a channel, in microseconds. -/
def newestOn? (channel : String) (accepted : List StreamEvent) : Option Int :=
  (accepted.filterMap (momentOn? channel)).max?

/-- One of the accepted events has the same channel and a later timestamp. -/
def outdated (accepted : List StreamEvent) (event : StreamEvent) : Bool :=
  match event.channel?, event.timestamp? with
  | some channel, some t => (newestOn? channel accepted).any fun newest => t.micros < newest
  | _, _ => false

/-- A later moment takes the place of an earlier one. -/
def laterMoment (newest? moment? : Option Int) : Option Int :=
  moment?.elim newest? fun t => some (newest?.elim t (max · t))

theorem laterMoment_laterMoment (newest? moment? : Option Int) :
    laterMoment (laterMoment newest? moment?) moment? = laterMoment newest? moment? := by
  cases moment? <;> cases newest? <;> simp [laterMoment]

theorem newestOn?_snoc (channel : String) (accepted : List StreamEvent) (event : StreamEvent) :
    newestOn? channel (accepted ++ [event]) =
      laterMoment (newestOn? channel accepted) (momentOn? channel event) := by
  simp only [newestOn?, List.filterMap_append, List.filterMap_cons, List.filterMap_nil]
  cases momentOn? channel event with
  | none => simp [laterMoment]
  | some t =>
    cases accepted.filterMap (momentOn? channel) with
    | nil => rfl
    | cons u rest =>
      simp only [List.cons_append, List.max?_cons', List.foldl_append, List.foldl_cons,
        List.foldl_nil, laterMoment, Option.elim]

/-- To accept an event several times is to accept it once. -/
theorem newestOn?_append_replicate (channel : String) (accepted : List StreamEvent)
    (event : StreamEvent) (n : Nat) :
    newestOn? channel (accepted ++ List.replicate n event) =
      if n = 0 then newestOn? channel accepted
      else laterMoment (newestOn? channel accepted) (momentOn? channel event) := by
  induction n with
  | zero => simp
  | succ n ih =>
    rw [List.replicate_succ', ← List.append_assoc, newestOn?_snoc, ih]
    split
    · rfl
    · exact laterMoment_laterMoment _ _

namespace Client

/-- The newest moment of a channel as the client has it. -/
def newest? (c : Client) (channel : String) : Option Int :=
  (c.watermark? channel).map (·.micros)

theorem newest?_mark (c : Client) (own channel : String) (t : Instant) :
    newest? { c with watermarks := c.watermarks.set own t } channel =
      if channel = own then some t.micros else c.newest? channel := by
  simp only [newest?, watermark?, Keyed.get?_set]
  split <;> rfl

theorem newest?_advance (c : Client) (event : StreamEvent) (channel : String) :
    (c.advance event).newest? channel =
      laterMoment (c.newest? channel) (momentOn? channel event) := by
  simp only [advance, momentOn?]
  cases hown : event.channel? with
  | none => simp [laterMoment]
  | some own =>
    cases htime : event.timestamp? with
    | none => simp [laterMoment]
    | some t =>
      dsimp only
      cases hmark : c.watermark? own with
      | none =>
        have hnone : c.newest? own = none := by simp [newest?, hmark]
        rw [newest?_mark]
        by_cases hchannel : channel = own
        · simp [hchannel, hnone, laterMoment]
        · simp [hchannel, Ne.symm hchannel, laterMoment]
      | some last =>
        have hsome : c.newest? own = some last.micros := by simp [newest?, hmark]
        dsimp only
        split
        · next hlt =>
          have hmax : max last.micros t.micros = t.micros := Int.max_eq_right (Int.le_of_lt hlt)
          rw [newest?_mark]
          by_cases hchannel : channel = own
          · simp [hchannel, hsome, laterMoment, hmax]
          · simp [hchannel, Ne.symm hchannel, laterMoment]
        · next hlt =>
          have hmax : max last.micros t.micros = last.micros :=
            Int.max_eq_left (Int.not_lt.1 hlt)
          by_cases hchannel : channel = own
          · simp [hchannel, hsome, laterMoment, hmax]
          · simp [Ne.symm hchannel, laterMoment]

theorem isStale_eq_outdated {c : Client} {accepted : List StreamEvent}
    (hnewest : ∀ channel, c.newest? channel = newestOn? channel accepted) (event : StreamEvent) :
    c.isStale event = outdated accepted event := by
  simp only [isStale, outdated]
  cases event.channel? with
  | none => rfl
  | some channel =>
    cases event.timestamp? with
    | none => rfl
    | some t =>
      dsimp only
      rw [← hnewest, newest?]
      cases c.watermark? channel <;> rfl

/-- The handlers that the event of a frame is due to. -/
def dueTo (c : Client) (accepted : List StreamEvent) (frame : Frame) :
    List (Handler × StreamEvent) :=
  match EventTag.ofName? frame.event with
  | none => []
  | some tag =>
    match StreamEvent.ofData tag frame.data with
    | .ok event =>
      if outdated accepted event then [] else (c.handlersOf frame.event).map (·, event)
    | _ => []

def dueIn (c : Client) (accepted : List StreamEvent) : Act → List (Handler × StreamEvent)
  | .signal id (.frame frame) =>
    if c.takesFrame id && frame.event != c.connectedEvent then c.dueTo accepted frame else []
  | _ => []

theorem dueIn_of_not_taken {c : Client} {accepted : List StreamEvent} {act : Act}
    (h : ∀ id frame, act = .signal id (.frame frame) →
      c.takesFrame id = true → frame.event = c.connectedEvent) :
    c.dueIn accepted act = [] := by
  unfold dueIn
  split
  · next id frame =>
    apply if_neg
    intro htaken
    rw [Bool.and_eq_true, bne_iff_ne] at htaken
    exact htaken.2 (h id frame rfl htaken.1)
  · rfl

theorem dueTo_of_sort {c : Client} {accepted : List StreamEvent}
    (hnewest : ∀ channel, c.newest? channel = newestOn? channel accepted) (frame : Frame) :
    c.dueTo accepted frame =
      match c.sort frame with
      | .event event handlers => handlers.map (·, event)
      | _ => [] := by
  by_cases h : c.handlersOf frame.event = []
  · rw [sort_of_no_handlers h]
    unfold dueTo
    rw [h]
    grind
  · rw [sort_of_handlers h]
    unfold dueTo
    cases EventTag.ofName? frame.event with
    | none => rfl
    | some tag =>
      dsimp only
      cases StreamEvent.ofData tag frame.data with
      | ok event =>
        dsimp only
        rw [← isStale_eq_outdated hnewest]
        split <;> rfl
      | invalid errors => rfl
      | outOfRange => rfl

end Client

def Callbacks.acceptedIn (callbacks : Callbacks) (emissions : List Emission) : List StreamEvent :=
  ((offersIn emissions).filter fun offer => callbacks.accepts offer.2 offer.1).map (·.2)

structure Diary where
  due : List (Handler × StreamEvent) := []
  accepted : List StreamEvent := []

def Diary.note (diary : Diary) (c : Client) (turn : Turn) : Diary where
  due := diary.due ++ c.dueIn diary.accepted turn.act
  accepted := diary.accepted ++ turn.callbacks.acceptedIn (c.take turn).2

/-- The diary of a run, begun with what is in it already. -/
def Client.diary (c : Client) (diary : Diary) : List Turn → Diary
  | [] => diary
  | turn :: rest => (c.take turn).1.diary (diary.note c turn) rest

end LineWatch
