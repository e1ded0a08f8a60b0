import LineWatch.Proofs.Connection.Delivery
import LineWatch.Proofs.Connection.Narration

/-!
# A client without one of its handlers

One handler is struck out of the lists of a client. If it fails at once whenever it is called and
never has a tag for itself, then whatever the client does is mirrored by the client without it: the
one is afterwards what the other is without the handler, and they emit the same but for the offers
to this handler and the reports of failures.
-/

namespace LineWatch

variable {broken : Handler}

/-- The other handlers. -/
def othersThan (broken : Handler) (handlers : List Handler) : List Handler :=
  handlers.filter (· ≠ broken)

def Phase.without (broken : Handler) : Phase → Phase
  | .handling tag event current rest delivered =>
    .handling tag event current (othersThan broken rest) delivered
  | phase => phase

def Loop.without (broken : Handler) (l : Loop) : Loop :=
  { l with phase := l.phase.without broken }

def Handing.without (broken : Handler) : Handing → Handing
  | .waiting phase => .waiting (phase.without broken)
  | handing => handing

/-- An offer to this handler, or the report of a failure. -/
def Emission.concerns (broken : Handler) : Emission → Bool
  | .offered handler _ => handler = broken
  | .notice (.handlerFailed ..) => true
  | _ => false

/-- What is emitted but for the offers to this handler and the reports of failures. -/
def apartFrom (broken : Handler) (emissions : List Emission) : List Emission :=
  emissions.filter fun emission => !emission.concerns broken

@[simp] theorem apartFrom_append (broken : Handler) (first later : List Emission) :
    apartFrom broken (first ++ later) = apartFrom broken first ++ apartFrom broken later :=
  List.filter_append ..

/-- The handler is among others if it is there at all, and it is there only once. -/
structure Accompanied (broken : Handler) (handlers : List Handler) : Prop where
  others : handlers ≠ [] → othersThan broken handlers ≠ []
  once : handlers.count broken ≤ 1

/-- If an event is in hand, the handler is not the one that waits. -/
def Phase.Spares (broken : Handler) : Phase → Prop
  | .handling _ _ current rest _ => current ≠ broken ∧ rest.count broken ≤ 1
  | _ => True

/-- Neither does anybody disconnect, nor does a tag lose a handler or get this one. -/
def Command.Spares (broken : Handler) : Command → Prop
  | .disconnect | .unsubscribe _ => False
  | .subscribe _ _ handler => handler ≠ broken
  | .connect | .listen _ | .unlisten _ => True

/-- The handler fails as soon as it is called. -/
def Callbacks.Break (callbacks : Callbacks) (broken : Handler) : Prop :=
  ∀ event, callbacks.accepts event broken = false

/-- The handler does not wait first. -/
def Callbacks.Rush (callbacks : Callbacks) (broken : Handler) : Prop :=
  ∀ event, (callbacks.react broken event).suspends = false

theorem Callbacks.Give.handlersStay {callbacks : Callbacks}
    (h : callbacks.Give (·.Spares broken)) : callbacks.HandlersStay :=
  fun handler event commands hreact hleave => h.handlers handler event commands hreact _ hleave

theorem Callbacks.Give.listenersStay {callbacks : Callbacks}
    (h : callbacks.Give (·.Spares broken)) : callbacks.ListenersStay :=
  fun listener state commands hhear hleave => h.listeners listener state commands hhear _ hleave

theorem Turn.Gives.stays {turn : Turn} (h : turn.Gives (·.Spares broken)) : turn.Stays :=
  ⟨h.callbacks.handlersStay, h.callbacks.listenersStay, fun hleave => h.act _ hleave⟩

namespace Client

def without (broken : Handler) (c : Client) : Client :=
  { c with
    handlers := c.handlers.map fun kv => (kv.1, othersThan broken kv.2)
    loops := c.loops.map fun kv => (kv.1, kv.2.without broken) }

def Sorted.without (broken : Handler) : Sorted → Sorted
  | .event read handlers => .event read (othersThan broken handlers)
  | sorted => sorted

/-- Every tag that has the handler has it once and has others, too. -/
structure Accompanies (c : Client) (broken : Handler) : Prop where
  tags : ∀ kv ∈ c.handlers, Accompanied broken kv.2
  loops : ∀ kv ∈ c.loops, kv.2.phase.Spares broken

/-- The second client is the first one without the handler, and they have emitted the same apart
from it. -/
structure Mirrors (broken : Handler) (full alone : Client × List Emission) : Prop where
  client : alone.1 = full.1.without broken
  emissions : apartFrom broken alone.2 = apartFrom broken full.2
  accompanies : full.1.Accompanies broken

namespace Mirrors

variable {full alone : Client × List Emission}

theorem refl {c : Client} (h : c.Accompanies broken) (emissions : List Emission) :
    Mirrors broken (c, emissions) (c.without broken, emissions) := ⟨rfl, rfl, h⟩

/-- One thing after the other. -/
theorem append (h : Mirrors broken full alone) {f : Client → Client × List Emission}
    (hf : Mirrors broken (f full.1) (f (full.1.without broken))) :
    Mirrors broken ((f full.1).1, full.2 ++ (f full.1).2)
      ((f alone.1).1, alone.2 ++ (f alone.1).2) := by
  rw [← h.client] at hf
  refine ⟨hf.client, ?_, hf.accompanies⟩
  rw [apartFrom_append, apartFrom_append, h.emissions, hf.emissions]

theorem cons (h : Mirrors broken full alone) (emission : Emission) :
    Mirrors broken (full.1, emission :: full.2) (alone.1, emission :: alone.2) := by
  refine ⟨h.client, ?_, h.accompanies⟩
  have hemissions := h.emissions
  simp only [apartFrom, List.filter_cons] at *
  rw [hemissions]

theorem emit (h : Mirrors broken full alone) (later : List Emission) :
    Mirrors broken (full.1, full.2 ++ later) (alone.1, alone.2 ++ later) := by
  refine ⟨h.client, ?_, h.accompanies⟩
  rw [apartFrom_append, apartFrom_append, h.emissions]

/-- A step after which the client accompanies the handler again and that the client without it goes
along with. -/
theorem step (h : Mirrors broken full alone) {f : Client → Client}
    (hf : ∀ c : Client, c.Accompanies broken →
      (f c).Accompanies broken ∧ (f c).without broken = f (c.without broken)) :
    Mirrors broken (f full.1, full.2) (f alone.1, alone.2) := by
  obtain ⟨haccompanies, hsame⟩ := hf full.1 h.accompanies
  exact ⟨by rw [h.client, hsame], h.emissions, haccompanies⟩

end Mirrors

/-! ## What the client is without the handler -/

section Without

variable {c : Client}

theorem handlersOf_without (broken : Handler) (c : Client) (tag : String) :
    (c.without broken).handlersOf tag = othersThan broken (c.handlersOf tag) := by
  simp only [handlersOf, without, Keyed.get?_map_snd]
  cases c.handlers.get? tag <;> rfl

theorem loop?_without (broken : Handler) (c : Client) (id : Nat) :
    (c.without broken).loop? id = (c.loop? id).map (Loop.without broken) :=
  lookup_map_snd (Loop.without broken) id c.loops

theorem activeLoop?_without (broken : Handler) (c : Client) :
    (c.without broken).activeLoop? = c.activeLoop? := by
  have htask : (c.without broken).task = c.task := rfl
  simp only [activeLoop?, htask, loop?_without, Option.isSome_map]

theorem without_setPhase (c : Client) (id : Nat) (phase : Phase) :
    (c.setPhase id phase).without broken =
      (c.without broken).setPhase id (phase.without broken) := by
  simp only [without, setPhase, mapLoop, List.map_map]
  congr 1
  apply List.map_congr_left
  intro kv _
  simp only [Function.comp_apply]
  split <;> rfl

theorem without_endLoop (c : Client) (id : Nat) :
    (c.endLoop id).without broken = (c.without broken).endLoop id := by
  simp only [without, endLoop, List.filter_map]
  rfl

theorem watermark?_without (broken : Handler) (c : Client) (channel : String) :
    (c.without broken).watermark? channel = c.watermark? channel := rfl

theorem Accompanies.advance (h : c.Accompanies broken) (event : StreamEvent) :
    (c.advance event).Accompanies broken := by
  unfold Client.advance
  split
  · split
    · split
      · exact ⟨h.tags, h.loops⟩
      · exact h
    · exact ⟨h.tags, h.loops⟩
  · exact h

theorem without_advance (c : Client) (event : StreamEvent) :
    (c.advance event).without broken = (c.without broken).advance event := by
  simp only [advance, watermark?_without]
  split
  · split
    · split <;> rfl
    · rfl
  · rfl

end Without

/-! ## Commands and state changes -/

section Commands

variable {leave : Client → Client × List Emission} {callbacks : Callbacks} {c : Client}

theorem Accompanies.handlersOf (h : c.Accompanies broken) (tag : String) :
    Accompanied broken (c.handlersOf tag) := by
  unfold Client.handlersOf
  cases hget : c.handlers.get? tag with
  | none => exact ⟨fun hne => absurd rfl hne, Nat.zero_le 1⟩
  | some handlers => exact h.tags (tag, handlers) (Keyed.mem_of_get? hget)

theorem subscribe_accompanied {handlers : List Handler} (h : Accompanied broken handlers)
    {handler : Handler} (hne : handler ≠ broken) : Accompanied broken (handlers ++ [handler]) where
  others _ := by simp [othersThan, hne]
  once := by
    rw [List.count_append, List.count_singleton, beq_false_of_ne hne]
    exact h.once

variable (leave) in
theorem mirrors_performWith (h : c.Accompanies broken) {command : Command}
    (hspares : command.Spares broken) :
    Mirrors broken (performWith leave c command)
      (performWith leave (c.without broken) command) := by
  cases command with
  | disconnect | unsubscribe => exact hspares.elim
  | connect =>
    simp only [performWith, connect, activeLoop?_without]
    cases c.activeLoop? with
    | some => exact .refl h _
    | none =>
      refine ⟨?_, rfl, ⟨h.tags, fun kv hkv => ?_⟩⟩
      · simp only [without, List.map_append]
        rfl
      · rcases List.mem_append.mp hkv with hold | hnew
        · exact h.loops kv hold
        · rw [List.mem_singleton.mp hnew]
          trivial
  | subscribe name tag handler =>
    have hne : handler ≠ broken := hspares
    have hothers : (c.without broken).handlersOf tag ++ [handler] =
        othersThan broken (c.handlersOf tag ++ [handler]) := by
      simp [handlersOf_without, othersThan, hne]
    refine ⟨?_, rfl, ⟨fun kv hkv => ?_, h.loops⟩⟩
    · simp only [performWith, subscribe, hothers]
      simp only [without, Keyed.set_map_snd]
    · rcases Keyed.mem_set hkv with rfl | hold
      · exact subscribe_accompanied (h.handlersOf tag) hne
      · exact h.tags kv hold
  | listen | unlisten => exact ⟨rfl, rfl, ⟨h.tags, h.loops⟩⟩

variable (leave) in
theorem mirrors_performAllWith (h : c.Accompanies broken) {commands : List Command}
    (hspares : ∀ command ∈ commands, command.Spares broken) :
    Mirrors broken (performAllWith leave c commands)
      (performAllWith leave (c.without broken) commands) := by
  induction commands generalizing c with
  | nil => exact .refl h []
  | cons command rest ih =>
    have hfirst := mirrors_performWith leave h (hspares command List.mem_cons_self)
    exact hfirst.append (f := (performAllWith leave · rest)) <|
      ih hfirst.accompanies fun later hlater => hspares later (List.mem_cons_of_mem _ hlater)

theorem mirrors_announceWith (hgive : callbacks.Give (·.Spares broken)) (state : ConnectionState)
    (h : c.Accompanies broken) (listeners : List Listener) :
    Mirrors broken (announceWith leave callbacks state c listeners)
      (announceWith leave callbacks state (c.without broken) listeners) := by
  induction listeners generalizing c with
  | nil => exact .refl h []
  | cons l rest ih =>
    simp only [announceWith]
    cases hhear : callbacks.hear l state with
    | error message =>
      exact ((Mirrors.refl h _).append (f := (announceWith leave callbacks state · rest))
        (ih h)).cons _
    | ok commands =>
      have hfirst := mirrors_performAllWith leave h (hgive.listeners l state commands hhear)
      exact (hfirst.append (f := (announceWith leave callbacks state · rest))
        (ih hfirst.accompanies)).cons _

theorem mirrors_enter (hgive : callbacks.Give (·.Spares broken)) (state : ConnectionState)
    (h : c.Accompanies broken) :
    Mirrors broken (c.enter callbacks state) ((c.without broken).enter callbacks state) := by
  have hstate : (c.without broken).state = c.state := rfl
  simp only [enter, enterWith, hstate]
  split
  · exact .refl h []
  · have hentered : Client.Accompanies { c with state := state } broken := ⟨h.tags, h.loops⟩
    exact (mirrors_announceWith hgive state hentered c.listeners).cons _

end Commands

/-! ## Between events -/

section Loop

variable {callbacks : Callbacks} {c : Client} {id : Nat}

theorem Accompanies.setPhase (h : c.Accompanies broken) (id : Nat) (phase : Phase)
    (hphase : phase.Spares broken) : (c.setPhase id phase).Accompanies broken := by
  refine ⟨h.tags, fun kv hkv => ?_⟩
  obtain ⟨old, hold, rfl⟩ := List.mem_map.mp hkv
  split
  · exact hphase
  · exact h.loops old hold

theorem Accompanies.spares (h : c.Accompanies broken) {phase : Phase}
    (hrun : c.Running id phase) : phase.Spares broken := by
  obtain ⟨before, after, hloops, -⟩ := List.lookup_eq_some_iff.mp hrun.loop?
  have hmem : (id, { phase := phase }) ∈ c.loops := by simp [hloops]
  exact h.loops _ hmem

theorem Accompanies.endLoop (h : c.Accompanies broken) (id : Nat) :
    (c.endLoop id).Accompanies broken :=
  ⟨h.tags, fun kv hkv => h.loops kv (List.mem_filter.mp hkv).1⟩

theorem mirrors_attempt (hgive : callbacks.Give (·.Spares broken)) (h : c.Accompanies broken)
    (id : Nat) :
    Mirrors broken (c.attempt callbacks id) ((c.without broken).attempt callbacks id) := by
  have hclosed : (c.without broken).closed = c.closed := rfl
  simp only [attempt, hclosed]
  split
  · exact ⟨(without_endLoop c id).symm, rfl, h.endLoop id⟩
  · have hentered := mirrors_enter hgive .connecting h
    have hid : ((c.without broken).enter callbacks .connecting).1.lastEventId =
        (c.enter callbacks .connecting).1.lastEventId := by
      rw [hentered.client]
      rfl
    rw [hid]
    exact (hentered.emit _).step fun c hc =>
      ⟨hc.setPhase id .opening trivial, without_setPhase c id .opening⟩

theorem mirrors_retry (hgive : callbacks.Give (·.Spares broken)) (h : c.Accompanies broken)
    (id : Nat) (failure : Failure) :
    Mirrors broken (c.retry callbacks id failure)
      ((c.without broken).retry callbacks id failure) := by
  have hclosed : (c.without broken).closed = c.closed := rfl
  have hbackoff : (c.without broken).backoff = c.backoff := rfl
  simp only [retry, hclosed, hbackoff]
  split
  · exact ⟨(without_endLoop c id).symm, rfl, h.endLoop id⟩
  · have hgrown : Client.Accompanies { c with backoff := c.backoff.grow } broken :=
      ⟨h.tags, h.loops⟩
    have hentered := mirrors_enter hgive .reconnecting hgrown
    exact ((hentered.emit _).cons _).step fun c hc =>
      ⟨hc.setPhase id .sleeping trivial, without_setPhase c id .sleeping⟩

theorem mirrors_shake (hgive : callbacks.Give (·.Spares broken)) (h : c.Accompanies broken) :
    Mirrors broken (c.shake callbacks) ((c.without broken).shake callbacks) := by
  have hreset : Client.Accompanies { c with backoff := c.backoff.reset } broken :=
    ⟨h.tags, h.loops⟩
  exact ((mirrors_enter hgive .connected hreset).emit _).cons _

theorem mirrors_afterClosing (hgive : callbacks.Give (·.Spares broken))
    (h : c.Accompanies broken) (id : Nat) (outcome : Outcome) :
    Mirrors broken (c.afterClosing callbacks id outcome)
      ((c.without broken).afterClosing callbacks id outcome) := by
  have hended : Mirrors broken (c.endLoop id, []) ((c.without broken).endLoop id, []) :=
    ⟨(without_endLoop c id).symm, rfl, h.endLoop id⟩
  have hclosed : (c.without broken).closed = c.closed := rfl
  cases outcome with
  | cancelled => exact hended
  | failed failure => exact mirrors_retry hgive h id failure
  | left =>
    simp only [afterClosing, hclosed]
    split
    · exact hended
    · exact mirrors_retry hgive h id .closedByServer

end Loop

/-! ## Events -/

/-- The handlers to come are mirrored as well. -/
structure MirrorsHanding (broken : Handler) (full alone : Client × List Emission × Handing) :
    Prop where
  mirrors : Mirrors broken (full.1, full.2.1) (alone.1, alone.2.1)
  handing : alone.2.2 = full.2.2.without broken
  spares : ∀ phase, full.2.2 = .waiting phase → phase.Spares broken

section Events

variable {callbacks : Callbacks} {c : Client} {id : Nat} {phase : Phase}

theorem mirrors_offer (hgive : callbacks.Give (·.Spares broken)) (tag : String)
    (event : StreamEvent) (h : c.Accompanies broken) (handler : Handler) :
    let full := c.offer callbacks tag event handler
    let alone := (c.without broken).offer callbacks tag event handler
    Mirrors broken (full.1, full.2.1) (alone.1, alone.2.1) ∧ alone.2.2 = full.2.2 := by
  intro full alone
  unfold full alone offer
  cases hreact : (callbacks.react handler event).outcome with
  | error message => exact ⟨.refl h _, rfl⟩
  | ok commands =>
    have hcommands := mirrors_performAllWith (disconnect callbacks) h
      (hgive.handlers handler event commands hreact)
    exact ⟨hcommands.cons _, rfl⟩

/-- The broken handler does nothing but fail. -/
theorem offer_broken (hbreak : callbacks.Break broken) (tag : String) (event : StreamEvent)
    (c : Client) :
    ∃ message, c.offer callbacks tag event broken =
      (c, [.offered broken event, .notice (.handlerFailed tag event.channel? message)], false) := by
  have hfails := hbreak event
  unfold Callbacks.accepts at hfails
  cases hreact : (callbacks.react broken event).outcome with
  | error message => exact ⟨message, by rw [offer, hreact]⟩
  | ok commands => simp [hreact, Except.isOk, Except.toBool] at hfails

/-- What has been emitted before goes in front. -/
theorem MirrorsHanding.prepend {full alone : Client × List Emission × Handing}
    (h : MirrorsHanding broken full alone) {first first' : List Emission}
    (hfirst : apartFrom broken first' = apartFrom broken first) :
    MirrorsHanding broken (full.1, first ++ full.2.1, full.2.2)
      (alone.1, first' ++ alone.2.1, alone.2.2) := by
  refine ⟨⟨h.mirrors.client, ?_, h.mirrors.accompanies⟩, h.handing, h.spares⟩
  rw [apartFrom_append, apartFrom_append, hfirst, h.mirrors.emissions]

theorem mirrors_offerAll (hgive : callbacks.Give (·.Spares broken))
    (hbreak : callbacks.Break broken) (hrush : callbacks.Rush broken) (tag : String)
    (event : StreamEvent) (hrun : c.Running id phase) (h : c.Accompanies broken)
    (delivered : Bool) (handlers : List Handler) (honce : handlers.count broken ≤ 1) :
    MirrorsHanding broken (c.offerAll callbacks tag event delivered handlers)
      ((c.without broken).offerAll callbacks tag event delivered (othersThan broken handlers)) := by
  induction handlers generalizing c delivered with
  | nil =>
    simp only [othersThan, List.filter_nil, offerAll]
    refine ⟨?_, rfl, fun phase hphase => by cases hphase⟩
    cases delivered with
    | false => exact .refl h []
    | true => exact ⟨(without_advance c event).symm, rfl, h.advance event⟩
  | cons handler rest ih =>
    have hopen : ¬c.closed = true := by simp [hrun.closed]
    have hopen' : ¬(c.without broken).closed = true := hopen
    have hrest : rest.count broken ≤ 1 := Nat.le_trans List.count_le_count_cons honce
    by_cases hbroken : handler = broken
    · -- the client without the handler goes on with the others
      have hothers : othersThan broken (handler :: rest) = othersThan broken rest := by
        simp [othersThan, hbroken]
      rw [hothers, hbroken, offerAll, if_neg hopen, if_neg (by simp [hrush event])]
      obtain ⟨message, hoffer⟩ := offer_broken hbreak tag event c
      have hfails : apartFrom broken [] = apartFrom broken [.offered broken event,
          .notice (.handlerFailed tag event.channel? message)] := by
        simp [apartFrom, Emission.concerns]
      simp only [hoffer, Bool.or_false]
      exact (ih hrun h delivered hrest).prepend hfails
    · have hothers : othersThan broken (handler :: rest) =
          handler :: othersThan broken rest := by simp [othersThan, hbroken]
      rw [hothers, offerAll, offerAll, if_neg hopen, if_neg hopen']
      split
      · refine ⟨.refl h [], rfl, fun phase hphase => ?_⟩
        cases hphase
        exact ⟨hbroken, hrest⟩
      · obtain ⟨hfirst, haccepts⟩ := mirrors_offer hgive tag event h handler
        obtain ⟨c', emissions, hoffer, haside⟩ :=
          offer_spec hgive.handlersStay tag event hrun handler
        have hlink : SameLink c (c.offer callbacks tag event handler).1 := hoffer ▸ haside.link
        have hlater := ih (hrun.of_sameLink hlink) hfirst.accompanies
          (delivered || (c.offer callbacks tag event handler).2.2) hrest
        have hclient := hfirst.client
        dsimp only at hclient ⊢
        rw [haccepts, hclient]
        exact hlater.prepend hfirst.emissions

theorem mirrors_resumeOffer (hgive : callbacks.Give (·.Spares broken))
    (hbreak : callbacks.Break broken) (hrush : callbacks.Rush broken) (tag : String)
    (event : StreamEvent) (hrun : c.Running id phase) (h : c.Accompanies broken)
    (delivered : Bool) (current : Handler) (rest : List Handler)
    (honce : rest.count broken ≤ 1) :
    MirrorsHanding broken (c.resumeOffer callbacks tag event current rest delivered)
      ((c.without broken).resumeOffer callbacks tag event current (othersThan broken rest)
        delivered) := by
  obtain ⟨hfirst, haccepts⟩ := mirrors_offer hgive tag event h current
  obtain ⟨c', emissions, hoffer, haside⟩ := offer_spec hgive.handlersStay tag event hrun current
  have hlink : SameLink c (c.offer callbacks tag event current).1 := hoffer ▸ haside.link
  have hlater := mirrors_offerAll hgive hbreak hrush tag event (hrun.of_sameLink hlink)
    hfirst.accompanies (delivered || (c.offer callbacks tag event current).2.2) rest honce
  have hclient := hfirst.client
  simp only [resumeOffer]
  dsimp only at hclient ⊢
  rw [haccepts, hclient]
  exact hlater.prepend hfirst.emissions

theorem MirrorsHanding.settle {full alone : Client × List Emission × Handing}
    (h : MirrorsHanding broken full alone) (id : Nat) :
    Mirrors broken (full.1.settleHanding id full.2.2, full.2.1)
      (alone.1.settleHanding id alone.2.2, alone.2.1) := by
  have hphase (phase : Phase) (hspares : phase.Spares broken) :
      Mirrors broken (full.1.setPhase id phase, full.2.1)
        (alone.1.setPhase id (phase.without broken), alone.2.1) := by
    refine ⟨?_, h.mirrors.emissions, h.mirrors.accompanies.setPhase id phase hspares⟩
    rw [without_setPhase]
    exact congrArg (Client.setPhase · id (phase.without broken)) h.mirrors.client
  rw [h.handing]
  cases hhanding : full.2.2 with
  | finished => exact hphase .receiving trivial
  | waiting phase => exact hphase phase (h.spares phase hhanding)
  | failed failure => exact hphase (.closing (.failed failure)) trivial

theorem sort_without (h : c.Accompanies broken) (frame : Frame) :
    (c.without broken).sort frame = (c.sort frame).without broken := by
  have hof := handlersOf_without broken c frame.event
  by_cases hnone : c.handlersOf frame.event = []
  · rw [hnone] at hof
    rw [sort_of_no_handlers hnone, sort_of_no_handlers hof]
    rfl
  · have hothers : (c.without broken).handlersOf frame.event ≠ [] :=
      hof ▸ (h.handlersOf frame.event).others hnone
    rw [sort_of_handlers hnone, sort_of_handlers hothers, hof]
    cases EventTag.ofName? frame.event with
    | none => rfl
    | some tag =>
      dsimp only
      cases StreamEvent.ofData tag frame.data with
      | ok event =>
        dsimp only
        cases hstale : c.isStale event with
        | true =>
          have hstale' : (c.without broken).isStale event = true := hstale
          rw [if_pos rfl, if_pos hstale']
          rfl
        | false =>
          have hstale' : (c.without broken).isStale event = false := hstale
          rw [hstale', if_neg (by simp), if_neg (by simp)]
          rfl
      | invalid errors => rfl
      | outOfRange => rfl

theorem Accompanies.once_of_sort (h : c.Accompanies broken) {frame : Frame} {event : StreamEvent}
    {handlers : List Handler} (hsort : c.sort frame = .event event handlers) :
    handlers.count broken ≤ 1 := by
  have hsorts := c.sorts_sort frame
  rw [hsort] at hsorts
  exact hsorts.1 ▸ (h.handlersOf frame.event).once

theorem mirrors_dispatch (hgive : callbacks.Give (·.Spares broken))
    (hbreak : callbacks.Break broken) (hrush : callbacks.Rush broken)
    (hrun : c.Running id phase) (h : c.Accompanies broken) (frame : Frame) :
    MirrorsHanding broken (c.dispatch callbacks frame)
      ((c.without broken).dispatch callbacks frame) := by
  rw [dispatch, dispatch, sort_without h]
  cases hsort : c.sort frame with
  | drop reason notices => exact ⟨.refl h _, rfl, fun phase hphase => by cases hphase⟩
  | unreadable => exact ⟨.refl h _, rfl, fun phase hphase => by cases hphase⟩
  | event event handlers =>
    have hcounted : apartFrom broken [.received frame.event] =
        apartFrom broken [.received frame.event] := rfl
    exact (mirrors_offerAll hgive hbreak hrush frame.event event hrun h false handlers
      (h.once_of_sort hsort)).prepend hcounted

end Events

/-! ## Turns -/

theorem Accompanies.noted {c : Client} (h : c.Accompanies broken) (frame : Frame) :
    (c.noted frame).Accompanies broken := by
  unfold Client.noted
  cases frame.id <;> exact ⟨h.tags, h.loops⟩

section Turns

variable {callbacks : Callbacks} {c : Client} {id : Nat} {phase : Phase}
  (hgive : callbacks.Give (·.Spares broken)) (hbreak : callbacks.Break broken)
  (hrush : callbacks.Rush broken)
include hgive hbreak hrush

theorem mirrors_receive (hrun : c.Running id phase) (h : c.Accompanies broken) (frame : Frame) :
    Mirrors broken (c.receive callbacks id frame)
      ((c.without broken).receive callbacks id frame) := by
  have hnoted : (c.without broken).noted frame = (c.noted frame).without broken := by
    unfold noted
    cases frame.id <;> rfl
  have hrun' : (c.noted frame).Running id phase := hrun.of_sameLink (sameLink_noted c frame)
  have h' : (c.noted frame).Accompanies broken := h.noted frame
  rw [receive_of_open callbacks hrun.closed, receive_of_open callbacks (by exact hrun.closed),
    hnoted]
  have hevent : (c.without broken).connectedEvent = c.connectedEvent := rfl
  rw [hevent]
  split
  · exact mirrors_shake hgive h'
  · exact (mirrors_dispatch hgive hbreak hrush hrun' h' frame).settle id

theorem mirrors_signal (hrun : c.Running id phase) (h : c.Accompanies broken) (s : Signal) :
    Mirrors broken (c.signal callbacks id s) ((c.without broken).signal callbacks id s) := by
  have hloop : (c.without broken).loop? id = some { phase := phase.without broken } := by
    rw [loop?_without, hrun.loop?]
    rfl
  have hspares : phase.Spares broken := h.spares hrun
  have hstays : Mirrors broken (c, []) (c.without broken, []) := .refl h []
  have hmoves (phase : Phase) (hphase : phase.Spares broken)
      (hsame : phase.without broken = phase) :
      Mirrors broken (c.setPhase id phase, []) ((c.without broken).setPhase id phase, []) := by
    refine ⟨?_, rfl, h.setPhase id phase hphase⟩
    rw [without_setPhase, hsame]
  unfold signal
  rw [hloop, hrun.loop?]
  dsimp only
  cases phase with
  | scheduled =>
    cases s with
    | begun => exact mirrors_attempt hgive h id
    | _ => exact hstays
  | opening =>
    cases s with
    | opened => exact hmoves .receiving trivial rfl
    | openFailed failure => exact mirrors_retry hgive h id failure
    | _ => exact hstays
  | receiving =>
    cases s with
    | frame frame => exact mirrors_receive hgive hbreak hrush hrun h frame
    | ended | broke => exact hmoves _ trivial rfl
    | _ => exact hstays
  | handling tag event current rest delivered =>
    cases s with
    | resumed =>
      exact (mirrors_resumeOffer hgive hbreak hrush tag event hrun h delivered current rest
        hspares.2).settle id
    | _ => exact hstays
  | closing outcome =>
    cases s with
    | closed => exact (mirrors_afterClosing hgive h id outcome).cons .transportClosed
    | _ => exact hstays
  | sleeping =>
    cases s with
    | woken => exact mirrors_attempt hgive h id
    | _ => exact hstays

end Turns

theorem mirrors_take {c : Client} (hstands : Stands c) (h : c.Accompanies broken) {turn : Turn}
    (hgives : turn.Gives (·.Spares broken)) (hbreak : turn.callbacks.Break broken)
    (hrush : turn.callbacks.Rush broken) :
    Mirrors broken (c.take turn) ((c.without broken).take turn) := by
  obtain ⟨callbacks, act⟩ := turn
  cases act with
  | command command => exact mirrors_performWith _ h (hgives.act command rfl)
  | signal id s =>
    by_cases hloop : c.loop? id = none
    · have hloop' : (c.without broken).loop? id = none := by simp [loop?_without, hloop]
      rw [take_unheard hloop, take_unheard hloop']
      exact .refl h []
    obtain ⟨phase, hgoing⟩ := hstands.going_of_loop hloop
    exact mirrors_signal hgives.callbacks hbreak hrush hgoing.toRunning h s

end Client

end LineWatch
