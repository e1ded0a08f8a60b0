import LineWatch.Proofs.Cache.Arrival
import LineWatch.Proofs.Sync.InFlight

/-!
# Lines that were deleted, and older fetches

A list that was fetched removes the lines that are no longer on it, and nothing of them is left:
neither a log nor a word that they are gone. A fetch that began before this list was asked for may
still wait for its reply then. So whether the reply brings a line back is up to the reply alone,
and not to the order of the requests: the line is back if the reply tells of it.
-/

namespace LineWatch

/-- A run with the dates of its requests, counted in moves. -/
structure Dated where
  state : InFlight := {}
  now : Nat := 0
  /-- When a fetch under way began, and so asked for its list. -/
  began : Nat → Nat := fun _ => 0
  /-- When the list was asked for that has deleted a line, until the line is back. -/
  deleted? : String → Option Nat := fun _ => none

namespace Dated

variable {retention : Retention} {id : String}

/-- The date of the list with which a move deletes a line. -/
def deletion? (d : Dated) (id : String) : Move → Option Nat
  | .reply task reply =>
    if ∃ op ∈ d.state.op? (.reply task reply), op.Deletes d.state.cache id
    then some (d.began task) else none
  | .op _ | .refresh _ _ | .bootstrap _ _ => none

/-- The date of a number that is free moves along, so a fetch begins with the date of its move. -/
def step (retention : Retention) (d : Dated) (m : Move) : Dated :=
  let state := d.state.step retention m
  { state
    now := d.now + 1
    began := fun task => if d.state.fetch? task = none then d.now else d.began task
    deleted? := fun id =>
      (d.deletion? id m).or (if (state.cache.line? id).isSome then none else d.deleted? id) }

def run (retention : Retention) (moves : List Move) : Dated :=
  moves.foldl (step retention) {}

/-- The fetch began before the list was asked for that has deleted the line. -/
def Late (d : Dated) (task : Nat) (id : String) : Prop :=
  ∃ asked ∈ d.deleted? id, d.began task < asked

instance (d : Dated) (task : Nat) (id : String) : Decidable (d.Late task id) :=
  inferInstanceAs (Decidable (∃ asked ∈ d.deleted? id, _))

/-- A line of which a deletion is on record is not in the cache. -/
structure Kept (retention : Retention) (d : Dated) : Prop where
  coherent : d.state.cache.Coherent retention
  away : ∀ id, (d.deleted? id).isSome → d.state.cache.line? id = none

theorem kept_start (retention : Retention) : Kept retention {} where
  coherent := LineCache.coherent_empty retention
  away := by simp

/-- A move that deletes a line leaves it out of the cache. -/
theorem line?_step_of_deletion {d : Dated} {m : Move} (h : (d.deletion? id m).isSome) :
    (d.step retention m).state.cache.line? id = none := by
  change (d.state.step retention m).cache.line? id = none
  unfold deletion? at h
  split at h
  · split_ifs at h with hdeletes
    · obtain ⟨op, hop, hdeletes⟩ := hdeletes
      rw [InFlight.cache_step, Option.mem_def.mp hop]
      exact LineCache.line?_perform_of_deletes hdeletes
    · exact Bool.noConfusion h
  all_goals exact Bool.noConfusion h

theorem Kept.step {d : Dated} (h : d.Kept retention) (m : Move) :
    (d.step retention m).Kept retention where
  coherent := InFlight.coherent_step h.coherent m
  away := by
    intro id hdeleted
    change ((d.deletion? id m).or
      (if ((d.step retention m).state.cache.line? id).isSome then none else d.deleted? id)).isSome
      at hdeleted
    rw [Option.isSome_or, Bool.or_eq_true] at hdeleted
    rcases hdeleted with hnow | hbefore
    · exact line?_step_of_deletion hnow
    · apply Option.not_isSome_iff_eq_none.mp
      intro hthere
      rw [if_pos hthere] at hbefore
      exact Bool.noConfusion hbefore

theorem kept_run (retention : Retention) (moves : List Move) :
    (run retention moves).Kept retention := by
  induction moves using List.reverseRecOn with
  | nil => exact kept_start retention
  | append_singleton moves m ih =>
    rw [run, List.foldl_append]
    exact ih.step m

/-- A late reply brings a deleted line back exactly if it can be read and tells of the line. Then
the line is as the reply alone makes it: of what was deleted nothing has a part in this. -/
theorem late_reply_restores_iff (retention : Retention) (moves : List Move) {task : Nat}
    {fetch : Fetch} (hfetch : (run retention moves).state.fetch? task = some fetch)
    (hlate : (run retention moves).Late task id) (reply : Reply) :
    let after := (run retention (moves ++ [.reply task reply])).state.cache
    ((after.line? id).isSome ↔ ∃ op ∈ fetch.op? reply, op.TellsOf id) ∧
      after.entry id =
        ((fetch.op? reply).elim .empty (LineCache.empty.perform retention)).entry id := by
  intro after
  have hkept := kept_run retention moves
  have haway : (run retention moves).state.cache.line? id = none := by
    obtain ⟨asked, hasked, _⟩ := hlate
    exact hkept.away id (Option.isSome_of_mem hasked)
  have hafter : after = (fetch.op? reply).elim (run retention moves).state.cache
      ((run retention moves).state.cache.perform retention) := by
    change (run retention (moves ++ [.reply task reply])).state.cache = _
    rw [run, List.foldl_append]
    change ((run retention moves).state.step retention (.reply task reply)).cache = _
    rw [InFlight.cache_step, InFlight.op?, hfetch]
    rfl
  have hentry : after.entry id =
      ((fetch.op? reply).elim .empty (LineCache.empty.perform retention)).entry id := by
    rw [hafter]
    cases fetch.op? reply with
    | none => exact (hkept.coherent.entry id).eq_empty haway
    | some op => exact LineCache.entry_perform_of_away hkept.coherent haway op
  refine ⟨?_, hentry⟩
  rw [← LineCache.entry_line?, hentry, LineCache.entry_line?]
  cases fetch.op? reply with
  | none => exact iff_of_false Bool.false_ne_true (by simp)
  | some op => simpa using LineCache.line?_isSome_perform_empty op

/-- A list with one line. -/
def lineReply : Reply := .answered 200 <|
  "\x7b\"data\": [\x7b\"id\": \"a\", \"code\": \"A\", \"name\": \"Line a\", " ++
    "\"status\": \"on\"\x7d]\x7d"

def emptyReply : Reply := .answered 200 "\x7b\"data\": []\x7d"

/-- The history of the line. -/
def recordReply : Reply := .answered 200 <|
  "\x7b\"data\": [\x7b\"line_id\": \"a\", \"new_status\": \"on\", " ++
    "\"time\": \"2024-01-01T00:00:00Z\"\x7d]\x7d"

/-- A refresh deletes the line of which a bootstrap awaits the history. -/
def historyOvertaken : List Move :=
  [.bootstrap 0 .epoch, .reply 0 lineReply, .op .invalidate, .refresh 1 .epoch,
    .reply 1 emptyReply]

/-- A bootstrap deletes the line while a refresh awaits an older list. -/
def listOvertaken : List Move :=
  [.bootstrap 0 .epoch, .reply 0 lineReply, .reply 0 emptyReply, .op .invalidate,
    .refresh 1 .epoch, .bootstrap 2 .epoch, .reply 2 emptyReply]

theorem late_reply_not_found :
    let missing := Move.reply 0 (.answered 404 "")
    (run none historyOvertaken).Late 0 "a" ∧
      ¬((run none (historyOvertaken ++ [missing])).state.cache.line? "a").isSome := by
  have hfetch : (run none historyOvertaken).state.fetch? 0 =
      some (.bootstrap (.history "a" [])) := by decide +kernel
  have hlate : (run none historyOvertaken).Late 0 "a" := by decide +kernel
  obtain ⟨hback, _⟩ :=
    late_reply_restores_iff none historyOvertaken hfetch hlate (.answered 404 "")
  refine ⟨hlate, fun hthere => ?_⟩
  have htells := hback.mp hthere
  revert htells
  decide +kernel

/-- In either overlap the older reply brings the deleted line back. -/
theorem late_reply_restores_deleted :
    (let before := run none historyOvertaken
     let after := run none (historyOvertaken ++ [.reply 0 recordReply])
     before.Late 0 "a" ∧ before.state.cache.line? "a" = none ∧
       (after.state.cache.line? "a").isSome) ∧
    (let before := run none listOvertaken
     let after := run none (listOvertaken ++ [.reply 1 lineReply])
     before.Late 1 "a" ∧ before.state.cache.line? "a" = none ∧
       (after.state.cache.line? "a").isSome) := by
  constructor <;> decide +kernel

end Dated

end LineWatch
