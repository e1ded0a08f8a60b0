import LineWatch.Proofs.Cache.Replay
import Mathlib.Data.List.Chain

/-!
# Logs that the stream alone has written

As long as nothing is fetched, a line is known from its events alone, and shows the newest record of
its log. An event that is applied is not older than this record and names the status of the line as
the one it replaces. So every record is linked to the record before it, in the order of time, and
cutting off old records leaves the links of the others.
-/

namespace LineWatch

/-- `b` is not older than `a`, and replaces the status that `a` has brought. -/
def StatusChange.Precedes (a b : StatusChange) : Prop :=
  a.time ≤ b.time ∧ b.oldStatus = some a.newStatus

namespace LineEntry

variable {id : String} {e : LineEntry} {c : StatusChange} {retention : Retention}

/-- The line shows the newest record of its log and tells since when, and the records are linked. -/
structure Linked (e : LineEntry) : Prop where
  abreast : e.Abreast
  dated : ∀ line ∈ e.line?, line.statusSince.isSome
  chain : e.log.IsChain StatusChange.Precedes

theorem linked_empty : Linked {} where
  abreast := rfl
  dated := by simp
  chain := .nil

theorem Linked.exists_shown (h : e.Linked) {last : StatusChange} (hlast : last ∈ e.log.getLast?) :
    ∃ line, e.line? = some line ∧ line.status = last.newStatus ∧
      line.statusSince = some last.time := by
  have hshown : e.standing? = some last.standing := by
    rw [h.abreast]
    exact Option.mem_map_of_mem _ hlast
  obtain ⟨line, hline, hstatus, hupdate⟩ := exists_line_of_standing? hshown
  obtain ⟨since, hsince⟩ := Option.isSome_iff_exists.mp (h.dated line hline)
  refine ⟨line, hline, hstatus, ?_⟩
  rw [ProductionLine.lastStatusUpdate, hsince] at hupdate
  rw [hsince]
  exact hupdate

theorem completed_oldStatus {line : ProductionLine} (hline : e.line? = some line)
    (hnew : c.oldStatus = none) : (e.completed c).oldStatus = some line.status := by
  simp only [completed, hline, hnew]

theorem dated_follow (e : LineEntry) (c : StatusChange) :
    ∀ line ∈ (e.follow c).line?, line.statusSince.isSome := by
  intro line hline
  obtain rfl := Option.some.inj hline
  cases e.line? <;> rfl

theorem Linked.accept (h : e.Linked) (hnew : c.oldStatus = none) (hc : e.judge c = .applied) :
    (e.accept retention c).Linked where
  abreast := h.abreast.accept hc
  dated := by
    rw [LineEntry.accept, prune_line?]
    exact dated_follow e (e.completed c)
  chain := by
    have hlast := h.abreast.ahead.le_of_applied hc
    rw [LineEntry.accept, prune_log, log_append]
    apply List.IsChain.drop
    rw [StatusChange.insert_eq_concat]
    · refine h.chain.append (.singleton _) fun last hmem d hd => ?_
      obtain rfl := Option.some.inj hd
      obtain ⟨line, hline, hstatus, _⟩ := h.exists_shown hmem
      refine ⟨?_, ?_⟩
      · rw [completed_time]
        exact hlast last hmem
      · rw [completed_oldStatus hline hnew, hstatus]
    · intro last hmem
      rw [completed_time]
      exact hlast last hmem

theorem Linked.applyChange (h : e.Linked) (hnew : c.oldStatus = none) :
    (e.applyChange retention c).Linked := by
  unfold LineEntry.applyChange
  split_ifs with hc
  · exact h.accept hnew hc
  · exact h

end LineEntry

/-- What the stream alone does to the cache. -/
inductive LiveOp where
  | status (event : StreamEvent)
  | lineEvent (event : StreamEvent)
  | invalidate

/-- The operation on the cache; there is none for an event that tells of no status. -/
def LiveOp.cacheOp? : LiveOp → Option CacheOp
  | .status event => event.toChange?.map fun c => .update (.change c)
  | .lineEvent event => some (.lineEvent event)
  | .invalidate => some .invalidate

theorem StreamEvent.oldStatus_toChange? {event : StreamEvent} {c : StatusChange}
    (h : event.toChange? = some c) : c.oldStatus = none := by
  cases event with
  | lineStatus type t id code status =>
    obtain rfl := Option.some.inj h
    rfl
  | connected _ | lineChanged _ _ _ | lineDeleted _ _ _ _ => exact absurd h (by simp [toChange?])

namespace LineCache

variable {cache : LineCache} {retention : Retention}

def live (retention : Retention) (ops : List LiveOp) : LineCache :=
  run retention (ops.filterMap LiveOp.cacheOp?)

theorem linked_perform {op : LiveOp} {cacheOp : CacheOp} (hop : op.cacheOp? = some cacheOp)
    (h : ∀ id, (cache.entry id).Linked) (id : String) :
    ((cache.perform retention cacheOp).entry id).Linked := by
  cases op with
  | status event =>
    obtain ⟨c, hc, rfl⟩ := Option.map_eq_some_iff.mp hop
    change ((cache.applyChange retention c).cache.entry id).Linked
    rw [entry_applyChange]
    split_ifs
    · exact (h id).applyChange (StreamEvent.oldStatus_toChange? hc)
    · exact h id
  | lineEvent event =>
    obtain rfl := Option.some.inj hop
    exact h id
  | invalidate =>
    obtain rfl := Option.some.inj hop
    exact h id

theorem linked_live (retention : Retention) (ops : List LiveOp) (id : String) :
    ((live retention ops).entry id).Linked := by
  induction ops using List.reverseRecOn generalizing id with
  | nil => exact LineEntry.linked_empty
  | append_singleton ops op ih =>
    rw [live, List.filterMap_append]
    cases hop : op.cacheOp? with
    | none =>
      rw [List.filterMap_cons_none hop, List.filterMap_nil, List.append_nil]
      exact ih id
    | some cacheOp =>
      rw [List.filterMap_cons_some hop, List.filterMap_nil, run, List.foldl_append]
      exact linked_perform hop ih id

/-- A line with a log shows the status and the time of its newest record. The records are in the
order of their times, and each but the first names the status of the record before it as the old
one. -/
theorem live_log_shown (retention : Retention) (ops : List LiveOp) (id : String)
    (h : id ∈ (live retention ops).logs.keys) :
    let cache := live retention ops
    let log := cache.log id
    (∃ line last, cache.line? id = some line ∧ log.getLast? = some last ∧
      line.status = last.newStatus ∧ line.statusSince = some last.time) ∧
    log.Pairwise (fun a b => a.time ≤ b.time) ∧
    log.IsChain (fun a b => b.oldStatus = some a.newStatus) := by
  intro cache log
  have hlinked : (cache.entry id).Linked := linked_live retention ops id
  have hrecorded : (cache.entry id).Recorded id :=
    (((coherent_empty retention).performAll _).entry id).toRecorded
  have hne : log ≠ [] := (LineEntry.log_ne_nil_iff hrecorded).mpr ((Keyed.mem_keys_iff _ id).mp h)
  obtain ⟨last, hlast⟩ := Option.isSome_iff_exists.mp (List.getLast?_isSome.mpr hne)
  obtain ⟨line, hline, hstatus, hsince⟩ := hlinked.exists_shown hlast
  refine ⟨⟨line, last, hline, hlast, hstatus, hsince⟩, ?_, ?_⟩
  · have htimes : log.IsChain (fun a b => a.time ≤ b.time) := hlinked.chain.imp fun _ _ => And.left
    have : Trans (fun a b : StatusChange => a.time ≤ b.time)
        (fun a b : StatusChange => a.time ≤ b.time) (fun a b : StatusChange => a.time ≤ b.time) :=
      ⟨Instant.le_trans⟩
    exact htimes.pairwise
  · exact hlinked.chain.imp fun _ _ => And.right

/-- Two events of one instant, a stale one, an update of the line, and one two days later. -/
def twoDaysLive : List LiveOp :=
  let event (micros : Int) (status : Status) : LiveOp :=
    .status (.lineStatus none ((Instant.ofMicros? micros).getD .epoch) "a" "A" status)
  [event 5000000 .on, event 5000000 .off, event 4000000 .error,
    .lineEvent (.lineChanged none .epoch none), event 172805000000 .maintenance]

theorem live_log_shown_twoDaysLive :
    let cache := live (Retention.ofDays 1) twoDaysLive
    let log := cache.log "a"
    log.map (·.newStatus) = [.off, .maintenance] ∧
    (∃ line last, cache.line? "a" = some line ∧ log.getLast? = some last ∧
      line.status = last.newStatus ∧ line.statusSince = some last.time) ∧
    log.Pairwise (fun a b => a.time ≤ b.time) ∧
    log.IsChain (fun a b => b.oldStatus = some a.newStatus) :=
  ⟨by decide +kernel,
    live_log_shown (Retention.ofDays 1) twoDaysLive "a" (by decide +kernel)⟩

end LineCache

end LineWatch
