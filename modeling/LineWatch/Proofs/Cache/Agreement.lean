import LineWatch.Proofs.Cache.Ahead
import LineWatch.Proofs.Interval.Window

/-!
# The shown status and the log

A line and its log are moved by rules of their own. A snapshot counts if it is not older than the
status held, and leaves the log alone. A history goes into the log in any case, and moves the line
only if it is newer. Where both are of one instant they show one status as long as nothing fetched
contradicts what was known of that instant: changes that come in live may tie as they like.
-/

namespace LineWatch

namespace LineEntry

variable {id : String} {e : LineEntry} {t : Instant} {retention : Retention}

/-- Where the line and the newest record of its log are of the instant `t`, they are of one
status. -/
def Agrees (t : Instant) (e : LineEntry) : Prop :=
  ∀ held ∈ e.standing?, ∀ last ∈ e.log.getLast?, held.2 = t → last.time = t →
    held.1 = last.newStatus

instance (t : Instant) (e : LineEntry) : Decidable (e.Agrees t) :=
  inferInstanceAs (Decidable (∀ held ∈ e.standing?, _))

theorem agrees_empty (t : Instant) : Agrees t {} := by
  intro held hheld
  exact absurd hheld (by simp [standing?])

end LineEntry

/-- An update that contradicts what is known of a line at the instant `t`: a snapshot of then that
has not the status of the newest record, or a history that makes a record of then the newest one
which has not the status of the line. -/
def LineUpdate.Contradicts (e : LineEntry) (t : Instant) : LineUpdate → Prop
  | .change _ => False
  | .snapshot line => line.lastStatusUpdate = some t ∧
      ∃ last ∈ e.log.getLast?, last.time = t ∧ last.newStatus ≠ line.status
  | .history id changes => ∃ held ∈ e.standing?, held.2 = t ∧
      ∃ newest ∈ (e.addRecords id (StatusChange.sort changes)).log.getLast?,
        e.hasSeen newest = false ∧ newest.time = t ∧ newest.newStatus ≠ held.1

instance (e : LineEntry) (t : Instant) : (u : LineUpdate) → Decidable (u.Contradicts e t)
  | .change _ => inferInstanceAs (Decidable False)
  | .snapshot _ => inferInstanceAs (Decidable (_ ∧ _))
  | .history _ _ => inferInstanceAs (Decidable (∃ held ∈ e.standing?, _))

namespace LineEntry

variable {id : String} {e : LineEntry} {t : Instant} {retention : Retention}

theorem hasSeen_mono {e e' : LineEntry} (h : e.keys ⊆ e'.keys) {c : StatusChange}
    (hc : e'.hasSeen c = false) : e.hasSeen c = false := by
  rw [hasSeen, ← Bool.not_eq_true, List.contains_iff_mem] at hc ⊢
  exact fun hmem => hc (h hmem)

/-- The newest record after a history was the newest one before, or has not been known. -/
theorem getLast?_addRecords (h : e.Recorded id) {changes : List StatusChange}
    {newest : StatusChange} (hn : (e.addRecords id changes).log.getLast? = some newest) :
    e.log.getLast? = some newest ∨ e.hasSeen newest = false := by
  unfold LineEntry.addRecords at hn
  induction changes generalizing e with
  | nil => exact .inl hn
  | cons c rest ih =>
    rcases ih (h.addRecord c) hn with hlast | hnew
    · unfold LineEntry.addRecord at hlast
      split_ifs at hlast with hskip
      · exact .inl hlast
      · rw [not_or, Bool.not_eq_true] at hskip
        rcases h.sorted.getLast?_insert_cases hlast with hlast | rfl
        · exact .inl hlast
        · exact .inr hskip.2
    · refine .inr (hasSeen_mono (fun key hkey => ?_) hnew)
      exact (mem_keys_addRecord id e c key).mpr (.inl hkey)

/-- A change that is applied makes line and log agree, whatever was before. -/
theorem Ahead.agrees_accept (h : e.Ahead) {c : StatusChange} (hc : e.judge c = .applied)
    (t : Instant) : (e.accept retention c).Agrees t := by
  intro held hheld last hlast _ _
  rw [standing?_accept, Option.mem_some_iff] at hheld
  rw [h.getLast?_accept hc, Option.mem_some_iff] at hlast
  rw [← hheld, ← hlast, completed_newStatus]
  rfl

theorem Agrees.applyChange (h : e.Agrees t) (ha : e.Ahead) (c : StatusChange) :
    (e.applyChange retention c).Agrees t := by
  unfold LineEntry.applyChange
  split_ifs with hc
  · exact ha.agrees_accept hc t
  · exact h

theorem Agrees.seedLine (h : e.Agrees t) {line : ProductionLine}
    (hnot : ¬(LineUpdate.snapshot line).Contradicts e t) : (e.seedLine line).Agrees t := by
  intro held hheld last hlast hthen hlthen
  have hlast : last ∈ e.log.getLast? := hlast
  rw [standing?_seedLine] at hheld
  rcases laterStanding?_cases e.standing? line.standing? with hkept | htaken
  · rw [hkept] at hheld
    exact h held hheld last hlast hthen hlthen
  · rw [htaken] at hheld
    obtain ⟨since, hsince, rfl⟩ := Option.map_eq_some_iff.mp hheld
    by_contra hne
    exact hnot ⟨hsince.trans (congrArg some hthen), last, hlast, hlthen, Ne.symm hne⟩

theorem Agrees.seedHistory (h : e.Agrees t) (hr : e.Recorded id) {changes : List StatusChange}
    (hnot : ¬(LineUpdate.history id changes).Contradicts e t) :
    (e.seedHistory retention id changes).Agrees t := by
  intro held hheld last hlast hthen hlthen
  rw [standing?_seedHistory, Option.mem_def.mp hlast, Option.map_some] at hheld
  rcases laterStanding?_cases (some last.standing) e.standing? with hfollowed | hkept
  · rw [hfollowed, Option.mem_some_iff] at hheld
    rw [← hheld]
    rfl
  · rw [hkept] at hheld
    rw [getLast?_seedHistory] at hlast
    rcases getLast?_addRecords hr hlast with hold | hnew
    · exact h held hheld last hold hthen hlthen
    · by_contra hne
      exact hnot ⟨held, hheld, hthen, last, hlast, hnew, hlthen, Ne.symm hne⟩

theorem Agrees.update {u : LineUpdate} (h : e.Agrees t) (ha : e.Ahead) (hr : e.Recorded u.lineId)
    (hnot : ¬u.Contradicts e t) : (e.update retention u).Agrees t := by
  cases u with
  | change c => exact h.applyChange ha c
  | snapshot line => exact h.seedLine hnot
  | history id changes => exact h.seedHistory hr hnot

/-- Snapshots do not touch the log, so none of a list has to be looked at after the others. -/
theorem Agrees.seedLines (h : e.Agrees t) {lines : List ProductionLine}
    (hnot : ∀ line ∈ lines, ¬(LineUpdate.snapshot line).Contradicts e t) :
    (lines.foldl LineEntry.seedLine e).Agrees t := by
  induction lines generalizing e with
  | nil => exact h
  | cons line rest ih =>
    apply ih (h.seedLine (hnot line List.mem_cons_self))
    exact fun later hlater => hnot later (List.mem_cons_of_mem line hlater)

end LineEntry

/-- An operation that contradicts what is known of the line `id` at the instant `t`. -/
def CacheOp.Contradicts (cache : LineCache) (id : String) (t : Instant) : CacheOp → Prop
  | .update u => u.lineId = id ∧ u.Contradicts (cache.entry id) t
  | .list lines _ => ∃ line ∈ lines, line.id = id ∧
      (LineUpdate.snapshot line).Contradicts (cache.entry id) t
  | .lineEvent _ | .invalidate => False

instance (cache : LineCache) (id : String) (t : Instant) :
    (op : CacheOp) → Decidable (op.Contradicts cache id t)
  | .update _ => inferInstanceAs (Decidable (_ ∧ _))
  | .list lines _ => inferInstanceAs (Decidable (∃ line ∈ lines, _))
  | .lineEvent _ | .invalidate => inferInstanceAs (Decidable False)

namespace LineCache

variable {retention : Retention} {cache : LineCache} {id : String} {t : Instant}

/-- No operation of the run contradicts what is known of the line at `t` when it comes. -/
def Undisputed (retention : Retention) (id : String) (t : Instant) (cache : LineCache) :
    List CacheOp → Prop
  | [] => True
  | op :: rest => ¬op.Contradicts cache id t ∧
      Undisputed retention id t (cache.perform retention op) rest

instance decidableUndisputed (retention : Retention) (id : String) (t : Instant) :
    (cache : LineCache) → (ops : List CacheOp) → Decidable (Undisputed retention id t cache ops)
  | _, [] => inferInstanceAs (Decidable True)
  | cache, op :: rest =>
    have := decidableUndisputed retention id t (cache.perform retention op) rest
    inferInstanceAs (Decidable (_ ∧ _))

theorem agrees_perform {op : CacheOp} (hc : cache.Coherent retention)
    (ha : (cache.entry id).Ahead) (h : (cache.entry id).Agrees t) (hnot : ¬op.Contradicts cache id t) :
    ((cache.perform retention op).entry id).Agrees t := by
  cases op with
  | update u =>
    have hr := (hc.entry u.lineId).toRecorded
    change ((cache.update retention u).entry id).Agrees t
    rw [entry_update retention hr]
    split_ifs with hid
    · subst hid
      exact h.update ha hr fun hu => hnot ⟨rfl, hu⟩
    · exact h
  | list lines fetchedAt =>
    change ((cache.seedLines lines fetchedAt).cache.entry id).Agrees t
    rw [entry_seedLines]
    split_ifs
    · exact LineEntry.agrees_empty t
    · apply h.seedLines
      intro line hline hu
      obtain ⟨hmem, hid⟩ := List.mem_filter.mp hline
      exact hnot ⟨line, hmem, by simpa using hid, hu⟩
  | lineEvent event => exact h
  | invalidate => exact h

/-- Agreement lasts until something contradicts. -/
theorem agrees_run (retention : Retention) {before after : List CacheOp}
    (h : ((run retention before).entry id).Agrees t)
    (hafter : Undisputed retention id t (run retention before) after) :
    ((run retention (before ++ after)).entry id).Agrees t := by
  induction after generalizing before with
  | nil => rwa [List.append_nil]
  | cons op rest ih =>
    obtain ⟨hop, hrest⟩ := hafter
    have hstep : run retention (before ++ [op]) = (run retention before).perform retention op :=
      List.foldl_append
    rw [← hstep] at hrest
    rw [List.append_cons]
    apply ih _ hrest
    rw [hstep]
    exact agrees_perform ((coherent_empty retention).performAll before)
      (ahead_run retention before id) h hop

/-- A line that is of the instant of the newest record of its log has the status of this record,
and so of the open interval, unless something fetched has contradicted at that instant since they
did not differ. -/
theorem shown_status_agrees (retention : Retention) (before after : List CacheOp) (id : String)
    {line : ProductionLine} {last : StatusChange}
    (hline : (run retention (before ++ after)).line? id = some line)
    (hlast : ((run retention (before ++ after)).log id).getLast? = some last)
    (htie : line.lastStatusUpdate = some last.time)
    (hbefore : ((run retention before).entry id).Agrees last.time)
    (hafter : Undisputed retention id last.time (run retention before) after) :
    line.status = last.newStatus ∧ ∀ now, ∃ i,
      (Interval.resolve ((run retention (before ++ after)).log id) now).getLast? = some i ∧
        i.isOpen = true ∧ i.status = line.status := by
  have hagrees : ((run retention (before ++ after)).entry id).Agrees last.time :=
    agrees_run retention hbefore hafter
  have hshown : ((run retention (before ++ after)).entry id).standing? =
      some (line.status, last.time) := by
    rw [LineEntry.standing?, entry_line?, hline, Option.bind_some, ProductionLine.standing?, htie]
    rfl
  have hstatus : line.status = last.newStatus := hagrees _ hshown last hlast rfl rfl
  refine ⟨hstatus, fun now => ?_⟩
  have hsorted : StatusChange.Sorted ((run retention (before ++ after)).log id) :=
    (((coherent_empty retention).performAll _).entry id).sorted
  have hopen : (Interval.resolve ((run retention (before ++ after)).log id) now).getLast? =
      some ⟨last.lineId, last.newStatus, last.millis, max last.millis now, true⟩ := by
    rw [Interval.resolve, hsorted.sort_eq]
    exact Interval.getLast?_ofOrdered hlast
  exact ⟨_, hopen, rfl, hstatus.symm⟩

/-- A record of the first instant of 1970, and a snapshot of the same instant. -/
def recordThenSnapshot (recorded shown : Status) : List CacheOp := [
  .update (.history "a" [{ time := .epoch, lineId := "a", newStatus := recorded }]),
  .update (.snapshot
    { id := "a"
      code := "A"
      name := "Line a"
      status := shown
      statusSince := some .epoch })]

/-- A snapshot that contradicts, and a live change of the same instant. -/
def disputeThenLive : List CacheOp :=
  recordThenSnapshot .on .off ++
    [.update (.change { time := .epoch, lineId := "a", newStatus := .error })]

theorem shown_status_agrees_disputeThenLive :
    let cache := run none (disputeThenLive ++ recordThenSnapshot .on .error)
    ∃ line last, cache.line? "a" = some line ∧ (cache.log "a").getLast? = some last ∧
      line.status = .error ∧ line.status = last.newStatus ∧
      ∀ now, ∃ i, (Interval.resolve (cache.log "a") now).getLast? = some i ∧
        i.isOpen = true ∧ i.status = line.status := by
  intro cache
  have hshown : (cache.line? "a").map (fun line => (line.status, line.lastStatusUpdate)) =
      some (.error, some .epoch) := by decide +kernel
  have hlogged : (cache.log "a").getLast?.map (·.time) = some .epoch := by decide +kernel
  obtain ⟨line, hline, hpair⟩ := Option.map_eq_some_iff.mp hshown
  obtain ⟨last, hlast, htime⟩ := Option.map_eq_some_iff.mp hlogged
  obtain ⟨hstatus, hupdate⟩ := Prod.ext_iff.mp hpair
  have htie : line.lastStatusUpdate = some last.time := by rw [htime]; exact hupdate
  refine ⟨line, last, hline, hlast, hstatus, ?_⟩
  exact shown_status_agrees none disputeThenLive (recordThenSnapshot .on .error) "a" hline hlast
    htie (by rw [htime]; decide +kernel) (by rw [htime]; decide +kernel)

/-- What the line shows since when, what the newest record of its log says, and the status of the
open interval. -/
def readings (ops : List CacheOp) : Option Standing × Option Standing × Option Status :=
  let cache := run none ops
  ((cache.entry "a").standing?, (cache.log "a").getLast?.map StatusChange.standing,
    (Interval.resolve (cache.log "a") 0).getLast?.map (·.status))

/-- Where the record and the snapshot disagree, in either order, the line shows the snapshot and the
open interval the record. -/
theorem shown_status_disagrees :
    readings (recordThenSnapshot .on .off) =
      (some (.off, .epoch), some (.on, .epoch), some .on) ∧
    readings (recordThenSnapshot .on .off).reverse =
      (some (.off, .epoch), some (.on, .epoch), some .on) := by
  decide +kernel

end LineCache

end LineWatch
