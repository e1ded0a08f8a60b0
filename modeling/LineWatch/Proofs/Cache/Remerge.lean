import LineWatch.Proofs.Cache.Agreement
import LineWatch.Proofs.Cache.Filled
import LineWatch.Proofs.Cache.Replay

/-!
# Merging a history again

Pruning forgets the keys of the records it cuts off, so the same history brings them back. None of
them is later than the record kept at the horizon. Those of earlier milliseconds are put in front of
it and cut off again. One of its own millisecond is put behind it, and takes its place: the line is
in another status at the horizon than before. Apart from that record a second merge changes nothing.
-/

namespace LineWatch

namespace StatusChange

variable {new rest : List StatusChange} {first newest : StatusChange} {span : ℤ}

/-- Records from before the newest one do not change which is the newest. -/
theorem Sorted.getLast?_sort_append {log : List StatusChange} (h : Sorted log)
    (hn : newest ∈ log.getLast?) (hnew : ∀ c ∈ new, c.millis < newest.millis) :
    (sort (log ++ new)).getLast? = some newest := by
  have hin : newest ∈ log := List.mem_of_getLast? hn
  have hall : ∀ c ∈ log ++ new, c.millis ≤ newest.millis := by
    intro c hc
    rcases List.mem_append.mp hc with hc | hc
    · exact h.le_newest hn hc
    · exact (hnew c hc).le
  have hnone : new.filter (·.millis = newest.millis) = [] := by
    rw [List.filter_eq_nil_iff]
    intro c hc
    simpa using (hnew c hc).ne
  have htied : (sort (log ++ new)).filter (·.millis = newest.millis) =
      log.filter (·.millis = newest.millis) := by
    rw [filter_millis_sort, List.filter_append, hnone, List.append_nil]
  cases hlast : (sort (log ++ new)).getLast? with
  | none =>
    rw [List.getLast?_eq_none_iff] at hlast
    have : newest ∈ sort (log ++ new) := mem_sort.mpr (List.mem_append_left _ hin)
    rw [hlast] at this
    exact absurd this List.not_mem_nil
  | some last =>
    have hle : last.millis ≤ newest.millis := hall last (mem_sort.mp (List.mem_of_getLast? hlast))
    have hge : newest.millis ≤ last.millis :=
      (sorted_sort _).le_newest hlast (mem_sort.mpr (List.mem_append_left _ hin))
    rw [← getLast?_filter_of_getLast? (p := (·.millis = newest.millis)) hlast
      (by simpa using le_antisymm hle hge), htied]
    exact getLast?_filter_of_getLast? hn (by simp)

section

variable {horizon : ℤ} (hfirst : first.millis ≤ horizon) (hrest : ∀ c ∈ rest, horizon < c.millis)
  (hnew : ∀ c ∈ new, c.millis ≤ first.millis)

include hfirst hrest hnew

/-- Records not later than the first one of a pruned log do not come behind its horizon. -/
theorem filter_after_sort_append (hsorted : Sorted (first :: rest)) :
    (sort (first :: rest ++ new)).filter (horizon < ·.millis) = rest := by
  have hsortedRest : Sorted rest := (List.pairwise_cons.mp hsorted).2
  have hkeep : rest.filter (horizon < ·.millis) = rest :=
    List.filter_eq_self.mpr (by simpa using hrest)
  have hdrop : new.filter (horizon < ·.millis) = [] :=
    List.filter_eq_nil_iff.mpr fun c hc => by simpa using (hnew c hc).trans hfirst
  rw [filter_sort (fun m => decide (horizon < m)), List.filter_append,
    List.filter_cons_of_neg (by simpa using hfirst), hkeep, hdrop, List.append_nil,
    hsortedRest.sort_eq]

/-- The last of those that tie with the first record of a pruned log is in force at its horizon. -/
theorem inForce?_sort_append : inForce? horizon (sort (first :: rest ++ new)) =
    (first :: new.filter (·.millis = first.millis)).getLast? := by
  have hbefore : (first :: rest ++ new).filter (·.millis ≤ horizon) = first :: new := by
    have hnone : rest.filter (·.millis ≤ horizon) = [] :=
      List.filter_eq_nil_iff.mpr fun c hc => by simpa using hrest c hc
    have hall : new.filter (·.millis ≤ horizon) = new :=
      List.filter_eq_self.mpr fun c hc => by simpa using (hnew c hc).trans hfirst
    rw [List.cons_append, List.filter_cons_of_pos (by simpa using hfirst), List.filter_append,
      hnone, hall, List.nil_append]
  have hmax : ((first :: new).map millis).max? = some first.millis := by
    rw [List.max?_eq_some_iff]
    refine ⟨List.mem_cons_self, ?_⟩
    rw [List.forall_mem_map, List.forall_mem_cons]
    exact ⟨le_rfl, hnew⟩
  have htied : (first :: rest ++ new).filter (·.millis = first.millis) =
      first :: new.filter (·.millis = first.millis) := by
    have hnone : rest.filter (·.millis = first.millis) = [] :=
      List.filter_eq_nil_iff.mpr fun c hc => by simpa using (hfirst.trans_lt (hrest c hc)).ne'
    rw [List.cons_append, List.filter_cons_of_pos (by simp), List.filter_append, hnone,
      List.nil_append]
  rw [inForce?_sort, inForce?, hbefore, hmax, Option.bind_some, htied]

end

/-- A pruned log into which records not later than its first one are put, pruned again: the last
of those that tie with the first one takes its place. -/
theorem drop_expired_sort_append (hsorted : Sorted (first :: rest)) (hspan : 0 < span)
    (hn : newest ∈ (first :: rest).getLast?) (hfirst : first.millis ≤ newest.millis - span)
    (hrest : ∀ c ∈ rest, newest.millis - span < c.millis)
    (hnew : ∀ c ∈ new, c.millis ≤ first.millis) :
    let filled := sort (first :: rest ++ new)
    filled.drop (expired (some span) filled) =
      (first :: new.filter (·.millis = first.millis)).getLast?.toList ++ rest := by
  intro filled
  have hlast : newest ∈ filled.getLast? :=
    hsorted.getLast?_sort_append hn fun c hc => by have := hnew c hc; omega
  rw [(sorted_sort _).drop_expired hlast, filter_after_sort_append hfirst hrest hnew hsorted,
    inForce?_sort_append hfirst hrest hnew]

end StatusChange

namespace LineEntry

variable {id : String} {e : LineEntry} {c : StatusChange} {changes : List StatusChange}
  {retention : Retention}

theorem Ahead.followLog_eq (h : e.Ahead) : e.followLog = e := by
  unfold followLog
  split
  · rfl
  · next latest hlatest =>
    obtain ⟨held, hheld, hle⟩ := h latest hlatest
    obtain ⟨line, hline, -, hlast⟩ := exists_line_of_standing? hheld
    simp only [hline, Option.map_some, hlast]
    exact if_neg (Instant.not_lt.mpr hle)

theorem keys_seedHistory (retention : Retention) (id : String) (e : LineEntry)
    (changes : List StatusChange) : (e.seedHistory retention id changes).keys =
      ((e.addRecords id (StatusChange.sort changes)).prune retention).keys := by
  obtain ⟨line?, he⟩ :=
    ((e.addRecords id (StatusChange.sort changes)).prune retention).followLog_eq
  rw [seedHistory, he]
  rfl

/-- The records of a history that are missing and tie with the first record of the log. -/
def tied (id : String) (e : LineEntry) (changes : List StatusChange) : List StatusChange :=
  (e.missing id (StatusChange.sort changes)).filter fun c => e.log.head?.any (·.millis = c.millis)

theorem tied_eq_nil_iff : e.tied id changes = [] ↔
    ∀ c ∈ changes, c.lineId = id → e.hasSeen c = false →
      ∀ first ∈ e.log.head?, c.millis ≠ first.millis := by
  rw [tied, List.filter_eq_nil_iff]
  constructor
  · intro hno c hc hid hgone first hfirst htie
    obtain ⟨d, hd, hkey⟩ := exists_missing (StatusChange.mem_sort.mpr hc) hid hgone
    have hmillis : d.millis = c.millis := (Prod.ext_iff.mp hkey).1
    apply hno d hd
    rw [Option.mem_def.mp hfirst, Option.any_some, decide_eq_true_eq, hmillis, htie]
  · intro hno d hd htie
    obtain ⟨hin, hid, hgone⟩ := mem_missing hd
    obtain ⟨first, hfirst, heq⟩ := (Option.any_eq_true _ _).mp htie
    exact hno d (StatusChange.mem_sort.mp hin) hid hgone first hfirst
      (of_decide_eq_true heq).symm

/-- An entry with a history in it: what it lacks of the history lies before its horizon, and not
after the record kept there. -/
structure Covers (retention : Retention) (id : String) (changes : List StatusChange)
    (e : LineEntry) : Prop where
  recorded : e.Recorded id
  ahead : e.Ahead
  within : StatusChange.Within retention e.log
  cut : ∀ c ∈ changes, c.lineId = id → e.hasSeen c = false →
    ∃ span ∈ retention, ∃ first ∈ e.log.head?, ∃ newest ∈ e.log.getLast?,
      c.millis ≤ first.millis ∧ first.millis ≤ newest.millis - span

/-- The records that pruning cuts off come before the first one it leaves, which lies before the
horizon itself. -/
theorem le_head_of_mem_take_expired (h : e.Recorded id)
    (hc : c ∈ e.log.take (StatusChange.expired retention e.log)) :
    ∃ span ∈ retention, ∃ first ∈ (e.prune retention).log.head?,
      ∃ newest ∈ (e.prune retention).log.getLast?,
        c.millis ≤ first.millis ∧ first.millis ≤ newest.millis - span := by
  rw [prune_log, StatusChange.getLast?_drop_expired]
  have hpos : 0 < StatusChange.expired retention e.log := pos_of_mem_take hc
  have hne : e.log ≠ [] := List.ne_nil_of_mem (List.mem_of_mem_take hc)
  have hlt : StatusChange.expired retention e.log < e.log.length :=
    StatusChange.expired_lt_length hne
  have hsplit : StatusChange.Sorted (e.log.take (StatusChange.expired retention e.log) ++
      e.log.drop (StatusChange.expired retention e.log)) := by
    rw [List.take_append_drop]
    exact h.sorted
  obtain ⟨newest, hnewest⟩ := Option.isSome_iff_exists.mp (List.getLast?_isSome.mpr hne)
  cases retention with
  | none => exact absurd hpos (Nat.lt_irrefl 0)
  | some span =>
    have hfirst : e.log[StatusChange.expired (some span) e.log] ∈
        (e.log.drop (StatusChange.expired (some span) e.log)).head? := by
      rw [List.head?_drop, List.getElem?_eq_getElem hlt]
      rfl
    refine ⟨span, rfl, _, hfirst, newest, hnewest, ?_, ?_⟩
    · exact (List.pairwise_append.mp hsplit).2.2 c hc _ (List.mem_of_mem_head? hfirst)
    · apply StatusChange.le_of_mem_take_expired hnewest hpos
      rw [List.take_succ_eq_append_getElem hlt]
      exact List.mem_append_right _ (List.mem_singleton_self _)

theorem covers_seedHistory (h : e.Recorded id) (changes : List StatusChange) :
    (e.seedHistory retention id changes).Covers retention id changes where
  recorded := h.seedHistory changes
  ahead := ahead_seedHistory retention id e changes
  within := by
    rw [seedHistory, followLog_log]
    exact within_prune (h.addRecords _)
  cut := by
    intro c hc hid hgone
    have hfilled : (e.addRecords id (StatusChange.sort changes)).Recorded id := h.addRecords _
    rw [hasSeen, ← Bool.not_eq_true, List.contains_iff_mem, keys_seedHistory,
      hfilled.prune.mem_keys, prune_log, mem_drop_keys hfilled.nodup, not_and_not_right] at hgone
    have hin : c.key ∈ (e.addRecords id (StatusChange.sort changes)).keys :=
      (mem_keys_addRecords id e _ c.key).mpr (.inr ⟨c, StatusChange.mem_sort.mpr hc, hid, rfl⟩)
    obtain ⟨d, hd, hkey⟩ := List.mem_map.mp (hgone ((hfilled.mem_keys c.key).mp hin))
    have hmillis : d.millis = c.millis := (Prod.ext_iff.mp hkey).1
    rw [seedHistory, followLog_log, ← hmillis]
    exact le_head_of_mem_take_expired hfilled hd

namespace Covers

variable (h : e.Covers retention id changes)

include h

theorem le_head_of_mem_missing (hc : c ∈ e.missing id (StatusChange.sort changes)) :
    ∃ span ∈ retention, ∃ first ∈ e.log.head?, ∃ newest ∈ e.log.getLast?,
      c.millis ≤ first.millis ∧ first.millis ≤ newest.millis - span := by
  obtain ⟨hin, hid, hgone⟩ := mem_missing hc
  exact h.cut c (StatusChange.mem_sort.mp hin) hid hgone

/-- The records that the history brings back are no news. -/
theorem getLast?_addRecords (hpos : ∀ span ∈ retention, 0 < span) :
    (e.addRecords id (StatusChange.sort changes)).log.getLast? = e.log.getLast? := by
  rw [log_addRecords h.recorded]
  by_cases hnone : e.missing id (StatusChange.sort changes) = []
  · rw [hnone, List.append_nil, h.recorded.sorted.sort_eq]
  · obtain ⟨c, hc⟩ := List.exists_mem_of_ne_nil _ hnone
    obtain ⟨span, hspan, first, hfirst, newest, hnewest, -, hle⟩ := h.le_head_of_mem_missing hc
    rw [Option.mem_def.mp hnewest]
    refine h.recorded.sorted.getLast?_sort_append hnewest fun d hd => ?_
    obtain ⟨_, _, first', hfirst', _, _, hbefore, _⟩ := h.le_head_of_mem_missing hd
    rw [Option.mem_unique hfirst' hfirst] at hbefore
    have := hpos span hspan
    omega

theorem seedHistory_eq (hpos : ∀ span ∈ retention, 0 < span) :
    e.seedHistory retention id changes =
      (e.addRecords id (StatusChange.sort changes)).prune retention := by
  apply Ahead.followLog_eq
  intro last hlast
  rw [prune_log, StatusChange.getLast?_drop_expired, h.getLast?_addRecords hpos] at hlast
  rw [standing?_prune, standing?_addRecords]
  exact h.ahead last hlast

theorem line?_seedHistory (hpos : ∀ span ∈ retention, 0 < span) :
    (e.seedHistory retention id changes).line? = e.line? := by
  rw [h.seedHistory_eq hpos, prune_line?, addRecords_line?]

/-- The last of the missing records that tie with the first one of the log takes its place. -/
theorem log_seedHistory (hpos : ∀ span ∈ retention, 0 < span) :
    (e.seedHistory retention id changes).log =
      (e.log.take 1 ++ e.tied id changes).getLast?.toList ++ e.log.tail := by
  rw [h.seedHistory_eq hpos, prune_log, log_addRecords h.recorded]
  by_cases hnone : e.missing id (StatusChange.sort changes) = []
  · have htied : e.tied id changes = [] := by rw [tied, hnone, List.filter_nil]
    rw [hnone, htied, List.append_nil, List.append_nil, h.recorded.sorted.sort_eq,
      h.within.expired_eq_zero]
    cases e.log <;> rfl
  · obtain ⟨c, hc⟩ := List.exists_mem_of_ne_nil _ hnone
    obtain ⟨span, hspan, first, hfirst, newest, hnewest, -, hle⟩ := h.le_head_of_mem_missing hc
    obtain ⟨rest, hcons⟩ := List.head?_eq_some_iff.mp hfirst
    have hrest := h.within span hspan newest hnewest
    have hsorted := h.recorded.sorted
    have htied : e.tied id changes =
        (e.missing id (StatusChange.sort changes)).filter (·.millis = first.millis) := by
      rw [tied, hcons]
      exact List.filter_congr fun c _ => by simp [eq_comm]
    rw [hcons] at hrest hsorted hnewest
    have hnew : ∀ d ∈ e.missing id (StatusChange.sort changes), d.millis ≤ first.millis := by
      intro d hd
      obtain ⟨_, _, first', hfirst', _, _, hbefore, _⟩ := h.le_head_of_mem_missing hd
      rwa [Option.mem_unique hfirst' hfirst] at hbefore
    have hpruned := StatusChange.drop_expired_sort_append hsorted (hpos span hspan) hnewest hle
      hrest hnew
    rw [Option.mem_def.mp hspan, htied, hcons]
    exact hpruned

theorem tail_log_seedHistory (hpos : ∀ span ∈ retention, 0 < span) :
    (e.seedHistory retention id changes).log.tail = e.log.tail := by
  rw [h.log_seedHistory hpos]
  cases hlog : e.log with
  | nil =>
    have htied : e.tied id changes = [] := by
      rw [tied, hlog]
      exact List.filter_eq_nil_iff.mpr fun c _ => by simp
    rw [htied]
    rfl
  | cons first rest =>
    rw [List.take_succ_cons, List.take_zero, List.singleton_append, List.getLast?_cons]
    rfl

theorem log_seedHistory_eq_iff (hpos : ∀ span ∈ retention, 0 < span) :
    (e.seedHistory retention id changes).log = e.log ↔ e.tied id changes = [] := by
  rw [h.log_seedHistory hpos]
  constructor
  · intro heq
    by_contra hne
    -- the one that takes the place was missing, and so it is not one of the log
    obtain ⟨last, hlast⟩ := Option.isSome_iff_exists.mp (List.getLast?_isSome.mpr hne)
    rw [List.getLast?_append, hlast, Option.some_or, Option.toList_some] at heq
    have hin : last ∈ e.log := heq ▸ List.mem_cons_self
    have hgone := (mem_missing (List.mem_filter.mp (List.mem_of_getLast? hlast)).1).2.2
    rw [← Bool.not_eq_true, hasSeen_iff h.recorded] at hgone
    exact hgone (List.mem_map_of_mem hin)
  · intro hnone
    rw [hnone, List.append_nil]
    cases e.log <;> rfl

end Covers

end LineEntry

namespace LineCache

/-- A history that is merged again leaves the line as it is and the log but for its first record.
Log and keys are as before exactly if no record of the history that was cut off is of the millisecond
of the record kept at the horizon. -/
theorem remerge_changes_nothing_iff (reached : Retention) (ops : List CacheOp) (days : Int)
    (id : String) (changes : List StatusChange) :
    let retention := Retention.ofDays days
    let once := ((run reached ops).seedHistory retention id changes).cache
    let again := (once.seedHistory retention id changes).cache
    again.line? id = once.line? id ∧
    (again.log id).tail = (once.log id).tail ∧
    (LineEntry.SameLog (once.entry id) (again.entry id) ↔
      ∀ c ∈ changes, c.lineId = id → c.key ∉ once.seenKeys id →
        ∀ first ∈ (once.log id).head?, c.millis ≠ first.millis) := by
  intro retention once again
  have hrecorded : ((run reached ops).entry id).Recorded id :=
    (((coherent_empty reached).performAll ops).entry id).toRecorded
  have hpos : ∀ span ∈ retention, 0 < span := fun span => Retention.pos_of_mem_ofDays
  have honce : once.entry id = ((run reached ops).entry id).seedHistory retention id changes := by
    rw [entry_seedHistory retention _ id changes hrecorded, if_pos rfl]
  have hcovers : (once.entry id).Covers retention id changes :=
    honce ▸ LineEntry.covers_seedHistory hrecorded changes
  have hagain : again.entry id = (once.entry id).seedHistory retention id changes := by
    rw [entry_seedHistory retention _ id changes hcovers.recorded, if_pos rfl]
  refine ⟨?_, ?_, ?_⟩
  · rw [← entry_line?, hagain, hcovers.line?_seedHistory hpos, entry_line?]
  · rw [← entry_log, hagain, hcovers.tail_log_seedHistory hpos, entry_log]
  · have hrecordedAgain : (again.entry id).Recorded id := hagain ▸ hcovers.recorded.seedHistory _
    rw [LineEntry.sameLog_iff hcovers.recorded hrecordedAgain, hagain,
      hcovers.log_seedHistory_eq_iff hpos, LineEntry.tied_eq_nil_iff]
    simp only [LineEntry.hasSeen, ← Bool.not_eq_true, List.contains_iff_mem, entry_keys, entry_log]

/-- A line that goes on and off in one millisecond, and on again two days later. -/
def flickering : List StatusChange :=
  let change (micros : Int) (status : Status) : StatusChange :=
    { time := (Instant.ofMicros? micros).getD .epoch, lineId := "a", newStatus := status }
  [change 0 .on, change 0 .off, change (2 * microsPerDay) .on]

/-- The second merge puts another record at the horizon, and the line into another status. -/
theorem remerge_changes_status :
    let retention := Retention.ofDays 1
    let once := (empty.seedHistory retention "a" flickering).cache
    let again := (once.seedHistory retention "a" flickering).cache
    (once.log "a").map (·.newStatus) = [.off, .on] ∧
      (again.log "a").map (·.newStatus) = [.on, .on] := by
  intro retention once again
  have hpos : ∀ span ∈ retention, 0 < span := fun span => Retention.pos_of_mem_ofDays
  have hsorted : StatusChange.Sorted flickering := by
    unfold StatusChange.Sorted
    decide +kernel
  have hempty := LineEntry.recorded_empty "a"
  have honce : once.entry "a" =
      ((({} : LineEntry).addRecords "a" flickering).prune retention).followLog := by
    rw [entry_seedHistory retention empty "a" flickering hempty, if_pos rfl,
      LineEntry.seedHistory, hsorted.sort_eq]
    rfl
  have hcovers : (once.entry "a").Covers retention "a" flickering := by
    rw [entry_seedHistory retention empty "a" flickering hempty, if_pos rfl]
    exact LineEntry.covers_seedHistory hempty flickering
  have hagain : again.entry "a" = (once.entry "a").seedHistory retention "a" flickering := by
    rw [entry_seedHistory retention _ "a" flickering hcovers.recorded, if_pos rfl]
  rw [← entry_log, ← entry_log, hagain, hcovers.log_seedHistory hpos, LineEntry.tied,
    hsorted.sort_eq, honce]
  decide +kernel

end LineCache

end LineWatch
