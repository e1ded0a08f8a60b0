import LineWatch.Proofs.Cache.Recorded
import LineWatch.Proofs.Interval.Window
import LineWatch.Proofs.Kpi.Durations

/-!
# What a pruned log still shows

Pruning takes records off the front of a log, and with them the intervals that end at or before
the horizon of the retention. A window that starts behind the horizon shows none of them. A window
that starts at the horizon may show those of no length that lie on it, which take no time. So the
figures of a window are the same before and after pruning as far back as the retention reaches.
-/

namespace LineWatch

namespace Interval

open StatusChange (Sorted sort expired)

variable {log : List StatusChange} {is : List Interval} {a b now bound : ℤ} {n : ℕ}

theorem clip_append (is js : List Interval) (a b : ℤ) :
    clip (is ++ js) a b = clip is a b ++ clip js a b := by
  unfold clip
  split_ifs
  · rfl
  · exact List.filterMap_append

theorem clip_eq_nil_of_stop_lt (h : ∀ i ∈ is, i.stop < a) : clip is a b = [] :=
  clip_eq_nil fun i hi => clip?_of_stop_le (h i hi).le (fun _ => h i hi) b

theorem durationIn_clip_of_stop_le (h : ∀ i ∈ is, i.stop ≤ a) (s : Status) :
    Summary.durationIn (clip is a b) s = 0 := by
  rw [Summary.durationIn_clip]
  apply List.sum_eq_zero
  intro d hd
  obtain ⟨i, hi, rfl⟩ := List.mem_map.mp hd
  have hstop := h i (List.mem_filter.mp hi).1
  unfold overlap
  omega

/-- Records taken off the front take their intervals with them. -/
theorem ofOrdered_drop (now : ℤ) (h : n < log.length) :
    ofOrdered now (log.drop n) = (ofOrdered now log).drop n := by
  induction log generalizing n with
  | nil => exact absurd h (Nat.not_lt_zero n)
  | cons c rest ih =>
    cases n with
    | zero => rfl
    | succ n =>
      have hrest : n < rest.length := Nat.lt_of_succ_lt_succ h
      cases rest with
      | nil => exact absurd hrest (Nat.not_lt_zero n)
      | cons d rest =>
        rw [List.drop_succ_cons, ih hrest, ofOrdered, List.drop_succ_cons]

/-- An interval in front of a record ends where a record up to this one begins. -/
theorem exists_stop_eq {i : Interval} (h : n < log.length) (hi : i ∈ (ofOrdered now log).take n) :
    ∃ c ∈ log.take (n + 1), i.stop = c.millis := by
  induction log generalizing n with
  | nil => exact absurd h (Nat.not_lt_zero n)
  | cons c rest ih =>
    cases n with
    | zero => exact absurd hi List.not_mem_nil
    | succ n =>
      have hrest : n < rest.length := Nat.lt_of_succ_lt_succ h
      cases rest with
      | nil => exact absurd hrest (Nat.not_lt_zero n)
      | cons d rest =>
        rw [ofOrdered, List.take_succ_cons, List.mem_cons] at hi
        rcases hi with rfl | hi
        · exact ⟨d, List.mem_cons_of_mem c List.mem_cons_self, rfl⟩
        · obtain ⟨r, hr, hstop⟩ := ih hrest hi
          exact ⟨r, List.mem_cons_of_mem c hr, hstop⟩

/-- The intervals of the records that pruning cuts off end at the horizon or before. -/
theorem stop_le_of_mem_take_expired {newest : StatusChange} {span : ℤ} {i : Interval}
    (hnewest : newest ∈ log.getLast?)
    (hi : i ∈ (ofOrdered now log).take (expired (some span) log)) :
    i.stop ≤ newest.millis - span := by
  have hne : log ≠ [] := List.ne_nil_of_mem (List.mem_of_getLast? hnewest)
  have hpos : 0 < expired (some span) log := pos_of_mem_take hi
  obtain ⟨c, hc, hstop⟩ := exists_stop_eq (StatusChange.expired_lt_length hne) hi
  rw [hstop]
  exact StatusChange.le_of_mem_take_expired hnewest hpos hc

/-- The intervals of a log are those that pruning cuts off, and then those of the pruned log. -/
theorem resolve_eq_append (now : ℤ) (retention : Retention) (hsorted : Sorted log)
    (hne : log ≠ []) :
    resolve log now = (ofOrdered now log).take (expired retention log) ++
      resolve (log.drop (expired retention log)) now := by
  have hkept : Sorted (log.drop (expired retention log)) :=
    hsorted.sublist (List.drop_sublist _ log)
  rw [resolve, resolve, hsorted.sort_eq, hkept.sort_eq,
    ofOrdered_drop now (StatusChange.expired_lt_length hne), List.take_append_drop]

end Interval

namespace LineCache

theorem log_prune (retention : Retention) (cache : LineCache) (id : String) :
    (cache.prune retention id).1.log id =
      (cache.log id).drop (StatusChange.expired retention (cache.log id)) := by
  rw [← entry_log, entry_prune, if_pos rfl, LineEntry.prune_log, entry_log]

/-- A window behind the horizon of the retention shows the same intervals before and after
pruning, and one that starts at the horizon the same time in every status. -/
theorem window_prune (cache : LineCache) (id : String) (span : ℤ) (newest : StatusChange)
    (hsorted : StatusChange.Sorted (cache.log id))
    (hnewest : newest ∈ (cache.log id).getLast?) :
    let kept := (cache.prune (some span) id).1.log id
    let horizon := newest.millis - span
    (∀ start stop now, horizon < start →
      Interval.window kept start stop now = Interval.window (cache.log id) start stop now) ∧
    ∀ stop now s, Summary.durationIn (Interval.window kept horizon stop now) s =
      Summary.durationIn (Interval.window (cache.log id) horizon stop now) s := by
  intro kept horizon
  have hkept : kept = (cache.log id).drop
      (StatusChange.expired (some span) (cache.log id)) := log_prune _ cache id
  have hne : cache.log id ≠ [] := List.ne_nil_of_mem (List.mem_of_getLast? hnewest)
  have hsplit (now : ℤ) := Interval.resolve_eq_append now (some span) hsorted hne
  have hgone (now : ℤ) : ∀ i ∈ (Interval.ofOrdered now (cache.log id)).take
      (StatusChange.expired (some span) (cache.log id)), i.stop ≤ horizon :=
    fun i hi => Interval.stop_le_of_mem_take_expired hnewest hi
  constructor
  · intro start stop now hstart
    have hclip := Interval.clip_eq_nil_of_stop_lt (b := Interval.knownEnd stop now)
      fun i hi => (hgone (Interval.knownEnd stop now) i hi).trans_lt hstart
    rw [Interval.window, Interval.window, hkept, hsplit, Interval.clip_append, hclip,
      List.nil_append]
  · intro stop now s
    have hzero := Interval.durationIn_clip_of_stop_le (b := Interval.knownEnd stop now)
      (hgone (Interval.knownEnd stop now)) s
    rw [Interval.window, Interval.window, hkept, hsplit, Interval.clip_append,
      Summary.durationIn_append, hzero, zero_add]

/-- A log whose second record lasts for no time, at the horizon of a retention of one second. -/
def tiedAtHorizon : LineCache :=
  let record (micros : ℤ) (status : Status) : StatusChange :=
    { time := (Instant.ofMicros? micros).getD .epoch, lineId := "a", newStatus := status }
  { logs := [("a", [record 0 .on, record 1000000 .off, record 1000000 .error,
      record 2000000 .on])] }

theorem window_prune_tied :
    let log := tiedAtHorizon.log "a"
    let kept := (tiedAtHorizon.prune (some 1000) "a").1.log "a"
    StatusChange.Sorted log ∧ kept.length = 2 ∧
      Interval.window kept 1001 5000 none = Interval.window log 1001 5000 none ∧
      (Interval.window kept 1000 5000 none).length = 2 ∧
      (Interval.window log 1000 5000 none).length = 3 ∧
      Summary.durationIn (Interval.window kept 1000 5000 none) .off =
        Summary.durationIn (Interval.window log 1000 5000 none) .off := by
  intro log kept
  have hsorted : StatusChange.Sorted log := by
    unfold StatusChange.Sorted
    decide +kernel
  have hprune := window_prune tiedAtHorizon "a" 1000 (log.getLast (by decide)) hsorted
    (List.getLast?_eq_some_getLast _)
  have hhorizon : (log.getLast (by decide)).millis - 1000 = 1000 := by decide +kernel
  rw [hhorizon] at hprune
  have hkept : StatusChange.Sorted kept := by
    unfold StatusChange.Sorted
    decide +kernel
  refine ⟨hsorted, by decide +kernel, hprune.1 1001 5000 none (by decide), ?_, ?_,
    hprune.2 5000 none .off⟩
  · rw [Interval.window, Interval.resolve, hkept.sort_eq]
    decide +kernel
  · rw [Interval.window, Interval.resolve, hsorted.sort_eq]
    decide +kernel

end LineCache

end LineWatch
