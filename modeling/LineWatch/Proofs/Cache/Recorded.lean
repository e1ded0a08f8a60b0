import LineWatch.Proofs.Cache.Entry
import LineWatch.Proofs.Cache.LogOrder

/-!
# Logs and the keys of their records

A recorded entry has a log and keys together or neither. The log is not empty, holds records of
its own line in the order of time, no two of them with one key, and the keys are those of its
records. Appending a record that is not in the log yet, pruning and following keep this, and so
do all merges into an entry.
-/

namespace LineWatch

namespace LineEntry

variable {id : String} {e : LineEntry} {change : StatusChange} {retention : Retention}

structure Recorded (id : String) (e : LineEntry) : Prop where
  logged : e.log?.isSome = e.keys?.isSome
  ne_nil : e.log? ≠ some []
  own : ∀ c ∈ e.log, c.lineId = id
  sorted : StatusChange.Sorted e.log
  nodup : (e.log.map StatusChange.key).Nodup
  mem_keys : ∀ key, key ∈ e.keys ↔ key ∈ e.log.map StatusChange.key

theorem recorded_empty (id : String) : Recorded id {} where
  logged := rfl
  ne_nil := by simp
  own := by simp [log]
  sorted := List.Pairwise.nil
  nodup := List.nodup_nil
  mem_keys := by simp [log, keys]

/-- The snapshot of a line has no part in this. -/
theorem Recorded.withLine (h : e.Recorded id) (line? : Option ProductionLine) :
    Recorded id { e with line? := line? } :=
  ⟨h.logged, h.ne_nil, h.own, h.sorted, h.nodup, h.mem_keys⟩

theorem log_ne_nil_iff (h : e.Recorded id) : e.log ≠ [] ↔ e.log?.isSome := by
  have hne := h.ne_nil
  cases hl : e.log? with
  | none => simp [log, hl]
  | some records =>
    rw [hl] at hne
    simpa [log, hl] using hne

theorem hasSeen_iff (h : e.Recorded id) :
    e.hasSeen change = true ↔ change.key ∈ e.log.map StatusChange.key := by
  rw [← h.mem_keys, hasSeen, List.contains_iff_mem]

@[simp] theorem log_append (e : LineEntry) (change : StatusChange) :
    (e.append change).log = StatusChange.insert e.log change := rfl

theorem mem_keys_append (e : LineEntry) (change : StatusChange) (key : ChangeKey) :
    key ∈ (e.append change).keys ↔ key ∈ e.keys ∨ key = change.key := by
  change key ∈ (if e.keys.contains change.key then e.keys else e.keys ++ [change.key]) ↔ _
  split_ifs with h
  · rw [List.contains_iff_mem] at h
    exact ⟨.inl, fun hk => hk.elim id fun he => he ▸ h⟩
  · simp

theorem Recorded.append (h : e.Recorded id) (hid : change.lineId = id)
    (hnew : e.hasSeen change = false) : (e.append change).Recorded id where
  logged := rfl
  ne_nil := fun hl => StatusChange.insert_ne_nil e.log change (Option.some.inj hl)
  own := by
    intro c hc
    rcases StatusChange.mem_insert.mp hc with hc | rfl
    · exact h.own c hc
    · exact hid
  sorted := StatusChange.sorted_insert h.sorted
  nodup := by
    have hp := (StatusChange.insert_perm e.log change).map StatusChange.key
    rw [log_append, hp.nodup_iff, List.map_append, List.map_singleton, List.nodup_append]
    refine ⟨h.nodup, List.nodup_singleton _, fun a ha b hb hab => ?_⟩
    rw [List.mem_singleton.mp hb] at hab
    rw [hab, ← hasSeen_iff h, hnew] at ha
    exact Bool.noConfusion ha
  mem_keys := by
    intro key
    rw [mem_keys_append, h.mem_keys, log_append,
      ((StatusChange.insert_perm e.log change).map StatusChange.key).mem_iff]
    simp

theorem prune_log (retention : Retention) (e : LineEntry) :
    (e.prune retention).log = e.log.drop (StatusChange.expired retention e.log) := by
  by_cases hc : StatusChange.expired retention e.log = 0
  · simp [prune, hc]
  · simp only [prune, hc, if_false]
    rfl

@[simp] theorem prune_line? (retention : Retention) (e : LineEntry) :
    (e.prune retention).line? = e.line? := by
  unfold prune
  dsimp only
  split_ifs <;> rfl

/-- Cutting off the records of some keys cuts off these keys, since no key comes twice. -/
theorem mem_drop_keys {log : List StatusChange} (h : (log.map StatusChange.key).Nodup) (n : Nat)
    (key : ChangeKey) :
    key ∈ (log.drop n).map StatusChange.key ↔
      key ∈ log.map StatusChange.key ∧ key ∉ (log.take n).map StatusChange.key := by
  have hsplit : log.map StatusChange.key =
      (log.take n).map StatusChange.key ++ (log.drop n).map StatusChange.key := by
    rw [← List.map_append, List.take_append_drop]
  rw [hsplit] at h ⊢
  have hdisj := (List.nodup_append.mp h).2.2
  rw [List.mem_append]
  constructor
  · intro hk
    exact ⟨.inr hk, fun ht => hdisj key ht key hk rfl⟩
  · rintro ⟨ht | hk, hn⟩
    · exact absurd ht hn
    · exact hk

theorem Recorded.prune (h : e.Recorded id) : (e.prune retention).Recorded id := by
  by_cases hc : StatusChange.expired retention e.log = 0
  · have he : e.prune retention = e := by simp [LineEntry.prune, hc]
    rw [he]
    exact h
  have hne : e.log ≠ [] := by
    intro hl
    rw [hl, StatusChange.expired_nil] at hc
    exact hc rfl
  have hlog := prune_log retention e
  have hdrop := List.drop_sublist (StatusChange.expired retention e.log) e.log
  refine ⟨?_, ?_, ?_, ?_, ?_, ?_⟩
  · simp [LineEntry.prune, hc]
  · have hlt := @StatusChange.expired_lt_length _ retention hne
    simp only [LineEntry.prune, hc, if_false, ne_eq, Option.some.injEq, List.drop_eq_nil_iff]
    omega
  · intro c hm
    rw [hlog] at hm
    exact h.own c (hdrop.subset hm)
  · rw [hlog]
    exact h.sorted.sublist hdrop
  · rw [hlog]
    exact h.nodup.sublist (hdrop.map _)
  · intro key
    rw [hlog, mem_drop_keys h.nodup, ← h.mem_keys]
    simp only [LineEntry.prune, hc, if_false, keys, Option.getD_some, List.mem_filter,
      Bool.not_eq_true', ← Bool.not_eq_true, List.contains_iff_mem]

theorem Recorded.follow (h : e.Recorded id) (change : StatusChange) :
    (e.follow change).Recorded id := h.withLine _

theorem Recorded.appendCompleted (h : e.Recorded id) (hid : change.lineId = id)
    (hj : e.judge change = .applied) :
    ((e.follow (e.completed change)).append (e.completed change)).Recorded id := by
  refine (h.follow _).append (by rw [completed_lineId, hid]) ?_
  rw [← ((e.judge_applied_iff change).mp hj).2, hasSeen, hasSeen, completed_key]
  rfl

theorem Recorded.addRecord (h : e.Recorded id) (change : StatusChange) :
    (LineEntry.addRecord id e change).Recorded id := by
  unfold LineEntry.addRecord
  split_ifs with hs
  · exact h
  · rw [not_or, not_ne_iff, Bool.not_eq_true] at hs
    exact h.append hs.1 hs.2

theorem Recorded.addRecords (h : e.Recorded id) (changes : List StatusChange) :
    (e.addRecords id changes).Recorded id := by
  unfold LineEntry.addRecords
  induction changes generalizing e with
  | nil => exact h
  | cons change rest ih => exact ih (h.addRecord change)

theorem mem_keys_addRecord (id : String) (e : LineEntry) (change : StatusChange)
    (key : ChangeKey) :
    key ∈ (LineEntry.addRecord id e change).keys ↔
      key ∈ e.keys ∨ change.lineId = id ∧ change.key = key := by
  unfold LineEntry.addRecord
  split_ifs with hs
  · refine ⟨.inl, fun hk => hk.elim (fun h => h) ?_⟩
    rintro ⟨hid, rfl⟩
    exact List.contains_iff_mem.mp (hs.resolve_left (not_not.mpr hid))
  · rw [not_or, not_ne_iff] at hs
    rw [mem_keys_append, and_iff_right hs.1, eq_comm]

/-- After a history the keys of all its records of the line are there, and no others are new. -/
theorem mem_keys_addRecords (id : String) (e : LineEntry) (changes : List StatusChange)
    (key : ChangeKey) :
    key ∈ (e.addRecords id changes).keys ↔
      key ∈ e.keys ∨ ∃ c ∈ changes, c.lineId = id ∧ c.key = key := by
  unfold LineEntry.addRecords
  induction changes generalizing e with
  | nil => simp
  | cons change rest ih =>
    rw [List.foldl_cons, ih, mem_keys_addRecord, or_assoc]
    simp

theorem mem_log_addRecords {c : StatusChange} {changes : List StatusChange}
    (h : c ∈ (e.addRecords id changes).log) : c ∈ e.log ∨ c ∈ changes ∧ c.lineId = id := by
  unfold LineEntry.addRecords at h
  induction changes generalizing e with
  | nil => exact .inl h
  | cons change rest ih =>
    rcases ih h with hc | ⟨hc, hid⟩
    · unfold LineEntry.addRecord at hc
      split_ifs at hc with hs
      · exact .inl hc
      · rw [not_or, not_ne_iff] at hs
        rcases StatusChange.mem_insert.mp hc with hc | rfl
        · exact .inl hc
        · exact .inr ⟨List.mem_cons_self, hs.1⟩
    · exact .inr ⟨List.mem_cons_of_mem _ hc, hid⟩

/-- Following the log moves the snapshot of the line and nothing else. -/
theorem followLog_eq (e : LineEntry) : ∃ line?, e.followLog = { e with line? := line? } := by
  unfold followLog
  split
  · exact ⟨e.line?, rfl⟩
  · split
    · split_ifs
      · exact ⟨_, rfl⟩
      · exact ⟨e.line?, rfl⟩
    · exact ⟨_, rfl⟩

@[simp] theorem followLog_log? (e : LineEntry) : e.followLog.log? = e.log? := by
  obtain ⟨line?, he⟩ := e.followLog_eq
  rw [he]

@[simp] theorem followLog_log (e : LineEntry) : e.followLog.log = e.log := by
  rw [log, followLog_log?, log]

theorem Recorded.followLog (h : e.Recorded id) : e.followLog.Recorded id := by
  obtain ⟨line?, he⟩ := e.followLog_eq
  rw [he]
  exact h.withLine line?

theorem Recorded.seedHistory (h : e.Recorded id) (changes : List StatusChange) :
    (e.seedHistory retention id changes).Recorded id :=
  (h.addRecords _).prune.followLog

end LineEntry

namespace LineCache

theorem entry_seedHistory (retention : Retention) (cache : LineCache) (target : String)
    (changes : List StatusChange) (h : (cache.entry target).Recorded target) (id : String) :
    (cache.seedHistory retention target changes).cache.entry id =
      if id = target then (cache.entry id).seedHistory retention id changes
      else cache.entry id := by
  let filled := (cache.addRecords target (StatusChange.sort changes)).1
  have hfilled : ∀ id, (filled.prune retention target).1.entry id = if id = target then
      ((cache.entry id).addRecords id (StatusChange.sort changes)).prune retention
      else cache.entry id := by
    intro id
    rw [entry_prune, entry_addRecords]
    split_ifs <;> rfl
  have hown : ∀ c ∈ (filled.prune retention target).1.log target, c.lineId = target := by
    have hr : (((cache.entry target).addRecords target (StatusChange.sort changes)).prune
        retention).Recorded target := (h.addRecords _).prune
    rw [← entry_log, hfilled, if_pos rfl]
    exact hr.own
  change ((filled.prune retention target).1.followLog target).entry id = _
  rw [entry_followLog _ _ hown, hfilled]
  split_ifs <;> rfl

end LineCache

end LineWatch
