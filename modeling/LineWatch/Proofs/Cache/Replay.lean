import LineWatch.Proofs.Cache.Ahead

/-!
# Changes that are delivered again

A change that has been delivered once is never applied later on. Either the status of its line
has become newer than the change, or the line shows the change itself, or its key is in the log.
As long as only changes are merged a line shows the newest record of its log, so a change of the
same instant is known by its key. A positive retention cuts off keys of earlier milliseconds only,
and changes of those are stale.
-/

namespace LineWatch

theorem Retention.pos_of_mem_ofDays {days span : Int} (h : span ∈ Retention.ofDays days) :
    0 < span := by
  unfold Retention.ofDays at h
  split_ifs at h with hdays
  · exact absurd h (Option.not_mem_none span)
  · have hspan : days * millisPerDay = span := Option.some.inj h
    rw [← hspan, millisPerDay, millisPerHour]
    omega

namespace LineEntry

variable {id : String} {e : LineEntry} {c d : StatusChange} {retention : Retention}
  {delivered : List StatusChange}

theorem exists_line_of_standing? {held : Standing} (h : e.standing? = some held) :
    ∃ line, e.line? = some line ∧ line.status = held.1 ∧
      line.lastStatusUpdate = some held.2 := by
  obtain ⟨line, hline, hstanding⟩ := Option.bind_eq_some_iff.mp h
  obtain ⟨last, hlast, rfl⟩ := Option.map_eq_some_iff.mp hstanding
  exact ⟨line, hline, rfl, hlast⟩

/-- The line shows the newest record of its log. -/
def Abreast (e : LineEntry) : Prop := e.standing? = e.log.getLast?.map StatusChange.standing

theorem Abreast.ahead (h : e.Abreast) : e.Ahead := by
  intro last hlast
  rw [h]
  exact ⟨last.standing, Option.mem_map_of_mem _ hlast, Instant.le_refl _⟩

theorem Abreast.accept (h : e.Abreast) (hd : e.judge d = .applied) :
    (e.accept retention d).Abreast := by
  rw [Abreast, standing?_accept, h.ahead.getLast?_accept hd, Option.map_some, standing_completed]

/-- Pruning keeps the keys that lie within the retention. -/
theorem mem_keys_prune {key : ChangeKey} (hr : e.Recorded id) (hkey : key ∈ e.keys)
    (hin : ∀ span ∈ retention, ∀ newest ∈ e.log.getLast?, newest.millis - span < key.1) :
    key ∈ (e.prune retention).keys := by
  obtain ⟨c, hc, rfl⟩ := List.mem_map.mp ((hr.mem_keys key).mp hkey)
  rw [hr.prune.mem_keys, prune_log]
  exact List.mem_map_of_mem (StatusChange.mem_drop_expired hc hin)

/-- What has been refused and is not older than an applied change has been refused for its key. -/
theorem Abreast.mem_keys_of_refused (h : e.Abreast) (hr : e.Recorded id)
    (hd : e.judge d = .applied) (hc : e.judge c ≠ .applied) (hle : d.time ≤ c.time) :
    c.key ∈ e.keys := by
  rcases (e.judge_ne_applied_iff c).mp hc with ⟨held, hheld, hwhy⟩ | hseen
  · rw [h] at hheld
    obtain ⟨last, hlast, rfl⟩ := Option.map_eq_some_iff.mp hheld
    have hback : last.time ≤ d.time := h.ahead.le_of_applied hd last hlast
    -- the newest record is of the instant of both changes, and so it is the refused one itself
    rcases hwhy with ⟨hstatus, hnew⟩ | hold
    · have htime : last.time = c.time := Instant.le_antisymm (Instant.le_trans hback hle) hnew
      have hkey : last.key = c.key := by
        rw [StatusChange.key, StatusChange.key, StatusChange.millis, StatusChange.millis, htime]
        exact congrArg _ hstatus
      rw [hr.mem_keys, ← hkey]
      exact List.mem_map_of_mem (List.mem_of_getLast? hlast)
    · exact absurd (Instant.le_trans hback hle) (Instant.not_le.mpr hold)
  · exact List.contains_iff_mem.mp hseen

theorem Abreast.refused_accept (h : e.Abreast) (hr : e.Recorded id)
    (hpos : ∀ span ∈ retention, 0 < span) (hid : d.lineId = id) (hd : e.judge d = .applied)
    (hc : e.judge c ≠ .applied) : (e.accept retention d).judge c ≠ .applied := by
  rw [judge_ne_applied_iff, standing?_accept]
  by_cases hold : c.time < d.time
  · exact .inl ⟨d.standing, rfl, .inr hold⟩
  · right
    have hle : d.time ≤ c.time := Instant.not_lt.mp hold
    have hkey := h.mem_keys_of_refused hr hd hc hle
    apply List.contains_iff_mem.mpr
    apply mem_keys_prune (hr.appendCompleted hid hd)
    · rw [mem_keys_append]
      exact .inl hkey
    · intro span hspan newest hnewest
      have hlast : newest.millis = d.millis := by
        rw [log_append, StatusChange.getLast?_insert] at hnewest
        · rw [← Option.some.inj hnewest, StatusChange.millis, completed_time, StatusChange.millis]
        · rw [completed_time]
          exact h.ahead.le_of_applied hd
      have hmillis : d.millis ≤ c.millis := Instant.millis_le_millis hle
      have := hpos span hspan
      change newest.millis - span < c.millis
      omega

/-- A line that has been offered these changes and takes none of them again. -/
structure Remembers (delivered : List StatusChange) (e : LineEntry) : Prop where
  abreast : e.Abreast
  refused : ∀ c ∈ delivered, e.judge c ≠ .applied

theorem remembers_empty : Remembers [] {} where
  abreast := rfl
  refused := by simp

theorem refused_of_standing? (h : e.standing? = some c.standing) : e.judge c ≠ .applied :=
  (e.judge_ne_applied_iff c).mpr (.inl ⟨c.standing, h, .inl ⟨rfl, Instant.le_refl _⟩⟩)

theorem Remembers.applyChange (h : e.Remembers delivered) (hr : e.Recorded id)
    (hpos : ∀ span ∈ retention, 0 < span) (hid : d.lineId = id) :
    (e.applyChange retention d).Remembers (delivered ++ [d]) := by
  unfold LineEntry.applyChange
  split_ifs with hd
  · refine ⟨h.abreast.accept hd, fun c hc => ?_⟩
    rcases List.mem_append.mp hc with hc | hc
    · exact h.abreast.refused_accept hr hpos hid hd (h.refused c hc)
    · rw [List.mem_singleton.mp hc]
      exact refused_of_standing? (standing?_accept retention e d)
  · refine ⟨h.abreast, fun c hc => ?_⟩
    rcases List.mem_append.mp hc with hc | hc
    · exact h.refused c hc
    · rw [List.mem_singleton.mp hc]
      exact hd

end LineEntry

namespace LineCache

variable {retention : Retention} {cache : LineCache} {delivered : List StatusChange}

/-- Merges changes one after the other; the verdicts tell what becomes of each. -/
def deliver (retention : Retention) (cache : LineCache) :
    List StatusChange → LineCache × List Verdict
  | [] => (cache, [])
  | c :: rest =>
    let merged := cache.applyChange retention c
    let later := deliver retention merged.cache rest
    (later.1, merged.value :: later.2)

theorem value_applyChange (retention : Retention) (cache : LineCache) (c : StatusChange) :
    (cache.applyChange retention c).value = cache.judge c := by
  cases hj : cache.judge c <;> simp only [applyChange, hj]

theorem cache_applyChange_of_refused {c : StatusChange} (h : cache.judge c ≠ .applied) :
    (cache.applyChange retention c).cache = cache := by
  unfold applyChange
  split
  · next hj => exact absurd hj h
  · rfl

theorem deliver_of_refused {cs : List StatusChange} (h : ∀ c ∈ cs, cache.judge c ≠ .applied) :
    cache.deliver retention cs = (cache, cs.map cache.judge) := by
  induction cs with
  | nil => rfl
  | cons c rest ih =>
    rw [deliver, value_applyChange, cache_applyChange_of_refused (h c List.mem_cons_self),
      ih fun d hd => h d (List.mem_cons_of_mem c hd)]
    rfl

/-- A cache whose lines remember the changes that have been delivered to them. -/
structure Remembers (retention : Retention) (delivered : List StatusChange)
    (cache : LineCache) : Prop where
  coherent : cache.Coherent retention
  entry : ∀ id, (cache.entry id).Remembers (delivered.filter (·.lineId = id))

theorem remembers_empty (retention : Retention) : Remembers retention [] empty where
  coherent := coherent_empty retention
  entry _ := LineEntry.remembers_empty

theorem Remembers.refused {c : StatusChange} (h : cache.Remembers retention delivered)
    (hc : c ∈ delivered) : cache.judge c ≠ .applied :=
  (h.entry c.lineId).refused c (List.mem_filter.mpr ⟨hc, by simp⟩)

theorem Remembers.applyChange (h : cache.Remembers retention delivered)
    (hpos : ∀ span ∈ retention, 0 < span) (d : StatusChange) :
    (cache.applyChange retention d).cache.Remembers retention (delivered ++ [d]) := by
  refine ⟨h.coherent.update (.change d), fun id => ?_⟩
  rw [entry_applyChange, List.filter_append]
  split_ifs with hid
  · have hone : [d].filter (·.lineId = id) = [d] := by simp [hid]
    rw [hone]
    exact (h.entry id).applyChange (h.coherent.entry id).toRecorded hpos hid.symm
  · have hnone : [d].filter (·.lineId = id) = [] := by simp [Ne.symm hid]
    rw [hnone, List.append_nil]
    exact h.entry id

theorem Remembers.deliver (h : cache.Remembers retention delivered)
    (hpos : ∀ span ∈ retention, 0 < span) (cs : List StatusChange) :
    (cache.deliver retention cs).1.Remembers retention (delivered ++ cs) := by
  induction cs generalizing cache delivered with
  | nil =>
    rw [List.append_nil]
    exact h
  | cons c rest ih =>
    have hrest := ih (h.applyChange hpos c)
    rwa [List.append_assoc] at hrest

/-- Whatever changes have been delivered, to deliver any of them again, in any order and however
often, applies none of them and leaves the cache as it is. -/
theorem replay_changes_nothing (days : Int) (delivered replayed : List StatusChange)
    (h : ∀ c ∈ replayed, c ∈ delivered) :
    let cache := (empty.deliver (Retention.ofDays days) delivered).1
    let again := cache.deliver (Retention.ofDays days) replayed
    again.1 = cache ∧ again.2.length = replayed.length ∧
      ∀ verdict ∈ again.2, verdict ≠ .applied := by
  intro cache again
  have hremembers : cache.Remembers (Retention.ofDays days) delivered :=
    (remembers_empty _).deliver (fun _ => Retention.pos_of_mem_ofDays) delivered
  have hrefused : ∀ c ∈ replayed, cache.judge c ≠ .applied :=
    fun c hc => hremembers.refused (h c hc)
  have hagain : again = (cache, replayed.map cache.judge) := deliver_of_refused hrefused
  rw [hagain]
  refine ⟨rfl, List.length_map _, fun verdict hv => ?_⟩
  obtain ⟨c, hc, rfl⟩ := List.mem_map.mp hv
  exact hrefused c hc

/-- Two changes of one instant, a third one of their millisecond that is known already, and one
two days later, which makes the first one expire. -/
def twoDays : List StatusChange :=
  let change (micros : Int) (status : Status) : StatusChange :=
    { time := (Instant.ofMicros? micros).getD .epoch, lineId := "a", newStatus := status }
  [change 0 .on, change 0 .off, change 200 .on, change 172800000000 .error]

theorem replay_after_expiry :
    let first := empty.deliver (Retention.ofDays 1) twoDays
    let again := first.1.deliver (Retention.ofDays 1) (twoDays.reverse ++ twoDays)
    first.2 = [.applied, .applied, .known, .applied] ∧
      (first.1.log "a").length = 2 ∧
      again.1 = first.1 ∧ again.2.length = 8 ∧ ∀ verdict ∈ again.2, verdict ≠ .applied := by
  intro first again
  have hreplay := replay_changes_nothing 1 twoDays (twoDays.reverse ++ twoDays) (by simp)
  exact ⟨by decide +kernel, by decide +kernel, hreplay⟩

end LineCache

end LineWatch
