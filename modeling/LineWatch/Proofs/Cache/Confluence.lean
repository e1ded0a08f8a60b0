import LineWatch.Proofs.Cache.Ahead
import LineWatch.Proofs.Cache.Arrival
import LineWatch.Proofs.Cache.Filled
import LineWatch.Proofs.Cache.Replay

/-!
# Histories in either order

Where no two different records are of one millisecond, a log is the set of its records, and a record
survives pruning unless a later one lies before the horizon of some record. This does not depend on
what has been pruned before: whatever an earlier pruning cut off is older than a record it left, and
that record is before the later horizon as well. So two histories, merged one after the other, leave
the log that they leave when merged at once, and the line follows the same newest record.
-/

namespace LineWatch

namespace StatusChange

variable {log kept records more : List StatusChange} {c : StatusChange} {retention : Retention}

/-- No two different records are of one millisecond. -/
def Untied (records : List StatusChange) : Prop :=
  ∀ c ∈ records, ∀ d ∈ records, c.millis = d.millis → c = d

theorem Untied.mono (h : Untied records) (hsub : log ⊆ records) : Untied log :=
  fun c hc d hd => h c (hsub hc) d (hsub hd)

theorem untied_of_nodup_millis (h : (records.map millis).Nodup) : Untied records :=
  fun _ hc _ hd => List.inj_on_of_nodup_map h hc hd

/-- No record later than this one lies before the horizon of another. -/
def Survives (retention : Retention) (records : List StatusChange) (c : StatusChange) : Prop :=
  c ∈ records ∧ ∀ span ∈ retention, ∀ d ∈ records, ∀ newer ∈ records,
    d.millis ≤ newer.millis - span → d.millis ≤ c.millis

theorem survives_congr (h : ∀ c, c ∈ log ↔ c ∈ records) :
    Survives retention log c ↔ Survives retention records c := by
  simp only [Survives, h]

theorem exists_latest (h : records ≠ []) :
    ∃ latest ∈ records, ∀ c ∈ records, c.millis ≤ latest.millis := by
  have hne : sort records ≠ [] := fun hnil => h (hnil ▸ sort_perm records).nil_eq.symm
  obtain ⟨latest, hlatest⟩ := Option.isSome_iff_exists.mp (List.getLast?_isSome.mpr hne)
  exact ⟨latest, mem_sort.mp (List.mem_of_getLast? hlatest), fun c hc =>
    (sorted_sort records).le_newest hlatest (mem_sort.mpr hc)⟩

theorem Sorted.mem_drop_expired_iff (h : Sorted log) (huntied : Untied log) :
    c ∈ log.drop (expired retention log) ↔ Survives retention log c := by
  cases retention with
  | none => simp [Survives, expired]
  | some span =>
    rcases List.eq_nil_or_concat log with rfl | ⟨front, newest, hlog⟩
    · simp [Survives]
    have hnewest : newest ∈ log.getLast? := by rw [hlog]; simp
    have hin : newest ∈ log := List.mem_of_getLast? hnewest
    have hbefore : Sorted (log.filter (·.millis ≤ newest.millis - span)) := h.filter _
    rw [h.drop_expired hnewest, h.inForce?_eq_getLast?, List.mem_append, Option.mem_toList,
      List.mem_filter, decide_eq_true_eq]
    constructor
    · rintro (hc | ⟨hc, hafter⟩)
      · refine ⟨List.mem_of_mem_filter (List.mem_of_getLast? hc), ?_⟩
        rintro _ ⟨⟩ d hd newer hnewer hle
        have hback := h.le_newest hnewest hnewer
        refine hbefore.le_newest hc (List.mem_filter.mpr ⟨hd, ?_⟩)
        rw [decide_eq_true_eq]
        omega
      · refine ⟨hc, ?_⟩
        rintro _ ⟨⟩ d hd newer hnewer hle
        have hback := h.le_newest hnewest hnewer
        omega
    · rintro ⟨hc, hsurvives⟩
      by_cases hafter : newest.millis - span < c.millis
      · exact .inr ⟨hc, hafter⟩
      · left
        have hmem : c ∈ log.filter (·.millis ≤ newest.millis - span) :=
          List.mem_filter.mpr ⟨hc, by simpa using hafter⟩
        obtain ⟨base, hbase⟩ := Option.isSome_iff_exists.mp
          (List.getLast?_isSome.mpr (List.ne_nil_of_mem hmem))
        obtain ⟨hbaseIn, hbaseLe⟩ := List.mem_filter.mp (List.mem_of_getLast? hbase)
        have hle : base.millis ≤ c.millis :=
          hsurvives span rfl base hbaseIn newest hin (of_decide_eq_true hbaseLe)
        have hge : c.millis ≤ base.millis := hbefore.le_newest hbase hmem
        rw [huntied c hc base hbaseIn (le_antisymm hge hle)]
        exact hbase

/-- The latest record survives, so no horizon is lost with the record it is that of. -/
theorem exists_survivor_of_mem (retention : Retention) (hc : c ∈ records) :
    ∃ latest, Survives retention records latest ∧ c.millis ≤ latest.millis := by
  obtain ⟨latest, hin, hall⟩ := exists_latest (List.ne_nil_of_mem hc)
  exact ⟨latest, ⟨hin, fun _ _ d hd _ _ _ => hall d hd⟩, hall c hc⟩

/-- What is cut off is older than a survivor that lies before the horizon of another. -/
theorem exists_survivors_of_cut (hc : c ∈ records) (hcut : ¬Survives retention records c) :
    ∃ span ∈ retention, ∃ base latest, Survives retention records base ∧
      Survives retention records latest ∧ c.millis < base.millis ∧
      base.millis ≤ latest.millis - span := by
  simp only [Survives, hc, true_and, not_forall, not_le] at hcut
  obtain ⟨span, hspan, d, hd, newer, hnewer, hle, hlater⟩ := hcut
  -- the base is the latest of the records that lie before the horizon of some record
  let before := records.filter fun d => ∃ newer ∈ records, d.millis ≤ newer.millis - span
  have hmem : ∀ d, d ∈ before ↔
      d ∈ records ∧ ∃ newer ∈ records, d.millis ≤ newer.millis - span := by
    simp [before, List.mem_filter]
  have hin : d ∈ before := (hmem d).mpr ⟨hd, newer, hnewer, hle⟩
  obtain ⟨base, hbase, hall⟩ := exists_latest (List.ne_nil_of_mem hin)
  obtain ⟨hbaseIn, reach, hreach, hbefore⟩ := (hmem base).mp hbase
  obtain ⟨latest, hlatest, hback⟩ := exists_survivor_of_mem retention hreach
  refine ⟨span, hspan, base, latest, ⟨hbaseIn, ?_⟩, hlatest, ?_, ?_⟩
  · intro span' hspan' x hx y hy hxy
    obtain rfl : span' = span := Option.mem_unique hspan' hspan
    exact hall x ((hmem x).mpr ⟨hx, y, hy, hxy⟩)
  · exact hlater.trans_le (hall d hin)
  · omega

section

variable (hkept : ∀ c, c ∈ kept ↔ Survives retention records c)

include hkept

/-- Pruning leaves a record at least as late as any that was there. -/
theorem exists_later_of_mem_append (hc : c ∈ records ++ more) :
    ∃ latest ∈ kept ++ more, c.millis ≤ latest.millis := by
  rcases List.mem_append.mp hc with hc | hc
  · obtain ⟨latest, hlatest, hback⟩ := exists_survivor_of_mem retention hc
    exact ⟨latest, List.mem_append_left _ ((hkept latest).mpr hlatest), hback⟩
  · exact ⟨c, List.mem_append_right _ hc, le_rfl⟩

/-- What survives one pruning and then another, with more records, survives if all are pruned at
once. -/
theorem survives_append_iff :
    Survives retention (kept ++ more) c ↔ Survives retention (records ++ more) c := by
  have hsub : kept ++ more ⊆ records ++ more := by
    refine List.append_subset.mpr ⟨fun c hc => ?_, List.subset_append_right _ _⟩
    exact List.mem_append_left _ ((hkept c).mp hc).1
  have hkeep : ∀ d, Survives retention records d → d ∈ kept ++ more :=
    fun d hd => List.mem_append_left _ ((hkept d).mpr hd)
  constructor
  · rintro ⟨hc, hsurvives⟩
    refine ⟨hsub hc, fun span hspan d hd newer hnewer hle => ?_⟩
    by_cases hin : d ∈ kept ++ more
    · obtain ⟨latest, hlatest, hback⟩ := exists_later_of_mem_append hkept hnewer
      exact hsurvives span hspan d hin latest hlatest (by omega)
    · -- the record was cut off, and a survivor later than it lies before a horizon as well
      have hrecord : d ∈ records := (List.mem_append.mp hd).resolve_right fun hmore =>
        hin (List.mem_append_right _ hmore)
      obtain ⟨span', hspan', base, latest, hbase, hlatest, hlater, hbefore⟩ :=
        exists_survivors_of_cut hrecord fun hd => hin (hkeep d hd)
      have := hsurvives span' hspan' base (hkeep base hbase) latest (hkeep latest hlatest) hbefore
      omega
  · rintro ⟨hc, hsurvives⟩
    refine ⟨?_, fun span hspan d hd newer hnewer =>
      hsurvives span hspan d (hsub hd) newer (hsub hnewer)⟩
    rcases List.mem_append.mp hc with hc | hc
    · refine hkeep c ⟨hc, fun span hspan d hd newer hnewer => ?_⟩
      exact hsurvives span hspan d (List.mem_append_left _ hd) newer (List.mem_append_left _ hnewer)
    · exact List.mem_append_right _ hc

end

/-- Sorted logs without ties are the same if they hold the same records. -/
theorem Sorted.eq_of_mem_iff {log' : List StatusChange} (h : Sorted log) (h' : Sorted log')
    (hnodup : log.Nodup) (hnodup' : log'.Nodup) (huntied : Untied log)
    (hmem : ∀ c, c ∈ log' ↔ c ∈ log) : log' = log := by
  have hperm : log'.Perm log := (List.perm_ext_iff_of_nodup hnodup' hnodup).mpr hmem
  refine hperm.eq_of_pairwise (fun c d hc hd hcd hdc => ?_) h' h
  exact huntied c ((hmem c).mp hc) d hd (le_antisymm hcd hdc)

end StatusChange

/-- A later standing wins over the one before it, whatever came before both. -/
theorem laterStanding?_trans {older newer : Standing} (h : older = newer ∨ older.2 < newer.2)
    (held? : Option Standing) :
    laterStanding? (some newer) (laterStanding? (some older) held?) =
      laterStanding? (some newer) held? := by
  cases held? with
  | none =>
    rw [laterStanding?_none_right, laterStanding?_none_right, laterStanding?_some]
    rcases h with rfl | hlt
    · split_ifs <;> rfl
    · exact if_pos hlt
  | some held =>
    rw [laterStanding?_some older held]
    split_ifs with hheld
    · rcases h with rfl | hlt
      · simp only [laterStanding?_some, hheld, if_true]
        split_ifs <;> rfl
      · have hbelow : held.2 < newer.2 := Int.lt_trans hheld hlt
        rw [laterStanding?_some, laterStanding?_some, if_pos hlt, if_pos hbelow]
    · rfl

namespace LineEntry

variable {id : String} {e : LineEntry} {c : StatusChange} {one other changes : List StatusChange}
  {retention : Retention}

/-- The records of the line that are known after a history, if nothing is pruned. -/
def pool (id : String) (e : LineEntry) (changes : List StatusChange) : List StatusChange :=
  e.log ++ changes.filter (·.lineId = id)

theorem mem_pool_iff : c ∈ e.pool id changes ↔ c ∈ e.log ∨ c ∈ changes ∧ c.lineId = id := by
  simp [pool]

theorem pool_append (id : String) (e : LineEntry) (one other : List StatusChange) :
    e.pool id (one ++ other) = e.pool id one ++ other.filter (·.lineId = id) := by
  rw [pool, List.filter_append, ← List.append_assoc, pool]

theorem mem_pool_append_comm (one other : List StatusChange) :
    c ∈ e.pool id (other ++ one) ↔ c ∈ e.pool id (one ++ other) := by
  rw [mem_pool_iff, mem_pool_iff, List.mem_append, List.mem_append, or_comm (a := c ∈ other)]

theorem mem_log_addRecords_iff (h : e.Recorded id)
    (huntied : StatusChange.Untied (e.pool id changes)) :
    c ∈ (e.addRecords id (StatusChange.sort changes)).log ↔ c ∈ e.pool id changes := by
  have hmissing : ∀ d, d ∈ e.missing id (StatusChange.sort changes) → d ∈ e.pool id changes := by
    intro d hd
    obtain ⟨hin, hid, -⟩ := mem_missing hd
    exact mem_pool_iff.mpr (.inr ⟨StatusChange.mem_sort.mp hin, hid⟩)
  rw [log_addRecords h, StatusChange.mem_sort, List.mem_append]
  constructor
  · rintro (hc | hc)
    · exact mem_pool_iff.mpr (.inl hc)
    · exact hmissing c hc
  · intro hc
    rcases mem_pool_iff.mp hc with hin | ⟨hin, hid⟩
    · exact .inl hin
    cases hseen : e.hasSeen c with
    | true =>
      left
      obtain ⟨d, hd, hkey⟩ := List.mem_map.mp ((hasSeen_iff h).mp hseen)
      rw [huntied c hc d (mem_pool_iff.mpr (.inl hd)) (Prod.ext_iff.mp hkey).1.symm]
      exact hd
    | false =>
      right
      obtain ⟨d, hd, hkey⟩ := exists_missing (StatusChange.mem_sort.mpr hin) hid hseen
      rw [huntied c hc d (hmissing d hd) (Prod.ext_iff.mp hkey).1.symm]
      exact hd

theorem mem_log_seedHistory_iff (h : e.Recorded id)
    (huntied : StatusChange.Untied (e.pool id changes)) :
    c ∈ (e.seedHistory retention id changes).log ↔
      StatusChange.Survives retention (e.pool id changes) c := by
  have hmem := fun c => mem_log_addRecords_iff (c := c) h huntied
  have hfilled : StatusChange.Untied (e.addRecords id (StatusChange.sort changes)).log :=
    huntied.mono fun c => (hmem c).mp
  rw [seedHistory, followLog_log, prune_log, (h.addRecords _).sorted.mem_drop_expired_iff hfilled,
    StatusChange.survives_congr hmem]

section

variable (h : e.Recorded id) (huntied : StatusChange.Untied (e.pool id (one ++ other)))

include h huntied

theorem mem_log_seedHistory_iff_of_append : c ∈ (e.seedHistory retention id one).log ↔
    StatusChange.Survives retention (e.pool id one) c := by
  rw [pool_append] at huntied
  exact mem_log_seedHistory_iff h (huntied.mono (List.subset_append_left _ _))

theorem untied_pool_seedHistory :
    StatusChange.Untied ((e.seedHistory retention id one).pool id other) := by
  refine huntied.mono ?_
  rw [pool_append]
  refine List.append_subset.mpr ⟨fun c hc => ?_, List.subset_append_right _ _⟩
  exact List.mem_append_left _ ((mem_log_seedHistory_iff_of_append h huntied).mp hc).1

/-- Two histories leave the log that they leave when merged at once. -/
theorem mem_log_seedHistory_seedHistory_iff :
    c ∈ ((e.seedHistory retention id one).seedHistory retention id other).log ↔
      StatusChange.Survives retention (e.pool id (one ++ other)) c := by
  rw [mem_log_seedHistory_iff (h.seedHistory one) (untied_pool_seedHistory h huntied), pool,
    pool_append]
  exact StatusChange.survives_append_iff fun c => mem_log_seedHistory_iff_of_append h huntied

end

/-- The newest record stays the newest one, or makes way for a later one. -/
theorem getLast?_seedHistory_cases (h : e.Recorded id) {older newer : StatusChange}
    (huntied : StatusChange.Untied (e.pool id changes)) (hold : older ∈ e.log.getLast?)
    (hnew : newer ∈ (e.seedHistory retention id changes).log.getLast?) :
    older = newer ∨ older.time < newer.time := by
  rw [getLast?_seedHistory] at hnew
  have holder : older ∈ e.pool id changes := mem_pool_iff.mpr (.inl (List.mem_of_getLast? hold))
  have hnewer : newer ∈ e.pool id changes :=
    (mem_log_addRecords_iff h huntied).mp (List.mem_of_getLast? hnew)
  have hle : older.millis ≤ newer.millis := (h.addRecords _).sorted.le_newest hnew
    ((mem_log_addRecords_iff h huntied).mpr holder)
  by_cases hback : newer.time ≤ older.time
  · left
    exact huntied older holder newer hnewer (le_antisymm hle (Instant.millis_le_millis hback))
  · exact .inr (Instant.not_le.mp hback)

theorem log_seedHistory_ne_nil (retention : Retention) (h : e.Recorded id) (hne : e.log ≠ [])
    (changes : List StatusChange) : (e.seedHistory retention id changes).log ≠ [] := by
  rw [seedHistory, followLog_log, prune_log_ne_nil_iff]
  exact (log_addRecords_ne_nil_iff h).mpr (.inl hne)

theorem standing?_seedHistory_seedHistory (retention : Retention) (h : e.Recorded id)
    (huntied : StatusChange.Untied (e.pool id (one ++ other))) :
    ((e.seedHistory retention id one).seedHistory retention id other).standing? =
      laterStanding? (((e.seedHistory retention id one).seedHistory retention id
        other).log.getLast?.map StatusChange.standing) e.standing? := by
  have hone : (e.seedHistory retention id one).Recorded id := h.seedHistory one
  rw [standing?_seedHistory, standing?_seedHistory retention id e]
  cases hold : (e.seedHistory retention id one).log.getLast? with
  | none => rfl
  | some older =>
    have hne := log_seedHistory_ne_nil retention hone
      (List.ne_nil_of_mem (List.mem_of_getLast? hold)) other
    obtain ⟨newer, hnew⟩ := Option.isSome_iff_exists.mp (List.getLast?_isSome.mpr hne)
    rw [hnew]
    apply laterStanding?_trans
    rcases getLast?_seedHistory_cases hone (untied_pool_seedHistory h huntied) hold hnew with
      rfl | hlater
    · exact .inl rfl
    · exact .inr hlater

theorem line?_seedHistory_of_log_eq_nil (hnil : (e.seedHistory retention id changes).log = []) :
    (e.seedHistory retention id changes).line? = e.line? := by
  rw [seedHistory, followLog_log] at hnil
  rw [seedHistory, followLog, hnil, List.getLast?_nil, prune_line?, addRecords_line?]

theorem line?_seedHistory_seedHistory_of_log_eq_nil (h : e.Recorded id)
    (hnil : ((e.seedHistory retention id one).seedHistory retention id other).log = []) :
    ((e.seedHistory retention id one).seedHistory retention id other).line? = e.line? := by
  have hone : (e.seedHistory retention id one).log = [] := by
    by_contra hne
    exact log_seedHistory_ne_nil retention (h.seedHistory one) hne other hnil
  rw [line?_seedHistory_of_log_eq_nil hnil, line?_seedHistory_of_log_eq_nil hone]

/-- The status that the snapshot shows, and the time of its last update if there is one. -/
def shown? (e : LineEntry) : Option (Status × Option Instant) :=
  e.line?.map fun line => (line.status, line.lastStatusUpdate)

theorem shown?_of_standing? {held : Standing} (h : e.standing? = some held) :
    e.shown? = some (held.1, some held.2) := by
  obtain ⟨line, hline, hstatus, hlast⟩ := exists_line_of_standing? h
  rw [shown?, hline, Option.map_some, hstatus, hlast]

section

variable (retention) (h : e.Recorded id) (huntied : StatusChange.Untied (e.pool id (one ++ other)))

include h huntied

theorem log_seedHistory_comm :
    ((e.seedHistory retention id one).seedHistory retention id other).log =
      ((e.seedHistory retention id other).seedHistory retention id one).log := by
  have hpool : ∀ c, c ∈ e.pool id (other ++ one) ↔ c ∈ e.pool id (one ++ other) :=
    fun c => mem_pool_append_comm one other
  have hrecorded : ∀ one other,
      ((e.seedHistory retention id one).seedHistory retention id other).Recorded id :=
    fun one other => (h.seedHistory one).seedHistory other
  refine (hrecorded other one).sorted.eq_of_mem_iff (hrecorded one other).sorted
    (hrecorded other one).nodup.of_map (hrecorded one other).nodup.of_map ?_ ?_
  · refine huntied.mono fun c hc => (hpool c).mp ?_
    rw [mem_log_seedHistory_seedHistory_iff h (huntied.mono fun c => (hpool c).mp)] at hc
    exact hc.1
  · intro c
    rw [mem_log_seedHistory_seedHistory_iff h huntied,
      mem_log_seedHistory_seedHistory_iff h (huntied.mono fun c => (hpool c).mp),
      StatusChange.survives_congr hpool]

theorem shown?_seedHistory_comm :
    ((e.seedHistory retention id one).seedHistory retention id other).shown? =
      ((e.seedHistory retention id other).seedHistory retention id one).shown? := by
  have huntied' : StatusChange.Untied (e.pool id (other ++ one)) :=
    huntied.mono fun c => (mem_pool_append_comm one other).mp
  have hlog := log_seedHistory_comm retention h huntied
  have hstanding := standing?_seedHistory_seedHistory retention h huntied
  have hstanding' := standing?_seedHistory_seedHistory retention h huntied'
  rw [← hlog] at hstanding'
  cases hlast : ((e.seedHistory retention id one).seedHistory retention id
      other).log.getLast? with
  | none =>
    have hnil := List.getLast?_eq_none_iff.mp hlast
    rw [shown?, shown?, line?_seedHistory_seedHistory_of_log_eq_nil h hnil,
      line?_seedHistory_seedHistory_of_log_eq_nil h (hlog ▸ hnil)]
  | some last =>
    rw [hlast, Option.map_some] at hstanding hstanding'
    obtain ⟨held, hheld, -⟩ := exists_laterStanding?_of_left rfl e.standing?
    rw [shown?_of_standing? (hstanding.trans hheld), shown?_of_standing? (hstanding'.trans hheld)]

end

end LineEntry

namespace LineCache

/-- Two histories of a line leave the same log, keys, status and last update in either order, if no
two different records among them and in the log are of one millisecond. -/
theorem histories_commute (reached retention : Retention) (ops : List CacheOp) (id : String)
    (one other : List StatusChange)
    (huntied : StatusChange.Untied (((run reached ops).entry id).pool id (one ++ other))) :
    let merge (cache : LineCache) (changes : List StatusChange) : LineCache :=
      (cache.seedHistory retention id changes).cache
    let cache := run reached ops
    LineEntry.SameLog ((merge (merge cache one) other).entry id)
      ((merge (merge cache other) one).entry id) ∧
    ((merge (merge cache one) other).entry id).shown? =
      ((merge (merge cache other) one).entry id).shown? := by
  intro merge cache
  have hrecorded : (cache.entry id).Recorded id :=
    (((coherent_empty reached).performAll ops).entry id).toRecorded
  have hmerge : ∀ cache : LineCache, (cache.entry id).Recorded id → ∀ changes,
      (merge cache changes).entry id = (cache.entry id).seedHistory retention id changes := by
    intro cache h changes
    rw [entry_seedHistory retention cache id changes h, if_pos rfl]
  have htwice : ∀ one other, (merge (merge cache one) other).entry id =
      ((cache.entry id).seedHistory retention id one).seedHistory retention id other := by
    intro one other
    have hone := hmerge cache hrecorded one
    rw [hmerge _ (hone ▸ hrecorded.seedHistory one), hone]
  rw [htwice, htwice, LineEntry.sameLog_iff ((hrecorded.seedHistory one).seedHistory other)
    ((hrecorded.seedHistory other).seedHistory one)]
  exact ⟨(LineEntry.log_seedHistory_comm retention hrecorded huntied).symm,
    LineEntry.shown?_seedHistory_comm retention hrecorded huntied⟩

/-- The change of a line to a status on a day of January 1970. -/
def changeOn (day : Int) (status : Status) : StatusChange :=
  { time := (Instant.ofMicros? ((day - 1) * microsPerDay)).getD .epoch
    lineId := "a"
    newStatus := status }

theorem histories_commute_days_apart :
    let retention := Retention.ofDays 1
    let cache := run retention [.update (.change (changeOn 3 .on))]
    let one := [changeOn 1 .off]
    let other := [changeOn 5 .error, changeOn 2 .off]
    let merge (cache : LineCache) (changes : List StatusChange) : LineCache :=
      (cache.seedHistory retention "a" changes).cache
    StatusChange.Untied ((cache.entry "a").pool "a" (one ++ other)) ∧
    LineEntry.SameLog ((merge (merge cache one) other).entry "a")
      ((merge (merge cache other) one).entry "a") ∧
    ((merge (merge cache one) other).entry "a").shown? =
      ((merge (merge cache other) one).entry "a").shown? := by
  intro retention cache one other merge
  have huntied : StatusChange.Untied ((cache.entry "a").pool "a" (one ++ other)) :=
    StatusChange.untied_of_nodup_millis (by decide +kernel)
  exact ⟨huntied, histories_commute retention retention _ "a" one other huntied⟩

end LineCache

end LineWatch
