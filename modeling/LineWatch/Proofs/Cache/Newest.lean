import LineWatch.Proofs.Cache.Coherence

/-!
# The newest offer wins

Every update offers statuses with their times to its line. Whatever way they come in, the cached
line holds one of the pairs offered to it, and none of a later millisecond has been offered. The
records of its log are among the offers too, which links the line with the newest record when a
history is merged. So the order in which changes, snapshots and histories come in has no say in
the status, unless two offers of one millisecond disagree.
-/

namespace LineWatch

@[simp] theorem StatusChange.standing_millis (c : StatusChange) :
    c.standing.2.millis = c.millis := rfl

/-- The later of two standings; the second one if both are of one time. -/
def laterStanding? : Option Standing → Option Standing → Option Standing
  | some held, some new => if new.2 < held.2 then some held else some new
  | some held, none => some held
  | none, new? => new?

theorem laterStanding?_some (held new : Standing) : laterStanding? (some held) (some new) =
    if new.2 < held.2 then some held else some new := rfl

@[simp] theorem laterStanding?_none_right (held? : Option Standing) :
    laterStanding? held? none = held? := by cases held? <;> rfl

theorem laterStanding?_cases (held? new? : Option Standing) :
    laterStanding? held? new? = held? ∨ laterStanding? held? new? = new? := by
  cases held? with
  | none => exact .inr rfl
  | some held =>
    cases new? with
    | none => exact .inl rfl
    | some new =>
      rw [laterStanding?_some]
      split_ifs
      · exact .inl rfl
      · exact .inr rfl

theorem exists_laterStanding?_of_left {held? : Option Standing} {held : Standing}
    (h : held? = some held) (new? : Option Standing) :
    ∃ later, laterStanding? held? new? = some later ∧ held.2 ≤ later.2 := by
  subst h
  cases new? with
  | none => exact ⟨held, rfl, Instant.le_refl _⟩
  | some new =>
    rw [laterStanding?_some]
    split_ifs with hlt
    · exact ⟨held, rfl, Instant.le_refl _⟩
    · exact ⟨new, rfl, Instant.not_lt.mp hlt⟩

/-- What an update offers to the line `id`. -/
def LineUpdate.offers (id : String) : LineUpdate → List Standing
  | .change c => if c.lineId = id then [c.standing] else []
  | .snapshot line => if line.id = id then line.standing?.toList else []
  | .history target changes =>
    if target = id then (changes.filter (·.lineId = id)).map StatusChange.standing else []

/-- The held pair is one of the offers, and none is of a later millisecond. -/
def Leads (os : List Standing) : Option Standing → Prop
  | none => os = []
  | some held => held ∈ os ∧ ∀ o ∈ os, o.2.millis ≤ held.2.millis

namespace Leads

variable {os new : List Standing} {held o : Standing}

theorem keep (h : Leads os (some held)) (hnew : ∀ o ∈ new, o.2.millis ≤ held.2.millis) :
    Leads (os ++ new) (some held) := by
  refine ⟨List.mem_append_left _ h.1, fun o ho => ?_⟩
  rcases List.mem_append.mp ho with ho | ho
  · exact h.2 o ho
  · exact hnew o ho

theorem exists_held {held? : Option Standing} (h : Leads os held?) (ho : o ∈ os) :
    ∃ held, held? = some held ∧ o.2.millis ≤ held.2.millis := by
  cases held? with
  | none =>
    rw [show os = [] from h] at ho
    exact absurd ho List.not_mem_nil
  | some held => exact ⟨held, rfl, h.2 o ho⟩

/-- The held pair gives way to an offer not older than itself and all that is new. -/
theorem take {held? : Option Standing} (h : Leads os held?) (hmem : o ∈ os ++ new)
    (hold : ∀ held ∈ held?, held.2.millis ≤ o.2.millis)
    (hnew : ∀ p ∈ new, p.2.millis ≤ o.2.millis) : Leads (os ++ new) (some o) := by
  refine ⟨hmem, fun p hp => ?_⟩
  rcases List.mem_append.mp hp with hp | hp
  · obtain ⟨held, hh, hle⟩ := h.exists_held hp
    exact hle.trans (hold held hh)
  · exact hnew p hp

theorem later {held? : Option Standing} (h : Leads os held?) (new? : Option Standing) :
    Leads (os ++ new?.toList) (laterStanding? held? new?) := by
  cases new? with
  | none => rwa [Option.toList_none, List.append_nil, laterStanding?_none_right]
  | some new =>
    cases held? with
    | none => exact h.take (by simp) (by simp) (by simp)
    | some held =>
      rw [laterStanding?_some]
      split_ifs with hlt
      · exact h.keep (by simpa using Instant.millis_le_millis (Instant.le_of_lt hlt))
      · exact h.take (by simp) (by simpa using Instant.millis_le_millis (Instant.not_lt.mp hlt))
          (by simp)

/-- The newest of several offers takes the lead, unless the held pair is not older. -/
theorem follow {held? : Option Standing} (h : Leads os held?) {newest? : Option Standing}
    (hmem : ∀ newest ∈ newest?, newest ∈ os ++ new)
    (hnew : ∀ p ∈ new, ∃ newest ∈ newest?, p.2.millis ≤ newest.2.millis) :
    Leads (os ++ new) (laterStanding? newest? held?) := by
  cases newest? with
  | none =>
    have hnil : new = [] := List.eq_nil_iff_forall_not_mem.mpr fun p hp => by simpa using hnew p hp
    rw [hnil, List.append_nil]
    exact h
  | some newest =>
    have hle : ∀ p ∈ new, p.2.millis ≤ newest.2.millis := by simpa using hnew
    have hin := hmem newest rfl
    cases held? with
    | none => exact h.take hin (by simp) hle
    | some held =>
      rw [laterStanding?_some]
      split_ifs with hlt
      · exact h.take hin (by simpa using Instant.millis_le_millis (Instant.le_of_lt hlt)) hle
      · have hback := Instant.millis_le_millis (Instant.not_lt.mp hlt)
        exact h.keep fun p hp => (hle p hp).trans hback

theorem max?_millis (h : Leads os (some held)) :
    (os.map fun o => o.2.millis).max? = some held.2.millis := by
  rw [List.max?_eq_some_iff]
  refine ⟨List.mem_map.mpr ⟨held, h.1, rfl⟩, fun m hm => ?_⟩
  obtain ⟨o, ho, rfl⟩ := List.mem_map.mp hm
  exact h.2 o ho

/-- Two leaders of the same offers are of one millisecond. -/
theorem millis_eq {os' : List Standing} {held' : Standing} (h : Leads os (some held))
    (h' : Leads os' (some held')) (hmem : ∀ o, o ∈ os' ↔ o ∈ os) :
    held'.2.millis = held.2.millis :=
  le_antisymm (h.2 held' ((hmem held').mp h'.1)) (h'.2 held ((hmem held).mpr h.1))

end Leads

namespace LineEntry

variable {id : String} {e : LineEntry} {retention : Retention} {os : List Standing}

/-- An entry that has seen these offers and nothing else. -/
structure Newest (os : List Standing) (e : LineEntry) : Prop where
  leads : Leads os e.standing?
  log : ∀ c ∈ e.log, c.standing ∈ os

theorem newest_empty : Newest [] {} where
  leads := rfl
  log := by simp [LineEntry.log]

@[simp] theorem standing?_follow (e : LineEntry) (c : StatusChange) :
    (e.follow c).standing? = some c.standing := by
  unfold standing? follow
  cases e.line? <;> rfl

@[simp] theorem standing?_append (e : LineEntry) (c : StatusChange) :
    (e.append c).standing? = e.standing? := rfl

@[simp] theorem standing?_prune (retention : Retention) (e : LineEntry) :
    (e.prune retention).standing? = e.standing? := by
  rw [standing?, prune_line?, standing?]

@[simp] theorem standing_completed (e : LineEntry) (c : StatusChange) :
    (e.completed c).standing = c.standing := by
  rw [StatusChange.standing, StatusChange.standing, completed_newStatus, completed_time]

theorem standing?_accept (retention : Retention) (e : LineEntry) (c : StatusChange) :
    (e.accept retention c).standing? = some c.standing := by
  rw [accept, standing?_prune, standing?_append, standing?_follow, standing_completed]

/-- A change that is not applied is not of a later millisecond than the status held. -/
theorem Newest.held_of_rejected {c : StatusChange} (h : e.Newest os) (hr : e.Recorded id)
    (hj : e.judge c ≠ .applied) :
    ∃ held, e.standing? = some held ∧ c.millis ≤ held.2.millis := by
  rcases (e.judge_ne_applied_iff c).mp hj with ⟨held, hh, hwhy⟩ | hs
  · refine ⟨held, hh, ?_⟩
    rcases hwhy with hdup | hlt
    · exact Instant.millis_le_millis hdup.2
    · exact Instant.millis_le_millis (Instant.le_of_lt hlt)
  · -- the record of the same key has been offered, so the status held is not older
    obtain ⟨r, hrlog, hkey⟩ := List.mem_map.mp ((hasSeen_iff hr).mp hs)
    have hmillis : r.millis = c.millis := congrArg Prod.fst hkey
    obtain ⟨held, hh, hle⟩ := h.leads.exists_held (h.log r hrlog)
    rw [StatusChange.standing_millis, hmillis] at hle
    exact ⟨held, hh, hle⟩

theorem Newest.applyChange {c : StatusChange} (h : e.Newest os) (hr : e.Recorded id) :
    (e.applyChange retention c).Newest (os ++ [c.standing]) := by
  unfold LineEntry.applyChange
  split_ifs with hj
  · constructor
    · rw [standing?_accept]
      refine h.leads.take (by simp) (fun held hh => ?_) (by simp)
      have hnot := (((e.judge_applied_iff c).mp hj).1 held hh).2
      exact Instant.millis_le_millis (Instant.not_lt.mp hnot)
    · intro r hm
      rw [accept, prune_log] at hm
      rcases StatusChange.mem_insert.mp (List.mem_of_mem_drop hm) with hm | rfl
      · exact List.mem_append_left _ (h.log r hm)
      · rw [standing_completed]
        simp
  · obtain ⟨held, hh, hle⟩ := h.held_of_rejected hr hj
    have hleads := h.leads
    rw [hh] at hleads
    constructor
    · rw [hh]
      exact hleads.keep (by simpa using hle)
    · exact fun r hm => List.mem_append_left _ (h.log r hm)

theorem standing?_seedLine (e : LineEntry) (line : ProductionLine) :
    (e.seedLine line).standing? = laterStanding? e.standing? line.standing? := by
  unfold standing? LineEntry.seedLine newerStatus?
  cases e.line? with
  | none => rfl
  | some cached =>
    cases hheld : cached.lastStatusUpdate with
    | none => simp [ProductionLine.standing?, hheld, laterStanding?]
    | some since =>
      cases hnew : line.lastStatusUpdate with
      | none => simp [ProductionLine.standing?, hheld, hnew, laterStanding?]; rfl
      | some fetched =>
        by_cases hlt : fetched < since
        · simp [ProductionLine.standing?, hheld, hnew, hlt, laterStanding?]; rfl
        · simp [ProductionLine.standing?, hheld, hnew, hlt, laterStanding?]

theorem Newest.seedLine (h : e.Newest os) (line : ProductionLine) :
    (e.seedLine line).Newest (os ++ line.standing?.toList) := by
  refine ⟨?_, fun r hm => List.mem_append_left _ (h.log r hm)⟩
  rw [standing?_seedLine]
  exact h.leads.later line.standing?

theorem standing?_followLog (e : LineEntry) :
    e.followLog.standing? =
      laterStanding? (e.log.getLast?.map StatusChange.standing) e.standing? := by
  unfold followLog
  cases hl : e.log.getLast? with
  | none => rfl
  | some latest =>
    cases hline : e.line? with
    | none =>
      have hheld : e.standing? = none := by simp [standing?, hline]
      rw [hheld]
      exact standing?_follow e latest
    | some line =>
      cases hlast : line.lastStatusUpdate with
      | none =>
        have hheld : e.standing? = none := by
          simp [standing?, ProductionLine.standing?, hline, hlast]
        rw [hheld]
        simp [hlast]
      | some last =>
        have hheld : e.standing? = some (line.status, last) := by
          simp [standing?, ProductionLine.standing?, hline, hlast]
        rw [hheld]
        simp only [Option.map_some, hlast, laterStanding?_some, StatusChange.standing]
        split_ifs
        · exact standing?_follow e latest
        · exact hheld

theorem standing?_addRecords (id : String) (e : LineEntry) (changes : List StatusChange) :
    (e.addRecords id changes).standing? = e.standing? := by
  rw [standing?, addRecords_line?, standing?]

theorem Newest.seedHistory (h : e.Newest os) (hr : e.Recorded id)
    (changes : List StatusChange) :
    (e.seedHistory retention id changes).Newest
      (os ++ (changes.filter (·.lineId = id)).map StatusChange.standing) := by
  let filled := e.addRecords id (StatusChange.sort changes)
  have hfilled : filled.Recorded id := hr.addRecords _
  have hlog : ∀ r ∈ filled.log,
      r.standing ∈ os ++ (changes.filter (·.lineId = id)).map StatusChange.standing := by
    intro r hm
    rcases mem_log_addRecords hm with hm | ⟨hm, hid⟩
    · exact List.mem_append_left _ (h.log r hm)
    · refine List.mem_append_right _ (List.mem_map_of_mem (List.mem_filter.mpr ⟨?_, ?_⟩))
      · exact StatusChange.mem_sort.mp hm
      · simpa using hid
  have hnewest : (filled.prune retention).log.getLast? = filled.log.getLast? := by
    rw [prune_log, StatusChange.getLast?_drop_expired]
  constructor
  · rw [LineEntry.seedHistory, standing?_followLog, standing?_prune, standing?_addRecords, hnewest]
    refine h.leads.follow ?_ ?_
    · intro newest hn
      obtain ⟨r, hrl, rfl⟩ := Option.map_eq_some_iff.mp hn
      exact hlog r (List.mem_of_getLast? hrl)
    · -- the key of an offered record is in the log, whose newest record is not older
      intro p hp
      obtain ⟨c, hc, rfl⟩ := List.mem_map.mp hp
      obtain ⟨hmem, hid⟩ := List.mem_filter.mp hc
      have hkey : c.key ∈ filled.keys := (mem_keys_addRecords id e _ c.key).mpr
        (.inr ⟨c, StatusChange.mem_sort.mpr hmem, by simpa using hid, rfl⟩)
      obtain ⟨r, hrlog, hrkey⟩ := List.mem_map.mp ((hfilled.mem_keys c.key).mp hkey)
      obtain ⟨latest, hlatest⟩ := Option.isSome_iff_exists.mp
        (List.getLast?_isSome.mpr (List.ne_nil_of_mem hrlog))
      have hle := hfilled.sorted.le_newest hlatest hrlog
      rw [show r.millis = c.millis from congrArg Prod.fst hrkey] at hle
      exact ⟨latest.standing, by rw [hlatest]; rfl, hle⟩
  · intro r hm
    rw [LineEntry.seedHistory, followLog_log, prune_log] at hm
    exact hlog r (List.mem_of_mem_drop hm)

theorem Newest.update (h : e.Newest os) {u : LineUpdate} (hr : e.Recorded u.lineId) :
    (e.update retention u).Newest (os ++ u.offers u.lineId) := by
  cases u with
  | change c =>
    rw [show (LineUpdate.change c).offers (LineUpdate.change c).lineId =
      [c.standing] from if_pos rfl]
    exact h.applyChange hr
  | snapshot line =>
    rw [show (LineUpdate.snapshot line).offers (LineUpdate.snapshot line).lineId =
      line.standing?.toList from if_pos rfl]
    exact h.seedLine line
  | history id changes =>
    rw [show (LineUpdate.history id changes).offers (LineUpdate.history id changes).lineId =
      (changes.filter (·.lineId = id)).map StatusChange.standing from if_pos rfl]
    exact h.seedHistory hr changes

end LineEntry

theorem LineUpdate.offers_of_ne {u : LineUpdate} {id : String} (h : id ≠ u.lineId) :
    u.offers id = [] := by
  cases u <;> exact if_neg (Ne.symm h)

namespace LineCache

variable {retention : Retention} {id : String}

theorem newest_update {cache : LineCache} {os : String → List Standing}
    (hc : cache.Coherent retention) (h : ∀ id, (cache.entry id).Newest (os id)) (u : LineUpdate)
    (id : String) : ((cache.update retention u).entry id).Newest (os id ++ u.offers id) := by
  have hr := (hc.entry u.lineId).toRecorded
  rw [entry_update retention hr]
  split_ifs with hid
  · subst hid
    exact (h u.lineId).update hr
  · rw [LineUpdate.offers_of_ne hid, List.append_nil]
    exact h id

theorem coherent_updates (retention : Retention) (us : List LineUpdate) :
    (updates retention us).Coherent retention := by
  induction us using List.reverseRecOn with
  | nil => exact coherent_empty retention
  | append_singleton us u ih =>
    rw [updates, List.foldl_append]
    exact ih.update u

/-- After any updates every entry has seen the offers of its line and nothing else. -/
theorem newest_updates (retention : Retention) (us : List LineUpdate) (id : String) :
    ((updates retention us).entry id).Newest (us.flatMap (LineUpdate.offers id)) := by
  induction us using List.reverseRecOn generalizing id with
  | nil => exact LineEntry.newest_empty
  | append_singleton us u ih =>
    rw [updates, List.foldl_append, List.flatMap_append, List.flatMap_singleton]
    exact newest_update (coherent_updates retention us) ih u id

theorem exists_leader (retention : Retention) (us : List LineUpdate)
    (h : us.flatMap (LineUpdate.offers id) ≠ []) :
    ∃ line since, (updates retention us).line? id = some line ∧
      line.lastStatusUpdate = some since ∧
      Leads (us.flatMap (LineUpdate.offers id)) (some (line.status, since)) := by
  have hleads := (newest_updates retention us id).leads
  cases hline : (updates retention us).line? id with
  | none =>
    rw [LineEntry.standing?, entry_line?, hline] at hleads
    exact absurd hleads h
  | some line =>
    rw [LineEntry.standing?, entry_line?, hline, Option.bind_some,
      ProductionLine.standing?] at hleads
    cases hlast : line.lastStatusUpdate with
    | none =>
      rw [hlast] at hleads
      exact absurd hleads h
    | some since =>
      rw [hlast] at hleads
      exact ⟨line, since, rfl, hlast, hleads⟩

/-- A line to which something has been offered is cached, and shows one of the offers, of the
latest millisecond of all. Where offers of one millisecond agree, other updates that offer the
same to the line, such as the same ones in another order, lead to the same status. -/
theorem newest_offer_shown (retention : Retention) (us : List LineUpdate) (id : String)
    (h : us.flatMap (LineUpdate.offers id) ≠ []) :
    (∃ line since, (updates retention us).line? id = some line ∧
      line.lastStatusUpdate = some since ∧
      (line.status, since) ∈ us.flatMap (LineUpdate.offers id) ∧
      ((us.flatMap (LineUpdate.offers id)).map fun o => o.2.millis).max? = some since.millis) ∧
    ((∀ o ∈ us.flatMap (LineUpdate.offers id), ∀ p ∈ us.flatMap (LineUpdate.offers id),
        o.2.millis = p.2.millis → o.1 = p.1) →
      ∀ vs : List LineUpdate,
        (∀ o, o ∈ vs.flatMap (LineUpdate.offers id) ↔ o ∈ us.flatMap (LineUpdate.offers id)) →
        ((updates retention vs).line? id).map (·.status) =
          ((updates retention us).line? id).map (·.status)) := by
  obtain ⟨line, since, hline, hlast, hleads⟩ := exists_leader retention us h
  refine ⟨⟨line, since, hline, hlast, hleads.1, hleads.max?_millis⟩, fun hagree vs hmem => ?_⟩
  have hvs : vs.flatMap (LineUpdate.offers id) ≠ [] :=
    List.ne_nil_of_mem ((hmem _).mpr hleads.1)
  obtain ⟨line', since', hline', _, hleads'⟩ := exists_leader retention vs hvs
  rw [hline, hline', Option.map_some, Option.map_some]
  exact congrArg some (hagree _ ((hmem _).mp hleads'.1) _ hleads.1 (hleads.millis_eq hleads' hmem))

/-- A snapshot that tells of one second after 1970 began, and a history that ends before it. -/
def outOfOrder : List LineUpdate := [
  .snapshot
    { id := "a"
      code := "A"
      name := "A"
      status := .off
      updatedAt := some ⟨1000000, by decide, by decide⟩ },
  .history "a" [{ time := Instant.epoch, lineId := "a", newStatus := .on }]]

theorem newest_offer_shown_outOfOrder :
    (∃ line since, (updates none outOfOrder).line? "a" = some line ∧
      line.lastStatusUpdate = some since ∧
      (line.status, since) ∈ outOfOrder.flatMap (LineUpdate.offers "a") ∧
      ((outOfOrder.flatMap (LineUpdate.offers "a")).map fun o => o.2.millis).max? =
        some since.millis) ∧
    ((updates none outOfOrder.reverse).line? "a").map (·.status) =
      ((updates none outOfOrder).line? "a").map (·.status) := by
  have h : outOfOrder.flatMap (LineUpdate.offers "a") ≠ [] := by decide
  have hagree : ∀ o ∈ outOfOrder.flatMap (LineUpdate.offers "a"),
      ∀ p ∈ outOfOrder.flatMap (LineUpdate.offers "a"), o.2.millis = p.2.millis → o.1 = p.1 := by
    decide +kernel
  obtain ⟨hshown, horder⟩ := newest_offer_shown none outOfOrder "a" h
  exact ⟨hshown, horder hagree _ fun o =>
    ((List.reverse_perm outOfOrder).flatMap_right _).mem_iff⟩

end LineCache

end LineWatch
