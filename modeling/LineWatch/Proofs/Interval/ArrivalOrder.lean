import LineWatch.Proofs.Interval.Window

/-!
# Logs that come in in another order

A log is put in order by the milliseconds of its records, whatever the order in which they have
come in. Within one millisecond the order of arrival stays, although the times of the records may
differ. So a log gives the same intervals in every order of arrival, and the status of its newest
record last, exactly if the records of each millisecond agree.
-/

namespace LineWatch

namespace StatusChange

variable {log arrived : List StatusChange} {c d : StatusChange}

/-- What the interval of a record takes from it. -/
def mark (c : StatusChange) : String × Status × ℤ := (c.lineId, c.newStatus, c.millis)

/-- Records of one millisecond are of one line and have one status. -/
def Concordant (log : List StatusChange) : Prop :=
  ∀ c ∈ log, ∀ d ∈ log, c.millis = d.millis → c.lineId = d.lineId ∧ c.newStatus = d.newStatus

theorem Concordant.mark_eq (h : Concordant log) (hc : c ∈ log) (hd : d ∈ log)
    (hmillis : c.millis = d.millis) : c.mark = d.mark := by
  obtain ⟨hline, hstatus⟩ := h c hc d hd hmillis
  rw [mark, mark, hline, hstatus, hmillis]

/-- Of a concordant log the marks come in one order, however the records have come in. -/
theorem Concordant.map_mark_sort (h : Concordant log) (hp : arrived.Perm log) :
    (sort arrived).map mark = (sort log).map mark := by
  have hmarks : ∀ records : List StatusChange, ((sort records).map mark).Pairwise
      fun a b => a.2.2 ≤ b.2.2 := fun records =>
    List.pairwise_map.mpr (sorted_sort records)
  refine List.Perm.eq_of_pairwise ?_ (hmarks arrived) (hmarks log)
    ((((sort_perm arrived).trans hp).trans (sort_perm log).symm).map mark)
  rintro _ _ ha hb hab hba
  obtain ⟨c, hc, rfl⟩ := List.mem_map.mp ha
  obtain ⟨d, hd, rfl⟩ := List.mem_map.mp hb
  exact h.mark_eq (hp.mem_iff.mp (mem_sort.mp hc)) (mem_sort.mp hd) (le_antisymm hab hba)

/-- The first record to come in is the first one of its millisecond. -/
theorem head?_filter_sort_cons (c : StatusChange) (rest : List StatusChange) :
    ((sort (c :: rest)).filter (·.millis = c.millis)).head? = some c := by
  rw [filter_millis_sort, List.filter_cons_of_pos (by simp), List.head?_cons]

/-- If the marks come in one order, those of one millisecond are the same: each of the records may
have come in first. -/
theorem concordant_of_map_mark_sort
    (h : ∀ arrived, arrived.Perm log → (sort arrived).map mark = (sort log).map mark) :
    Concordant log := by
  intro c hc d hd hmillis
  have hfirst : ∀ e ∈ log,
      (((sort log).map mark).filter (·.2.2 = e.millis)).head? = some e.mark := by
    intro e he
    obtain ⟨before, after, rfl⟩ := List.append_of_mem he
    rw [← h (e :: (before ++ after)) List.perm_middle.symm, List.filter_map, List.head?_map]
    exact congrArg (Option.map mark) (head?_filter_sort_cons e (before ++ after))
  have hsame := hfirst c hc
  rw [hmillis, hfirst d hd, Option.some.injEq] at hsame
  simp only [mark, Prod.mk.injEq] at hsame
  exact ⟨hsame.1.symm, hsame.2.1.symm⟩

end StatusChange

namespace Interval

open StatusChange (sort mark Concordant sorted_sort mem_sort)

variable {log log' changes : List StatusChange} {c : StatusChange}

/-- The intervals of a log in order keep the marks of its records. -/
theorem map_mark_ofOrdered (now : ℤ) (log : List StatusChange) :
    (ofOrdered now log).map (fun i => (i.lineId, i.status, i.start)) = log.map mark := by
  fun_induction ofOrdered now log <;> simp_all [mark]

/-- Nothing but the marks of the records matters. -/
theorem ofOrdered_congr (now : ℤ) (h : log.map mark = log'.map mark) :
    ofOrdered now log = ofOrdered now log' := by
  fun_induction ofOrdered now log generalizing log' with
  | case1 =>
    rw [List.map_eq_nil_iff.mp h.symm]
    rfl
  | case2 last =>
    obtain ⟨last', rfl, hlast⟩ := List.map_eq_singleton_iff.mp h.symm
    simp only [mark, Prod.mk.injEq] at hlast
    simp only [ofOrdered, hlast]
  | case3 current following rest ih =>
    obtain ⟨current', later', rfl, hcurrent, hlater⟩ := List.map_eq_cons_iff.mp h.symm
    have hrest := ih hlater.symm
    obtain ⟨following', rest', rfl, hfollowing, -⟩ := List.map_eq_cons_iff.mp hlater
    simp only [mark, Prod.mk.injEq] at hcurrent hfollowing
    simp only [ofOrdered, hrest, hcurrent, hfollowing]

theorem resolve_eq_iff (now : ℤ) :
    resolve log now = resolve log' now ↔ (sort log).map mark = (sort log').map mark := by
  constructor
  · intro h
    rw [← map_mark_ofOrdered now, ← map_mark_ofOrdered now]
    exact congrArg _ h
  · exact ofOrdered_congr now

/-- The open interval of a concordant log has the status of its newest record. -/
theorem getLast?_resolve_of_newest (h : Concordant changes) (hc : c ∈ changes)
    (hnewest : ∀ d ∈ changes, d.time ≤ c.time) (now : ℤ) :
    ∃ last ∈ (resolve changes now).getLast?, last.isOpen = true ∧ last.status = c.newStatus := by
  have hmem : c ∈ sort changes := mem_sort.mpr hc
  obtain ⟨newest, hlast⟩ := Option.isSome_iff_exists.mp
    (List.getLast?_isSome.mpr (List.ne_nil_of_mem hmem))
  have hin : newest ∈ changes := mem_sort.mp (List.mem_of_getLast? hlast)
  have hle : newest.millis ≤ c.millis := Instant.millis_le_millis (hnewest newest hin)
  have hge : c.millis ≤ newest.millis := (sorted_sort changes).le_newest hlast hmem
  refine ⟨_, getLast?_ofOrdered hlast, rfl, ?_⟩
  exact (h newest hin c hc (le_antisymm hle hge)).2

/-- A log gives the same intervals in every order of arrival, and the open one has the status of
the record with the greatest time, exactly if its records of one millisecond agree. -/
theorem resolve_perm_iff (changes : List StatusChange) (now : ℤ) :
    (∀ arrived, arrived.Perm changes →
      resolve arrived now = resolve changes now ∧
        ∀ c ∈ changes, (∀ d ∈ changes, d.time ≤ c.time) →
          ∃ last ∈ (resolve arrived now).getLast?,
            last.isOpen = true ∧ last.status = c.newStatus) ↔
      Concordant changes := by
  constructor
  · intro h
    exact StatusChange.concordant_of_map_mark_sort fun arrived hp =>
      (resolve_eq_iff now).mp (h arrived hp).1
  · intro h arrived hp
    have hsame : resolve arrived now = resolve changes now :=
      (resolve_eq_iff now).mpr (h.map_mark_sort hp)
    refine ⟨hsame, fun c hc hnewest => ?_⟩
    rw [hsame]
    exact getLast?_resolve_of_newest h hc hnewest now

/-- A line that is on, and off a tenth of a millisecond later; the later record comes in first. -/
def laterFirst : List StatusChange := [
  { time := ⟨1704067200000200, by decide, by decide⟩, lineId := "a", newStatus := .off },
  { time := ⟨1704067200000100, by decide, by decide⟩, lineId := "a", newStatus := .on }]

/-- The two records have different times. In the order of time the line is off in the end, in the
order of arrival it is on. -/
theorem resolve_laterFirst :
    laterFirst.Pairwise (fun c d => d.time < c.time) ∧
      (resolve laterFirst 1704067201000).map (fun i => (i.status, i.start, i.stop)) =
        [(.off, 1704067200000, 1704067200000), (.on, 1704067200000, 1704067201000)] ∧
      (resolve laterFirst.reverse 1704067201000).map (fun i => (i.status, i.start, i.stop)) =
        [(.on, 1704067200000, 1704067200000), (.off, 1704067200000, 1704067201000)] := by
  have hsort : ∀ log ∈ [laterFirst, laterFirst.reverse], sort log = log := by
    intro log hlog
    apply StatusChange.Sorted.sort_eq
    unfold StatusChange.Sorted
    revert log
    decide +kernel
  rw [resolve, resolve, hsort _ (by simp), hsort _ (by simp)]
  decide +kernel

end Interval

end LineWatch
