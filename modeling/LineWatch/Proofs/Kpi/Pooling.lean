import LineWatch.Proofs.Kpi.Figures

/-!
# Several lines together

The figures of several lines are taken from the intervals of all of them. So the time they cover,
the time in each status, and the numbers of repairs and interruptions are the sums over the lines.
The mean time to repair is no such sum, nor a mean of means: it is the time all lines were under
repair, divided by the number of their repairs. The order of the lines does not matter.
-/

namespace LineWatch

namespace Summary

open LineWatch.Interval (covered)

variable {is js : List Interval} {summary : Summary}

theorem covered_eq_sum (is : List Interval) : covered is = (is.map (·.duration)).sum := by
  induction is with
  | nil => rfl
  | cons i rest ih => rw [Interval.covered_cons, ih, List.map_cons, List.sum_cons]

theorem covered_perm (h : is.Perm js) : covered is = covered js := by
  rw [covered_eq_sum, covered_eq_sum, (h.map _).sum_eq]

theorem meanRepair?_perm (h : is.Perm js) : meanRepair? is = meanRepair? js := by
  have hrepairs : (repairIntervals is).Perm (repairIntervals js) := h.filter _
  simp only [meanRepair?, covered_perm hrepairs, hrepairs.length_eq, hrepairs.isEmpty_eq]

/-- The order of the intervals does not matter. -/
theorem of?_perm (h : is.Perm js) : of? is = of? js := by
  have hdurations : durationIn is = durationIn js :=
    funext fun s => covered_perm (h.filter _)
  have hrepairs : (repairIntervals is).length = (repairIntervals js).length :=
    (h.filter _).length_eq
  have hinterruptions : (is.filter (·.status == .error)).length =
      (js.filter (·.status == .error)).length := (h.filter _).length_eq
  simp only [of?, over?, covered_perm h, hdurations, meanRepair?_perm h, hrepairs, hinterruptions]

/-- The time under repair. -/
def repairTime (summary : Summary) : ℤ := summary.durations .maintenance + summary.durations .error

theorem covered_repairIntervals (is : List Interval) :
    covered (repairIntervals is) = durationIn is .maintenance + durationIn is .error := by
  induction is with
  | nil => rfl
  | cons i rest ih =>
    rw [repairIntervals] at ih ⊢
    rw [durationIn, durationIn, covered_filter_cons, covered_filter_cons, covered_filter_cons, ih,
      durationIn, durationIn]
    cases i.status <;> simp [Status.needsRepair] <;> omega

theorem Describes.repairTime_eq (h : summary.Describes is) :
    summary.repairTime = covered (repairIntervals is) := by
  rw [repairTime, h.durations, covered_repairIntervals]

/-- The mean time to repair of some repairs that took a time in all. -/
def IsMeanRepair (mean : Binary64) (time : ℤ) (repairs : ℕ) : Prop :=
  if repairs = 0 then mean = .zero else Binary64.quotient? time repairs = some mean

theorem Describes.isMeanRepair (h : summary.Describes is) :
    IsMeanRepair summary.meanRepair summary.repairTime summary.repairs := by
  have hmean := h.meanRepair
  rw [IsMeanRepair, h.repairTime_eq, h.repairs]
  unfold meanRepair? at hmean
  simp only [List.isEmpty_iff_length_eq_zero] at hmean
  split_ifs at hmean ⊢
  · exact (Option.some.inj hmean).symm
  · exact hmean

/-- A summary that takes several others together. -/
structure Pools (pooled : Summary) (parts : List Summary) : Prop where
  total : pooled.total = (parts.map (·.total)).sum
  durations : ∀ s, pooled.durations s = (parts.map (·.durations s)).sum
  repairs : pooled.repairs = (parts.map (·.repairs)).sum
  interruptions : pooled.interruptions = (parts.map (·.interruptions)).sum
  meanRepair : IsMeanRepair pooled.meanRepair (parts.map repairTime).sum
    (parts.map (·.repairs)).sum

section

variable {α : Type} (xs : List α) (f : α → List Interval)

theorem durationIn_flatMap (s : Status) :
    durationIn (xs.flatMap f) s = (xs.map fun x => durationIn (f x) s).sum := by
  rw [durationIn, List.filter_flatMap, Interval.covered_flatMap]
  rfl

theorem length_filter_flatMap (p : Interval → Bool) :
    ((xs.flatMap f).filter p).length = (xs.map fun x => ((f x).filter p).length).sum := by
  rw [List.filter_flatMap, List.length_flatMap]

end

end Summary

namespace Kpi

open LineWatch.Summary (Describes describes_of?)

variable {lines : List ProductionLine} {logs : Logs} {window : Window} {now : Option Timestamp}
  {pooled : Summary} {parts : List Summary}

/-- What the summaries of the lines say of their intervals. -/
theorem map_perLine? {γ : Type} {f : Summary → γ} {g : List Interval → γ}
    (hfg : ∀ part is, Describes part is → f part = g is)
    (h : perLine? lines logs window now = some parts) :
    parts.map f = lines.map fun line => g (intervalsIn window now (logs line.id)) :=
  map_of_mapM (fun _ _ hpart => hfg _ _ (describes_of? hpart)) h

theorem pools_perLine? (hpooled : pooled? lines logs window now = some pooled)
    (hparts : perLine? lines logs window now = some parts) : pooled.Pools parts := by
  have h := describes_of? hpooled
  have hdurations (s : Status) : pooled.durations s = (parts.map (·.durations s)).sum := by
    rw [map_perLine? (fun _ _ hd => congrFun hd.durations s) hparts, h.durations,
      Summary.durationIn_flatMap]
  have hrepairs : pooled.repairs = (parts.map (·.repairs)).sum := by
    rw [map_perLine? (fun _ _ hd => hd.repairs) hparts, h.repairs]
    exact Summary.length_filter_flatMap _ _ _
  refine ⟨?_, hdurations, hrepairs, ?_, ?_⟩
  · rw [map_perLine? (fun _ _ hd => hd.total) hparts, h.total, Interval.covered_flatMap]
  · rw [map_perLine? (fun _ _ hd => hd.interruptions) hparts, h.interruptions,
      Summary.length_filter_flatMap]
  · have htime : pooled.repairTime = (parts.map (·.repairTime)).sum := by
      rw [Summary.repairTime, hdurations, hdurations, ← List.sum_map_add]
      rfl
    rw [← htime, ← hrepairs]
    exact h.isMeanRepair

/-- The lines that have records cover the time from the start of the window, or from their first
record, to its known end. -/
theorem total_pooled? (h : pooled? lines logs window now = some pooled) :
    pooled.total = (lines.filterMap fun line => (firstMillis? (logs line.id)).map fun first =>
      max 0 (windowEnd window now - max window.start.millis first)).sum := by
  rw [(describes_of? h).total, Interval.covered_flatMap]
  clear h
  induction lines with
  | nil => rfl
  | cons line rest ih =>
    rw [List.map_cons, List.sum_cons, ih, covered_intervalsIn]
    cases hfirst : firstMillis? (logs line.id) with
    | none => rw [List.filterMap_cons_none (by rw [hfirst]; rfl)]; exact zero_add _
    | some first => rw [List.filterMap_cons_some (by rw [hfirst]; rfl), List.sum_cons]; rfl

/-- The figures of several lines together are sums over the lines, in any order, but for the mean
time to repair, which is the quotient of two such sums. -/
theorem pooled_adds_up (lines : List ProductionLine) (logs : Logs) (window : Window)
    (now : Option Timestamp) :
    (lines.length < 2 ^ 200 → ∃ pooled, pooled? lines logs window now = some pooled) ∧
    (∃ parts, perLine? lines logs window now = some parts ∧
      ∀ pooled, pooled? lines logs window now = some pooled → pooled.Pools parts ∧
        pooled.total = (lines.filterMap fun line => (firstMillis? (logs line.id)).map fun first =>
          max 0 (windowEnd window now - max window.start.millis first)).sum) ∧
    ∀ lines', lines'.Perm lines →
      pooled? lines' logs window now = pooled? lines logs window now := by
  obtain ⟨parts, hparts⟩ := exists_perLine? lines logs window now
  refine ⟨fun h => ?_, ⟨parts, hparts, fun pooled hpooled => ?_⟩, fun lines' hperm => ?_⟩
  · obtain ⟨pooled, hpooled, -⟩ := exists_pooled? h logs window now
    exact ⟨pooled, hpooled⟩
  · exact ⟨pools_perLine? hpooled hparts, total_pooled? hpooled⟩
  · exact Summary.of?_perm (hperm.flatMap_right _)

end Kpi

end LineWatch
