import LineWatch.Proofs.Kpi.Pooling
import LineWatch.Proofs.Number.Growth

/-!
# The figures of a summary agree

The figures of a summary are computed by separate passes over the intervals. They agree all the
same, for intervals that overlap or run backwards too: the statuses divide the total time between
them, so the statuses with a share are those in which time was spent, the exact shares make up the
whole, and none of them leaves the range of a percentage when it is rounded.
-/

namespace LineWatch

theorem nearest_zero : nearest 0 = 0 := by decide +kernel

theorem nearest_one : nearest 1 = 1 := by decide +kernel

theorem nearest_hundred : nearest 100 = 100 := by decide +kernel

theorem Binary64.ofRat_eq_finite {q : ℚ} (h0 : 0 ≤ q) (h : q ≤ 100) :
    ofRat q = .finite (nearest q) := by
  have hlo : 0 ≤ nearest q := nearest_zero ▸ nearest_mono h0
  have hhi : nearest q ≤ 100 := nearest_hundred ▸ nearest_mono h
  have hsmall : ¬overflowBound ≤ magnitude (nearest q) := by
    have hbound : (100 : ℚ) < overflowBound := by
      have hlt : (100 : ℚ) < twoPow 7 := by norm_num [twoPow]
      exact hlt.trans (twoPow_lt_iff.mpr (by norm_num))
    rw [magnitude_eq_abs, abs_of_nonneg hlo]
    exact not_le.mpr (hhi.trans_lt hbound)
  unfold ofRat
  dsimp only
  rw [if_neg hsmall, if_neg fun hneg => not_lt.mpr h0 hneg.2]

theorem Binary64.quotient?_eq_some {n d : ℤ} (h0 : 0 ≤ (n : ℚ) / d) (h : (n : ℚ) / d ≤ 100) :
    quotient? n d = some (.finite (nearest ((n : ℚ) / d))) := by
  unfold quotient?
  rw [ofRat_eq_finite h0 h]

namespace Summary

variable {is : List Interval} {summary : Summary} {part total : ℤ}

/-- The percentage of a part, rounded as a quotient and once more as a product. -/
def roundedPercentage (part total : ℤ) : ℚ := nearest (nearest ((part : ℚ) / total) * 100)

section

variable (h0 : 0 ≤ part) (hle : part ≤ total)

include h0 hle

theorem quotient_bounds : 0 ≤ (part : ℚ) / total ∧ (part : ℚ) / total ≤ 1 := by
  have h0' : (0 : ℚ) ≤ part := by exact_mod_cast h0
  have hle' : (part : ℚ) ≤ total := by exact_mod_cast hle
  exact ⟨div_nonneg h0' (h0'.trans hle'), div_le_one_of_le₀ hle' (h0'.trans hle')⟩

theorem nearest_quotient_bounds :
    0 ≤ nearest ((part : ℚ) / total) ∧ nearest ((part : ℚ) / total) ≤ 1 := by
  obtain ⟨hlo, hhi⟩ := quotient_bounds h0 hle
  exact ⟨nearest_zero ▸ nearest_mono hlo, nearest_one ▸ nearest_mono hhi⟩

theorem roundedPercentage_bounds :
    0 ≤ roundedPercentage part total ∧ roundedPercentage part total ≤ 100 := by
  obtain ⟨hlo, hhi⟩ := nearest_quotient_bounds h0 hle
  exact ⟨nearest_zero ▸ nearest_mono (by linarith), nearest_hundred ▸ nearest_mono (by linarith)⟩

theorem percentage?_eq_some (ht : 0 < total) :
    percentage? part total = some (.finite (roundedPercentage part total)) := by
  obtain ⟨hlo, hhi⟩ := nearest_quotient_bounds h0 hle
  obtain ⟨hexact, hexact'⟩ := quotient_bounds h0 hle
  have hquotient := Binary64.quotient?_eq_some hexact (hexact'.trans (by norm_num))
  rw [percentage?, if_neg (not_le.mpr ht), hquotient, Option.map_some, roundedPercentage]
  rcases hlo.eq_or_lt with hzero | hpos
  · rw [← hzero, zero_mul, nearest_zero]
    decide +kernel
  · have hproduct : (Binary64.finite (nearest ((part : ℚ) / total))).mul hundred =
        Binary64.ofRat (nearest ((part : ℚ) / total) * 100) := by
      simp [Binary64.mul, hundred, Binary64.toRat?, hpos.ne']
    rw [hproduct, Binary64.ofRat_eq_finite (by linarith) (by linarith)]

theorem percentage?_bounds {p : Binary64} (h : percentage? part total = some p) :
    Binary64.zero.le p = true ∧ p.le hundred = true := by
  rcases (h0.trans hle).eq_or_lt with hzero | ht
  · rw [percentage?, if_pos hzero.ge] at h
    obtain rfl := Option.some.inj h
    decide +kernel
  · rw [percentage?_eq_some h0 hle ht] at h
    obtain rfl := Option.some.inj h
    obtain ⟨hlo, hhi⟩ := roundedPercentage_bounds h0 hle
    exact ⟨Binary64.finite_le_finite.mpr hlo, Binary64.finite_le_finite.mpr hhi⟩

end

theorem percentage?_zero (total : ℤ) : percentage? 0 total = some .zero := by
  rcases le_or_gt total 0 with ht | ht
  · rw [percentage?, if_pos ht]
  · rw [percentage?_eq_some le_rfl ht.le ht, roundedPercentage, Int.cast_zero, zero_div,
      nearest_zero, zero_mul, nearest_zero]
    rfl

theorem durationIn_nonneg (is : List Interval) (s : Status) : 0 ≤ durationIn is s :=
  covered_nonneg _

theorem durationIn_le (is : List Interval) (s : Status) :
    durationIn is s ≤ Interval.covered is := covered_filter_le is _

/-- The statuses divide the time between them. -/
theorem sum_durationIn (is : List Interval) :
    (Status.all.map (durationIn is)).sum = Interval.covered is := by
  induction is with
  | nil => rfl
  | cons i rest ih =>
    simp only [Status.all, List.map_cons, List.map_nil, List.sum_cons, List.sum_nil, durationIn,
      covered_filter_cons, Interval.covered_cons] at ih ⊢
    cases i.status <;> simp <;> omega

/-- Shares are of the statuses with a positive duration, each share from its own duration. -/
theorem shares?_eq_some {durations : Status → ℤ} {statuses : List Status}
    {shares : List (Status × Share)} (h : shares? durations total statuses = some shares) :
    shares.map (·.1) = statuses.filter (0 < durations ·) ∧
      ∀ p ∈ shares, percentage? (durations p.1) total = some p.2.percentage := by
  induction statuses generalizing shares with
  | nil =>
    obtain rfl := Option.some.inj h
    exact ⟨rfl, by simp⟩
  | cons s rest ih =>
    unfold shares? at h
    split_ifs at h with hnone
    · rw [List.filter_cons_of_neg (by simpa using hnone)]
      exact ih h
    · simp only [Option.bind_eq_bind, Option.bind_eq_some_iff, Option.pure_def,
        Option.some.injEq] at h
      obtain ⟨share, hshare, later, hlater, rfl⟩ := h
      obtain ⟨hstatuses, hpercentages⟩ := ih hlater
      simp only [share?, Option.bind_eq_bind, Option.bind_eq_some_iff, Option.pure_def,
        Option.some.injEq] at hshare
      obtain ⟨hours, -, percentage, hpercentage, rfl⟩ := hshare
      rw [List.filter_cons_of_pos (by simpa using hnone), List.map_cons, hstatuses]
      refine ⟨rfl, fun p hp => ?_⟩
      rcases List.mem_cons.mp hp with rfl | hp
      · exact hpercentage
      · exact hpercentages p hp

/-- The figures of a summary do not contradict each other. -/
structure Consistent (summary : Summary) : Prop where
  total : summary.total = (Status.all.map summary.durations).sum
  shared : summary.shares.map (·.1) = Status.all.filter (0 < summary.durations ·)
  uptime : 0 < summary.durations .on →
    ∃ share, (.on, share) ∈ summary.shares ∧ summary.uptimePercentage = share.percentage
  downtime : summary.durations .on ≤ 0 → summary.uptimePercentage = .zero
  percentages : ∀ p ∈ summary.uptimePercentage :: summary.shares.map (·.2.percentage),
    Binary64.zero.le p = true ∧ p.le hundred = true
  rounded : ∀ p ∈ summary.shares,
    p.2.percentage = .finite (roundedPercentage (summary.durations p.1) summary.total)
  whole : 0 < summary.total →
    (summary.shares.map fun p => (summary.durations p.1 : ℚ) / summary.total * 100).sum = 100
  interruptions_le : summary.interruptions ≤ summary.repairs
  meanRepair : summary.repairs = 0 → summary.meanRepair = .zero

theorem sum_map_filter {α : Type} {xs : List α} {p : α → Bool} {g : α → ℚ}
    (h : ∀ x, p x = false → g x = 0) : ((xs.filter p).map g).sum = (xs.map g).sum := by
  induction xs with
  | nil => rfl
  | cons x rest ih =>
    rw [List.map_cons, List.sum_cons, ← ih, List.filter_cons]
    split_ifs with hx
    · rw [List.map_cons, List.sum_cons]
    · rw [h x (by simpa using hx), zero_add]

namespace Describes

variable (h : summary.Describes is)

include h

theorem shared : summary.shares.map (·.1) = Status.all.filter (0 < summary.durations ·) := by
  rw [h.durations]
  exact (shares?_eq_some h.shares).1

theorem percentage_mem {p : Status × Share} (hp : p ∈ summary.shares) :
    percentage? (summary.durations p.1) summary.total = some p.2.percentage := by
  rw [h.durations, h.total]
  exact (shares?_eq_some h.shares).2 p hp

theorem durations_pos {p : Status × Share} (hp : p ∈ summary.shares) :
    0 < summary.durations p.1 := by
  have hmem : p.1 ∈ Status.all.filter (0 < summary.durations ·) :=
    h.shared ▸ List.mem_map_of_mem hp
  simpa using (List.mem_filter.mp hmem).2

theorem durations_bounds (s : Status) :
    0 ≤ summary.durations s ∧ summary.durations s ≤ summary.total := by
  rw [h.durations, h.total]
  exact ⟨durationIn_nonneg is s, durationIn_le is s⟩

theorem uptime_eq : percentage? (summary.durations .on) summary.total =
    some summary.uptimePercentage := by
  rw [h.durations, h.total]
  exact h.uptime

/-- The exact shares of the statuses make up the whole. -/
theorem sum_shares (ht : 0 < summary.total) :
    (summary.shares.map fun p => (summary.durations p.1 : ℚ) / summary.total * 100).sum = 100 := by
  have ht' : (summary.total : ℚ) ≠ 0 := by exact_mod_cast ht.ne'
  have hnone : ∀ s, decide (0 < summary.durations s) = false →
      (summary.durations s : ℚ) / summary.total * 100 = 0 := by
    intro s hs
    have hzero : summary.durations s = 0 :=
      le_antisymm (not_lt.mp (of_decide_eq_false hs)) (h.durations_bounds s).1
    rw [hzero, Int.cast_zero, zero_div, zero_mul]
  have hsum : ((Status.all.map summary.durations).sum : ℚ) = summary.total := by
    rw [h.durations, sum_durationIn, h.total]
  calc _ = ((summary.shares.map (·.1)).map
          fun s => (summary.durations s : ℚ) / summary.total * 100).sum := by
        rw [List.map_map]
        rfl
    _ = (Status.all.map fun s => (summary.durations s : ℚ) / summary.total * 100).sum := by
        rw [h.shared, sum_map_filter hnone]
    _ = (Status.all.map summary.durations).sum / summary.total * 100 := by
        simp only [Status.all, List.map_cons, List.map_nil, List.sum_cons, List.sum_nil]
        push_cast
        ring
    _ = 100 := by rw [hsum, div_self ht', one_mul]

theorem interruptions_le : summary.interruptions ≤ summary.repairs := by
  rw [h.interruptions, h.repairs, repairIntervals]
  refine (List.monotone_filter_right is fun i hi => ?_).length_le
  rw [beq_iff_eq] at hi
  rw [hi]
  rfl

theorem uptime_mem (hpos : 0 < summary.durations .on) :
    ∃ share, (.on, share) ∈ summary.shares ∧ summary.uptimePercentage = share.percentage := by
  have hon : .on ∈ summary.shares.map (·.1) := by
    rw [h.shared, List.mem_filter]
    exact ⟨Status.mem_all .on, decide_eq_true hpos⟩
  obtain ⟨⟨_, share⟩, hmem, rfl⟩ := List.mem_map.mp hon
  have hshare := h.percentage_mem hmem
  dsimp only at hshare
  rw [h.uptime_eq] at hshare
  exact ⟨share, hmem, Option.some.inj hshare⟩

theorem uptime_eq_zero (hnone : summary.durations .on ≤ 0) : summary.uptimePercentage = .zero := by
  have huptime := h.uptime_eq
  rw [le_antisymm hnone (h.durations_bounds .on).1, percentage?_zero] at huptime
  exact (Option.some.inj huptime).symm

theorem percentages_bounds : ∀ p ∈ summary.uptimePercentage :: summary.shares.map (·.2.percentage),
    Binary64.zero.le p = true ∧ p.le hundred = true := by
  intro p hp
  rcases List.mem_cons.mp hp with rfl | hp
  · exact percentage?_bounds (h.durations_bounds .on).1 (h.durations_bounds .on).2 h.uptime_eq
  · obtain ⟨entry, hentry, rfl⟩ := List.mem_map.mp hp
    obtain ⟨hlo, hhi⟩ := h.durations_bounds entry.1
    exact percentage?_bounds hlo hhi (h.percentage_mem hentry)

theorem percentage_eq {p : Status × Share} (hp : p ∈ summary.shares) :
    p.2.percentage = .finite (roundedPercentage (summary.durations p.1) summary.total) := by
  obtain ⟨hlo, hhi⟩ := h.durations_bounds p.1
  have hsome := percentage?_eq_some hlo hhi ((h.durations_pos hp).trans_le hhi)
  rw [h.percentage_mem hp] at hsome
  exact Option.some.inj hsome

theorem meanRepair_eq_zero (hnone : summary.repairs = 0) : summary.meanRepair = .zero := by
  have hmean := h.isMeanRepair
  rwa [IsMeanRepair, if_pos hnone] at hmean

theorem consistent : summary.Consistent where
  total := by rw [h.total, h.durations, sum_durationIn]
  shared := h.shared
  uptime := h.uptime_mem
  downtime hnone := h.uptime_eq_zero hnone
  percentages := h.percentages_bounds
  rounded _ hp := h.percentage_eq hp
  whole := h.sum_shares
  interruptions_le := h.interruptions_le
  meanRepair := h.meanRepair_eq_zero

end Describes

/-- Intervals have a summary unless their time is astronomic. Its total is the time they cover, and
its figures agree. -/
theorem summary_consistent (is : List Interval) :
    (Modest (Interval.covered is) → ∃ summary, of? is = some summary) ∧
    ∀ summary, of? is = some summary →
      summary.total = Interval.covered is ∧ summary.durations = durationIn is ∧
        summary.Consistent := by
  refine ⟨fun hmodest => ?_, fun summary hsummary => ?_⟩
  · obtain ⟨summary, hsummary, -⟩ := exists_of? hmodest
    exact ⟨summary, hsummary⟩
  · have h := describes_of? hsummary
    exact ⟨h.total, h.durations, h.consistent⟩

end Summary

end LineWatch
