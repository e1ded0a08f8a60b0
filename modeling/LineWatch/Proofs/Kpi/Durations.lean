import LineWatch.Proofs.Interval.Overlap

/-!
# Time spent in a status within a window

The time that clipped intervals spend in a status is the sum of the overlaps of the intervals in
this status. A cut of the window divides it between the two parts, and the part of a window before
the first interval adds nothing.
-/

namespace LineWatch.Summary

open LineWatch.Interval (clip overlap covered clip?)

variable {is : List Interval} {a b m : ℤ} {s : Status}

theorem durationIn_append (is js : List Interval) (s : Status) :
    durationIn (is ++ js) s = durationIn is s + durationIn js s := by
  rw [durationIn, List.filter_append, Interval.covered_append, durationIn, durationIn]

theorem filter_status_clip (is : List Interval) (a b : ℤ) (s : Status) :
    (clip is a b).filter (·.status == s) = clip (is.filter (·.status == s)) a b := by
  unfold clip
  split_ifs with hab
  · rfl
  rw [List.filter_filterMap, List.filterMap_filter]
  refine List.filterMap_congr fun i _ => ?_
  cases hc : clip? a b i with
  | none => simp
  | some j =>
    rw [← Interval.status_clip? hc]
    cases hs : j.status == s <;> simp [Option.filter, hs]

theorem durationIn_clip (is : List Interval) (a b : ℤ) (s : Status) :
    durationIn (clip is a b) s = ((is.filter (·.status == s)).map (overlap a b)).sum := by
  rw [durationIn, filter_status_clip, Interval.covered_clip]

theorem durationIn_clip_split (is : List Interval) (a b m : ℤ) (s : Status) :
    durationIn (clip is a (min m b)) s + durationIn (clip is (max a m) b) s =
      durationIn (clip is a b) s := by
  simp only [durationIn_clip]
  rw [← List.sum_map_add, List.map_congr_left fun i _ => Interval.overlap_split a b m i]

theorem durationIn_clip_of_le (h : b ≤ a) : durationIn (clip is a b) s = 0 := by
  rw [Interval.clip_of_le is h]
  rfl

theorem durationIn_clip_max_left (h : ∀ i ∈ is, m ≤ i.start) :
    durationIn (clip is (max a m) b) s = durationIn (clip is a b) s := by
  rw [durationIn_clip, durationIn_clip]
  refine congrArg List.sum (List.map_congr_left fun i hi => ?_)
  exact Interval.overlap_max_left (h i (List.mem_filter.mp hi).1)

theorem covered_filter_cons (i : Interval) (is : List Interval) (p : Interval → Bool) :
    covered ((i :: is).filter p) = (if p i then i.duration else 0) + covered (is.filter p) := by
  rw [List.filter_cons]
  split_ifs
  · rw [Interval.covered_cons]
  · rw [zero_add]

theorem covered_filter_le (is : List Interval) (p : Interval → Bool) :
    covered (is.filter p) ≤ covered is := by
  induction is with
  | nil => exact le_rfl
  | cons i rest ih =>
    have := i.duration_nonneg
    rw [covered_filter_cons, Interval.covered_cons]
    split_ifs <;> omega

theorem covered_nonneg (is : List Interval) : 0 ≤ covered is := by
  induction is with
  | nil => exact le_rfl
  | cons i rest ih =>
    have := i.duration_nonneg
    rw [Interval.covered_cons]
    omega

/-- A smaller window covers less. -/
theorem covered_clip_mono {a' b' : ℤ} (ha : a ≤ a') (hb : b' ≤ b) :
    covered (clip is a' b') ≤ covered (clip is a b) := by
  rw [Interval.covered_clip, Interval.covered_clip]
  exact List.sum_le_sum fun i _ => Interval.overlap_le_overlap ha hb

/-- An interval covers no more of a window than its length. -/
theorem covered_clip_le (is : List Interval) (h : a ≤ b) :
    covered (clip is a b) ≤ is.length * (b - a) := by
  rw [Interval.covered_clip, ← nsmul_eq_mul, ← List.length_map (overlap a b)]
  refine List.sum_le_card_nsmul _ _ fun ms hms => ?_
  obtain ⟨i, -, rfl⟩ := List.mem_map.mp hms
  unfold overlap
  omega

end LineWatch.Summary
