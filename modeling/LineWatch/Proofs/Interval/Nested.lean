import LineWatch.Proofs.Interval.Overlap

/-!
# Windows within windows

Clipping to one window and then to another shows what clipping to the common part of the two shows.
An interval of no length stays such an interval or goes, and a cut never takes an interval all its
length, so no interval changes from one rule to the other between the two steps. Hence a second
clipping to the same window changes nothing, and the order of two windows does not matter.
-/

namespace LineWatch.Interval

variable {i j : Interval} {a b c d : ℤ}

theorem clip?_of_empty (h : i.start = i.stop) (a b : ℤ) :
    clip? a b i = if a ≤ i.start ∧ i.start < b then some i else none := if_pos h

theorem clip?_of_ne (h : i.start ≠ i.stop) (a b : ℤ) :
    clip? a b i = if i.stop ≤ a ∨ b ≤ i.start then none
      else some { i with start := max i.start a, stop := min i.stop b } := if_neg h

/-- What is left of an interval with a length has one. -/
theorem clip?_ne (hab : a < b) (hne : i.start ≠ i.stop) (h : clip? a b i = some j) :
    j.start ≠ j.stop := by
  obtain ⟨hempty, -⟩ | ⟨-, hstop, hstart, rfl⟩ := clip?_eq_some h
  · exact absurd hempty hne
  · dsimp only
    omega

/-- An interval of no length lies in both windows exactly if it lies in their common part. -/
theorem clip?_clip?_of_empty (h : i.start = i.stop) :
    (clip? a b i).bind (clip? c d) = clip? (max a c) (min b d) i := by
  rw [clip?_of_empty h, clip?_of_empty h]
  by_cases hin : a ≤ i.start ∧ i.start < b
  · rw [if_pos hin, Option.bind_some, clip?_of_empty h]
    exact if_congr (by omega) rfl rfl
  · rw [if_neg hin, Option.bind_none, if_neg (by omega)]

/-- The cuts at the edges of two windows that have something in common are the cuts at the edges of
their common part. -/
theorem clip?_clip?_of_ne (hab : a < b) (hcommon : max a c < min b d) (h : i.start ≠ i.stop) :
    (clip? a b i).bind (clip? c d) = clip? (max a c) (min b d) i := by
  cases hclip : clip? a b i with
  | none =>
    rw [clip?_of_ne h] at hclip ⊢
    have hout : i.stop ≤ a ∨ b ≤ i.start := by
      by_contra hin
      simp [hin] at hclip
    rw [Option.bind_none, if_pos (by omega)]
  | some j =>
    have hj : j.start ≠ j.stop := clip?_ne hab h hclip
    obtain ⟨hempty, -⟩ | ⟨-, hstop, hstart, rfl⟩ := clip?_eq_some hclip
    · exact absurd hempty h
    rw [Option.bind_some, clip?_of_ne hj, clip?_of_ne h]
    refine if_congr (by dsimp only; omega) rfl ?_
    simp only [max_assoc, min_assoc]

/-- Windows that have nothing in common show nothing in common. -/
theorem clip?_clip?_of_apart (hab : a < b) (hcd : c < d) (hapart : min b d ≤ max a c)
    (h : i.start ≠ i.stop) : (clip? a b i).bind (clip? c d) = none := by
  cases hclip : clip? a b i with
  | none => rfl
  | some j =>
    have hj : j.start ≠ j.stop := clip?_ne hab h hclip
    obtain ⟨hempty, -⟩ | ⟨-, hstop, hstart, rfl⟩ := clip?_eq_some hclip
    · exact absurd hempty h
    rw [Option.bind_some, clip?_of_ne hj]
    exact if_pos (by dsimp only; omega)

/-- To what two windows do not share, nothing is left after the second clipping. -/
theorem filterMap_clip?_of_apart (hab : a < b) (hcd : c < d) (hapart : min b d ≤ max a c)
    (is : List Interval) : (is.filterMap (clip? a b)).filterMap (clip? c d) = [] := by
  rw [List.filterMap_filterMap, List.filterMap_eq_nil_iff]
  intro i _
  by_cases h : i.start = i.stop
  · rw [clip?_clip?_of_empty h, clip?_of_empty h]
    exact if_neg (by omega)
  · exact clip?_clip?_of_apart hab hcd hapart h

theorem clip_clip (is : List Interval) (a b c d : ℤ) :
    clip (clip is a b) c d = clip is (max a c) (min b d) := by
  rcases le_or_gt b a with hba | hab
  · rw [clip_of_le is hba, clip_nil, clip_of_le is (by omega)]
  rcases le_or_gt d c with hdc | hcd
  · rw [clip_of_le _ hdc, clip_of_le is (by omega)]
  rw [clip, clip, if_neg (not_le.mpr hcd), if_neg (not_le.mpr hab)]
  rcases le_or_gt (min b d) (max a c) with hapart | hcommon
  · rw [filterMap_clip?_of_apart hab hcd hapart, clip_of_le is hapart]
  · rw [clip, if_neg (not_le.mpr hcommon), List.filterMap_filterMap]
    refine List.filterMap_congr fun i _ => ?_
    by_cases h : i.start = i.stop
    · exact clip?_clip?_of_empty h
    · exact clip?_clip?_of_ne hab hcommon h

/-- Clipping to one window after another is clipping to their common part, whatever the intervals
and the windows. So it does not matter how often a window is applied, nor in which order two
windows are, and the inner one of two nested windows alone decides. -/
theorem clip_again (is : List Interval) (a b c d : ℤ) :
    clip (clip is a b) c d = clip is (max a c) (min b d) ∧
      clip (clip is a b) a b = clip is a b ∧
      clip (clip is a b) c d = clip (clip is c d) a b ∧
      (a ≤ c → d ≤ b → clip (clip is a b) c d = clip is c d) := by
  refine ⟨clip_clip is a b c d, ?_, ?_, fun hac hdb => ?_⟩
  · rw [clip_clip, max_self, min_self]
  · rw [clip_clip, clip_clip, max_comm, min_comm]
  · rw [clip_clip, max_eq_right hac, min_eq_right hdb]

/-- At the edges of the inner window an interval of no length is shown at its start only. -/
example :
    let span (start stop : ℤ) : Interval := ⟨"a", .on, start, stop, false⟩
    clip (clip [span 0 5, span 5 5, span 5 20, span 8 8] (-1) 10) 5 8 = [span 5 5, span 5 8] := by
  decide

end LineWatch.Interval
