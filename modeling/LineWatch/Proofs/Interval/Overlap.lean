import LineWatch.Kpi.Summary
import Mathlib.Tactic

/-!
# What a window shows of an interval

Clipping shows of every interval its overlap with the window: the shown intervals hold an instant
of the window exactly where the given ones do, and the time they cover is the sum of the overlaps.
The overlap with a window that is cut in two is the sum of the overlaps with its parts, wherever
the cut lies. Clipping keeps intervals in the order of time.
-/

namespace LineWatch.Interval

variable {i j : Interval} {is : List Interval} {a b m t : ℤ}

/-- How long an interval lasts within a window. -/
def overlap (a b : ℤ) (i : Interval) : ℤ := max 0 (min i.stop b - max i.start a)

theorem overlap_of_le (h : b ≤ a) : overlap a b i = 0 := by
  unfold overlap
  omega

theorem overlap_split (a b m : ℤ) (i : Interval) :
    overlap a (min m b) i + overlap (max a m) b i = overlap a b i := by
  unfold overlap
  omega

theorem overlap_le_overlap {a' b' : ℤ} (ha : a ≤ a') (hb : b' ≤ b) :
    overlap a' b' i ≤ overlap a b i := by
  unfold overlap
  omega

/-- The part of a window before an interval does not count. -/
theorem overlap_max_left (h : m ≤ i.start) : overlap (max a m) b i = overlap a b i := by
  unfold overlap
  omega

/-- An interval is shown as it is if it has no length and lies in the window, and otherwise cut to
the window. -/
theorem clip?_eq_some (h : clip? a b i = some j) :
    (i.start = i.stop ∧ a ≤ i.start ∧ i.start < b ∧ j = i) ∨
      (i.start ≠ i.stop ∧ a < i.stop ∧ i.start < b ∧
        j = { i with start := max i.start a, stop := min i.stop b }) := by
  unfold clip? at h
  split_ifs at h with hempty hin hout
  · exact .inl ⟨hempty, hin.1, hin.2, (Option.some.inj h).symm⟩
  · exact .inr ⟨hempty, by omega, by omega, (Option.some.inj h).symm⟩

theorem clip?_eq_none (h : clip? a b i = none) :
    (i.start = i.stop ∧ ¬(a ≤ i.start ∧ i.start < b)) ∨ i.stop ≤ a ∨ b ≤ i.start := by
  unfold clip? at h
  split_ifs at h with hempty hin hout
  · exact .inl ⟨hempty, hin⟩
  · exact .inr hout

/-- An interval that ends by the start of a window is not shown, unless it has no length and lies at
the start. -/
theorem clip?_of_stop_le (hstop : i.stop ≤ a) (hempty : i.start = i.stop → i.stop < a) (b : ℤ) :
    clip? a b i = none := by
  cases hclip : clip? a b i with
  | none => rfl
  | some j =>
    have hshown := clip?_eq_some hclip
    omega

theorem clip?_of_le_start (h : b ≤ i.start) (a : ℤ) : clip? a b i = none := by
  cases hclip : clip? a b i with
  | none => rfl
  | some j =>
    have hshown := clip?_eq_some hclip
    omega

theorem clip_eq_nil (h : ∀ i ∈ is, clip? a b i = none) : clip is a b = [] := by
  unfold clip
  split_ifs
  · rfl
  · exact List.filterMap_eq_nil_iff.mpr h

theorem clip_cons_of_none (is : List Interval) (h : clip? a b i = none) :
    clip (i :: is) a b = clip is a b := by
  unfold clip
  split_ifs
  · rfl
  · exact List.filterMap_cons_none h

theorem clip_cons_of_some (is : List Interval) (hab : a < b) (h : clip? a b i = some j) :
    clip (i :: is) a b = j :: clip is a b := by
  unfold clip
  rw [if_neg (not_le.mpr hab), if_neg (not_le.mpr hab), List.filterMap_cons_some h]

theorem status_clip? (h : clip? a b i = some j) : j.status = i.status := by
  obtain ⟨-, -, -, rfl⟩ | ⟨-, -, -, rfl⟩ := clip?_eq_some h <;> rfl

theorem contains_clip? (h : clip? a b i = some j) :
    j.Contains t ↔ i.Contains t ∧ a ≤ t ∧ t < b := by
  unfold Contains
  obtain ⟨hempty, -, -, rfl⟩ | ⟨-, -, -, rfl⟩ := clip?_eq_some h
  · omega
  · dsimp only
    omega

theorem not_contains_of_clip? (h : clip? a b i = none) : ¬(i.Contains t ∧ a ≤ t ∧ t < b) := by
  unfold Contains
  have := clip?_eq_none h
  omega

theorem duration_clip? (h : clip? a b i = some j) : j.duration = overlap a b i := by
  unfold duration overlap
  obtain ⟨hempty, -, -, rfl⟩ | ⟨-, -, -, rfl⟩ := clip?_eq_some h
  · omega
  · rfl

theorem overlap_of_clip? (h : clip? a b i = none) (hab : a ≤ b) : overlap a b i = 0 := by
  unfold overlap
  have := clip?_eq_none h
  omega

/-- The clipped intervals hold an instant of the window exactly where the given ones do. -/
theorem status_filter_clip (is : List Interval) (a b t : ℤ) :
    ((clip is a b).filter (·.Contains t)).map (·.status) =
      if a ≤ t ∧ t < b then (is.filter (·.Contains t)).map (·.status) else [] := by
  rcases le_or_gt b a with hba | hab
  · rw [clip_of_le is hba, if_neg (by omega)]
    rfl
  induction is with
  | nil => simp
  | cons i rest ih =>
    cases hc : clip? a b i with
    | none =>
      have hout := not_contains_of_clip? (t := t) hc
      rw [clip_cons_of_none rest hc, ih]
      split_ifs with ht
      · rw [List.filter_cons_of_neg (by simpa using fun h => hout ⟨h, ht⟩)]
      · rfl
    | some j =>
      have hin := contains_clip? (t := t) hc
      rw [clip_cons_of_some rest hab hc]
      by_cases hj : j.Contains t
      · obtain ⟨hi, ht⟩ := hin.mp hj
        rw [if_pos ht] at ih ⊢
        rw [List.filter_cons_of_pos (by simpa using hj), List.filter_cons_of_pos (by simpa using hi),
          List.map_cons, List.map_cons, ih, status_clip? hc]
      · rw [List.filter_cons_of_neg (by simpa using hj), ih]
        split_ifs with ht
        · rw [List.filter_cons_of_neg (by simpa using fun h => hj (hin.mpr ⟨h, ht⟩))]
        · rfl

@[simp] theorem covered_nil : covered [] = 0 := rfl

@[simp] theorem covered_cons (i : Interval) (is : List Interval) :
    covered (i :: is) = i.duration + covered is := rfl

theorem covered_append (is js : List Interval) :
    covered (is ++ js) = covered is + covered js := by
  induction is with
  | nil => simp
  | cons i rest ih =>
    rw [List.cons_append, covered_cons, covered_cons, ih, add_assoc]

theorem covered_clip (is : List Interval) (a b : ℤ) :
    covered (clip is a b) = (is.map (overlap a b)).sum := by
  rcases le_or_gt b a with hba | hab
  · rw [clip_of_le is hba, List.map_congr_left fun i _ => overlap_of_le hba]
    simp
  induction is with
  | nil =>
    rw [clip_nil]
    rfl
  | cons i rest ih =>
    rw [List.map_cons, List.sum_cons, ← ih]
    cases hc : clip? a b i with
    | none => rw [clip_cons_of_none rest hc, overlap_of_clip? hc hab.le, zero_add]
    | some j => rw [clip_cons_of_some rest hab hc, covered_cons, duration_clip? hc]

/-- None ends before it starts, and each ends before the next one starts. -/
structure InOrder (is : List Interval) : Prop where
  forward : ∀ i ∈ is, i.start ≤ i.stop
  apart : is.Pairwise fun i j => i.stop ≤ j.start

theorem clip?_within (h : clip? a b i = some j) (hi : i.start ≤ i.stop) (hab : a < b) :
    i.start ≤ j.start ∧ j.start ≤ j.stop ∧ j.stop ≤ i.stop := by
  obtain ⟨-, -, -, rfl⟩ | ⟨-, hstop, hstart, rfl⟩ := clip?_eq_some h
  · omega
  · dsimp only
    omega

theorem InOrder.clip (h : InOrder is) (a b : ℤ) : InOrder (clip is a b) := by
  unfold Interval.clip
  split_ifs with hab
  · exact ⟨by simp, List.Pairwise.nil⟩
  have hlt : a < b := not_le.mp hab
  have hin : ∀ i ∈ is, ∀ j, clip? a b i = some j →
      i.start ≤ j.start ∧ j.start ≤ j.stop ∧ j.stop ≤ i.stop :=
    fun i hi j hj => clip?_within hj (h.forward i hi) hlt
  constructor
  · intro j hj
    obtain ⟨i, hi, hc⟩ := List.mem_filterMap.mp hj
    exact (hin i hi j hc).2.1
  · rw [List.pairwise_filterMap]
    refine h.apart.imp_of_mem fun {i i'} hi hi' hle j hj j' hj' => ?_
    exact (hin i hi j hj).2.2.trans (hle.trans (hin i' hi' j' hj').1)

end LineWatch.Interval
