import LineWatch.Proofs.Interval.Nested
import LineWatch.Proofs.Kpi.Durations

/-!
# Cutting a window in two

If a window is cut at an instant `m`, every interval that it shows goes to the part before `m`, to
the part from `m` on, or leaves a piece of some length to each, and the two pieces meet at `m`. An
interval of no length is never cut, and one that lies at `m` belongs to the second part alone. Both
parts show what is theirs in the order of the window, and show nothing else, also if one of them is
empty.
-/

namespace LineWatch.Interval

variable {i j : Interval} {is whole first second : List Interval} {a b m : ℤ}

/-- A cut at `m` divides the intervals of `whole` into those of `first` and `second`: one that starts
before `m` and ends by then is in the first part alone, one that starts at `m` or later in the second
alone, and one that overlaps both parts is in each of them, up to `m` and from `m` on. -/
inductive Divides (m : ℤ) : (whole first second : List Interval) → Prop
  | nil : Divides m [] [] []
  | before {j : Interval} {whole first second : List Interval} (hstart : j.start < m)
      (hstop : j.stop ≤ m) (rest : Divides m whole first second) :
      Divides m (j :: whole) (j :: first) second
  | after {j : Interval} {whole first second : List Interval} (hstart : m ≤ j.start)
      (rest : Divides m whole first second) : Divides m (j :: whole) first (j :: second)
  | across {j : Interval} {whole first second : List Interval} (hstart : j.start < m)
      (hstop : m < j.stop) (rest : Divides m whole first second) :
      Divides m (j :: whole) ({ j with stop := m } :: first) ({ j with start := m } :: second)

namespace Divides

theorem start_lt_of_mem_first (h : Divides m whole first second) (hj : j ∈ first) :
    j.start < m := by
  induction h with
  | nil => exact absurd hj List.not_mem_nil
  | before hstart _ _ ih =>
    rcases List.mem_cons.mp hj with rfl | hj
    · exact hstart
    · exact ih hj
  | after _ _ ih => exact ih hj
  | across hstart _ _ ih =>
    rcases List.mem_cons.mp hj with rfl | hj
    · exact hstart
    · exact ih hj

theorem le_start_of_mem_second (h : Divides m whole first second) (hj : j ∈ second) :
    m ≤ j.start := by
  induction h with
  | nil => exact absurd hj List.not_mem_nil
  | before _ _ _ ih => exact ih hj
  | after hstart _ ih =>
    rcases List.mem_cons.mp hj with rfl | hj
    · exact hstart
    · exact ih hj
  | across _ _ _ ih =>
    rcases List.mem_cons.mp hj with rfl | hj
    · exact le_rfl
    · exact ih hj

/-- No cut makes an interval of no length, or takes one away. -/
theorem count_of_empty (h : Divides m whole first second) (hj : j.start = j.stop) :
    whole.count j = first.count j + second.count j := by
  induction h with
  | nil => rfl
  | before _ _ _ ih =>
    rw [List.count_cons, List.count_cons, ih]
    omega
  | after _ _ ih =>
    rw [List.count_cons, List.count_cons, ih]
    omega
  | @across i _ _ _ hstart hstop _ ih =>
    have hwhole : i ≠ j := by
      rintro rfl
      omega
    have hfirst : { i with stop := m } ≠ j := by
      rintro rfl
      exact hstart.ne hj
    have hsecond : { i with start := m } ≠ j := by
      rintro rfl
      exact hstop.ne hj
    rw [List.count_cons_of_ne hwhole, List.count_cons_of_ne hfirst,
      List.count_cons_of_ne hsecond, ih]

end Divides

/-- The interval lies within the window and counts as part of it. -/
structure Fits (a b : ℤ) (i : Interval) : Prop where
  le_start : a ≤ i.start
  forward : i.start ≤ i.stop
  stop_le : i.stop ≤ b
  start_lt : i.start < b

theorem fits_of_mem_clip (h : ∀ i ∈ is, i.start ≤ i.stop) (hj : j ∈ clip is a b) :
    Fits a b j := by
  unfold clip at hj
  split_ifs at hj with hab
  · exact absurd hj List.not_mem_nil
  obtain ⟨i, hi, hclip⟩ := List.mem_filterMap.mp hj
  have hforward := h i hi
  obtain ⟨hempty, hstart, hstop, rfl⟩ | ⟨hne, hstop, hstart, rfl⟩ := clip?_eq_some hclip
  · exact ⟨hstart, hforward, by omega, hstop⟩
  · constructor <;> dsimp only <;> omega

theorem Fits.clip? (h : Fits a b i) : clip? a b i = some i := by
  obtain ⟨hstart, hforward, hstop, hlt⟩ := h
  by_cases hempty : i.start = i.stop
  · rw [clip?_of_empty hempty, if_pos ⟨hstart, hlt⟩]
  · rw [clip?_of_ne hempty, if_neg (by omega), max_eq_left hstart, min_eq_left hstop]

theorem Fits.clip_cons (is : List Interval) (h : Fits a b i) :
    clip (i :: is) a b = i :: clip is a b :=
  clip_cons_of_some is (h.le_start.trans_lt h.start_lt) h.clip?

/-- The sides of the cut are told apart by where an interval starts, and then by where it stops. -/
theorem divides_of_fits (m : ℤ) (h : ∀ j ∈ whole, Fits a b j) :
    Divides m whole (clip whole a m) (clip whole m b) := by
  induction whole with
  | nil =>
    rw [clip_nil, clip_nil]
    exact .nil
  | cons j rest ih =>
    have ih := ih fun k hk => h k (List.mem_cons_of_mem j hk)
    obtain ⟨hstart, hforward, hstop, hlt⟩ := h j List.mem_cons_self
    rcases le_or_gt m j.start with hafter | hbefore
    · have hfits : Fits m b j := ⟨hafter, hforward, hstop, hlt⟩
      rw [clip_cons_of_none rest (clip?_of_le_start hafter a), hfits.clip_cons]
      exact .after hafter ih
    rcases le_or_gt j.stop m with hwithin | hacross
    · have hfits : Fits a m j := ⟨hstart, hforward, hwithin, hbefore⟩
      rw [hfits.clip_cons, clip_cons_of_none rest (clip?_of_stop_le hwithin (by omega) b)]
      exact .before hbefore hwithin ih
    · have hne : j.start ≠ j.stop := by omega
      have hfirst : clip? a m j = some { j with stop := m } := by
        rw [clip?_of_ne hne, if_neg (by omega), max_eq_left hstart, min_eq_right hacross.le]
      have hsecond : clip? m b j = some { j with start := m } := by
        rw [clip?_of_ne hne, if_neg (by omega), max_eq_right hbefore.le, min_eq_left hstop]
      rw [clip_cons_of_some rest (by omega) hfirst, clip_cons_of_some rest (by omega) hsecond]
      exact .across hbefore hacross ih

theorem divides_clip (h : ∀ i ∈ is, i.start ≤ i.stop) (ham : a ≤ m) (hmb : m ≤ b) :
    Divides m (clip is a b) (clip is a m) (clip is m b) := by
  have hfits : ∀ j ∈ clip is a b, Fits a b j := fun j hj => fits_of_mem_clip h hj
  -- both parts are windows within the whole one
  have hfirst : clip (clip is a b) a m = clip is a m := by
    rw [clip_clip, max_self, min_eq_right hmb]
  have hsecond : clip (clip is a b) m b = clip is m b := by
    rw [clip_clip, max_eq_right ham, min_self]
  have hdivides := divides_of_fits m hfits
  rwa [hfirst, hsecond] at hdivides

/-- A window cut in two loses nothing and doubles nothing. The time in every status is the sum of
the times in the two parts, every interval of no length is in one of the parts as often as in the
whole window and not in the other, and every other interval is divided at the cut. -/
theorem cut_keeps_all (is : List Interval) (h : ∀ i ∈ is, i.start ≤ i.stop) (ham : a ≤ m)
    (hmb : m ≤ b) :
    let whole := clip is a b
    let first := clip is a m
    let second := clip is m b
    (∀ s, Summary.durationIn whole s = Summary.durationIn first s + Summary.durationIn second s) ∧
      (∀ j : Interval, j.start = j.stop →
        whole.count j = first.count j + second.count j ∧ (j ∉ first ∨ j ∉ second)) ∧
      Divides m whole first second := by
  intro whole first second
  have hdivides : Divides m whole first second := divides_clip h ham hmb
  refine ⟨fun s => ?_, fun j hj => ⟨hdivides.count_of_empty hj, ?_⟩, hdivides⟩
  · have hsplit := Summary.durationIn_clip_split is a b m s
    rw [min_eq_left hmb, max_eq_right ham] at hsplit
    exact hsplit.symm
  · rcases le_or_gt m j.start with hafter | hbefore
    · exact .inl fun hin => absurd (hdivides.start_lt_of_mem_first hin) (not_lt.mpr hafter)
    · exact .inr fun hin => absurd (hdivides.le_start_of_mem_second hin) (not_le.mpr hbefore)

/-- Two intervals that meet at 10 with two of no length between them, and one across 10. -/
def aroundTen : List Interval :=
  [⟨"a", .on, -5, 10, false⟩, ⟨"a", .error, 10, 10, false⟩, ⟨"a", .error, 10, 10, false⟩,
    ⟨"a", .off, 10, 15, false⟩, ⟨"b", .on, 8, 25, true⟩]

theorem cut_keeps_all_aroundTen :
    (∀ i ∈ aroundTen, i.start ≤ i.stop) ∧
      clip aroundTen 0 10 = [⟨"a", .on, 0, 10, false⟩, ⟨"b", .on, 8, 10, true⟩] ∧
      (clip aroundTen 10 20).count ⟨"a", .error, 10, 10, false⟩ = 2 ∧
      Summary.durationIn (clip aroundTen 0 20) .on =
        Summary.durationIn (clip aroundTen 0 10) .on +
          Summary.durationIn (clip aroundTen 10 20) .on ∧
      Divides 10 (clip aroundTen 0 20) (clip aroundTen 0 10) (clip aroundTen 10 20) := by
  have hforward : ∀ i ∈ aroundTen, i.start ≤ i.stop := by decide
  obtain ⟨hdurations, -, hdivides⟩ :=
    cut_keeps_all (a := 0) (m := 10) (b := 20) aroundTen hforward (by decide) (by decide)
  exact ⟨hforward, by decide, by decide, hdurations .on, hdivides⟩

/-- An interval that ends before it starts may be in the window and in neither part. -/
example :
    let reversed : Interval := ⟨"a", .on, 15, 5, false⟩
    clip [reversed] 0 20 = [reversed] ∧ clip [reversed] 0 10 = [] ∧ clip [reversed] 10 20 = [] := by
  decide

end LineWatch.Interval
