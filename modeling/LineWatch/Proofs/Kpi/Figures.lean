import LineWatch.Kpi.Daily
import LineWatch.Kpi.Fleet
import LineWatch.Proofs.Interval.Window
import LineWatch.Proofs.Kpi.Durations
import LineWatch.Proofs.Time.Millis

/-!
# When there are figures

The figures of a summary are quotients of durations, so they exist unless the intervals cover an
astronomic time. A summary says of its intervals what time they cover, in all and in each status,
how many of them are repairs and interruptions, and the shares of the statuses. Whole lists of
figures exist if each of them does.
-/

namespace LineWatch

section

variable {α β : Type} {f : α → Option β} {xs : List α} {ys : List β}

theorem mapM_eq_some_iff :
    xs.mapM f = some ys ↔ List.Forall₂ (fun x y => f x = some y) xs ys := by
  induction xs generalizing ys with
  | nil => simp [eq_comm]
  | cons x rest ih =>
    rw [List.mapM_cons, List.forall₂_cons_left_iff]
    simp only [Option.bind_eq_bind, Option.bind_eq_some_iff, Option.pure_def, Option.some.injEq, ih]
    constructor
    · rintro ⟨y, hy, later, hlater, rfl⟩
      exact ⟨y, later, hy, hlater, rfl⟩
    · rintro ⟨y, later, hy, hlater, rfl⟩
      exact ⟨y, hy, later, hlater, rfl⟩

theorem exists_mapM_eq_some (h : ∀ x ∈ xs, ∃ y, f x = some y) : ∃ ys, xs.mapM f = some ys := by
  induction xs with
  | nil => exact ⟨[], rfl⟩
  | cons x rest ih =>
    obtain ⟨y, hy⟩ := h x List.mem_cons_self
    obtain ⟨ys, hys⟩ := ih fun x hx => h x (List.mem_cons_of_mem _ hx)
    exact ⟨y :: ys, by simp [List.mapM_cons, hy, hys]⟩

theorem map_of_mapM {γ : Type} {g : β → γ} {k : α → γ} (hgk : ∀ x y, f x = some y → g y = k x)
    (h : xs.mapM f = some ys) : ys.map g = xs.map k := by
  have hall := mapM_eq_some_iff.mp h
  clear h
  induction hall with
  | nil => rfl
  | cons hxy _ ih => rw [List.map_cons, List.map_cons, hgk _ _ hxy, ih]

theorem exists_of_mem_mapM (h : xs.mapM f = some ys) {y : β} (hy : y ∈ ys) :
    ∃ x ∈ xs, f x = some y := by
  have hall := mapM_eq_some_iff.mp h
  clear h
  induction hall with
  | nil => cases hy
  | @cons x y' rest _ hxy _ ih =>
    rcases List.mem_cons.mp hy with rfl | hy
    · exact ⟨x, List.mem_cons_self, hxy⟩
    · obtain ⟨x, hx, hxy⟩ := ih hy
      exact ⟨x, List.mem_cons_of_mem _ hx, hxy⟩

end

namespace Summary

variable {is : List Interval} {total : ℤ} {s : Status}

/-- A duration that binary64 can divide without leaving its range. -/
def Modest (ms : ℤ) : Prop := |(ms : ℚ)| < twoPow 1000

theorem Modest.of_le {ms : ℤ} (h : Modest total) (h0 : 0 ≤ ms) (hle : ms ≤ total) : Modest ms := by
  unfold Modest at *
  have h0' : (0 : ℚ) ≤ ms := by exact_mod_cast h0
  have hle' : (ms : ℚ) ≤ total := by exact_mod_cast hle
  rw [abs_of_nonneg h0']
  exact (hle'.trans (le_abs_self _)).trans_lt h

theorem modest_durationIn (h : Modest (Interval.covered is)) (s : Status) :
    Modest (durationIn is s) :=
  h.of_le (covered_nonneg _) (covered_filter_le is _)

theorem hoursOf?_isSome {ms : ℤ} (h : Modest ms) : (hoursOf? ms).isSome :=
  Binary64.quotient?_isSome h (by decide)

theorem percentage?_isSome {part : ℤ} (h : Modest part) (total : ℤ) :
    (percentage? part total).isSome := by
  unfold percentage?
  split_ifs with ht
  · rfl
  · rw [Option.isSome_map]
    exact Binary64.quotient?_isSome h (by omega)

theorem share?_isSome {ms : ℤ} (h : Modest ms) (total : ℤ) : (share? ms total).isSome := by
  obtain ⟨hours, hh⟩ := Option.isSome_iff_exists.mp (hoursOf?_isSome h)
  obtain ⟨percentage, hp⟩ := Option.isSome_iff_exists.mp (percentage?_isSome h total)
  rw [share?, hh, hp]
  rfl

theorem shares?_isSome {durations : Status → ℤ} (h : ∀ s, Modest (durations s)) (total : ℤ)
    (statuses : List Status) : (shares? durations total statuses).isSome := by
  induction statuses with
  | nil => rfl
  | cons s rest ih =>
    unfold shares?
    split_ifs
    · exact ih
    · obtain ⟨share, hs⟩ := Option.isSome_iff_exists.mp (share?_isSome (h s) total)
      obtain ⟨later, hl⟩ := Option.isSome_iff_exists.mp ih
      rw [hs, hl]
      rfl

theorem meanRepair?_isSome (h : Modest (Interval.covered is)) : (meanRepair? is).isSome := by
  unfold meanRepair?
  dsimp only
  split_ifs with hempty
  · rfl
  · refine Binary64.quotient?_isSome (h.of_le (covered_nonneg _) (covered_filter_le is _)) ?_
    rw [List.isEmpty_iff] at hempty
    simpa using hempty

/-- What a summary says of the intervals it is made of. -/
structure Describes (summary : Summary) (is : List Interval) : Prop where
  total : summary.total = Interval.covered is
  durations : summary.durations = durationIn is
  uptime : percentage? (durationIn is .on) (Interval.covered is) = some summary.uptimePercentage
  meanRepair : meanRepair? is = some summary.meanRepair
  repairs : summary.repairs = (repairIntervals is).length
  interruptions : summary.interruptions = (is.filter (·.status == .error)).length
  shares : shares? (durationIn is) (Interval.covered is) Status.all = some summary.shares

theorem describes_of? {summary : Summary} (h : of? is = some summary) : summary.Describes is := by
  simp only [of?, over?, Option.bind_eq_bind, Option.bind_eq_some_iff, Option.pure_def,
    Option.some.injEq] at h
  obtain ⟨uptime, hu, mean, hm, shares, hs, rfl⟩ := h
  exact ⟨rfl, rfl, hu, hm, rfl, rfl, hs⟩

/-- Intervals that cover a modest time have a summary with their durations. -/
theorem exists_of? (h : Modest (Interval.covered is)) :
    ∃ summary, of? is = some summary ∧ summary.durations = durationIn is := by
  have hmodest := modest_durationIn h
  obtain ⟨uptime, hu⟩ := Option.isSome_iff_exists.mp
    (percentage?_isSome (hmodest .on) (Interval.covered is))
  obtain ⟨mean, hm⟩ := Option.isSome_iff_exists.mp (meanRepair?_isSome h)
  obtain ⟨shares, hs⟩ := Option.isSome_iff_exists.mp
    (shares?_isSome hmodest (Interval.covered is) Status.all)
  refine ⟨⟨Interval.covered is, durationIn is, uptime, mean, (repairIntervals is).length,
    (is.filter (·.status == .error)).length, shares⟩, ?_, rfl⟩
  simp [of?, over?, hu, hm, hs]

theorem exists_hours? {summary : Summary} (h : Modest (Interval.covered is))
    (hd : summary.durations = durationIn is) (s : Status) : ∃ x, summary.hours? s = some x := by
  rw [hours?, hd]
  exact Option.isSome_iff_exists.mp (hoursOf?_isSome (modest_durationIn h s))

end Summary

theorem DailyFigures.exists_ofBucket? {is : List Interval} {b : Bucket}
    (h : Summary.Modest (Interval.covered (Interval.clip is b.start b.stop))) :
    ∃ row, ofBucket? is b = some row := by
  obtain ⟨summary, hs, hd⟩ := Summary.exists_of? h
  obtain ⟨on, hon⟩ := Summary.exists_hours? h hd .on
  obtain ⟨maintenance, hmaintenance⟩ := Summary.exists_hours? h hd .maintenance
  obtain ⟨error, herror⟩ := Summary.exists_hours? h hd .error
  refine ⟨⟨b.date, on, summary.uptimePercentage, maintenance, error, summary.interruptions,
    summary.meanRepairHours⟩, ?_⟩
  simp [ofBucket?, ofSummary?, hs, hon, hmaintenance, herror]

namespace Interval

theorem covered_window_le (changes : List StatusChange) (start : ℤ) {stop limit : ℤ}
    {now : Option ℤ} (hlimit : firstMilli ≤ limit) (h : knownEnd stop now ≤ limit) :
    covered (window changes start stop now) ≤ limit - firstMilli := by
  rw [covered_window]
  cases hfirst : (changes.map (·.millis)).min? with
  | none => exact sub_nonneg.mpr hlimit
  | some first =>
    obtain ⟨c, -, rfl⟩ := List.mem_map.mp (List.min?_eq_some_iff.mp hfirst).1
    have hle : firstMilli ≤ c.millis := Instant.firstMilli_le_millis c.time
    have hstart := le_max_right start c.millis
    exact max_le (sub_nonneg.mpr hlimit) (by omega)

theorem covered_flatMap {α : Type} (xs : List α) (f : α → List Interval) :
    covered (xs.flatMap f) = (xs.map fun x => covered (f x)).sum := by
  induction xs with
  | nil => rfl
  | cons x rest ih => rw [List.flatMap_cons, covered_append, ih, List.map_cons, List.sum_cons]

end Interval

/-- An offset moves a time by less than a day. -/
theorem Timestamp.millis_le (t : Timestamp) : t.millis ≤ lastMilli + 1 + millisPerDay := by
  have hmicros : t.micros ≤ lastMicro + microsPerDay := by
    have hwall := t.le_last
    cases hoffset : t.offset with
    | none =>
      simp only [micros, hoffset, Option.getD_none, microsPerDay]
      omega
    | some o =>
      have ho := t.offset_lt o hoffset
      simp only [micros, hoffset, Option.getD_some, microsPerMinute, microsPerDay]
      omega
  have hlast : epochMillis (lastMicro + microsPerDay) = lastMilli + 1 + millisPerDay := by
    decide +kernel
  exact hlast ▸ epochMillis_mono hmicros

namespace Kpi

variable {lines : List ProductionLine} {logs : Logs} {window : Window} {now : Option Timestamp}

theorem firstMillis?_eq_min? (changes : List StatusChange) :
    firstMillis? changes = (changes.map (·.millis)).min? := by
  fun_induction firstMillis? changes with
  | case1 => rfl
  | case2 c => rfl
  | case3 c rest hrest ih =>
    rw [ih, List.map_cons, List.min?_cons]
    cases hmin : (rest.map (·.millis)).min? with
    | none =>
      rw [List.min?_eq_none_iff, List.map_eq_nil_iff] at hmin
      exact absurd hmin hrest
    | some m => rfl

/-- A window covers the time from its start, or from the first record, to its known end. -/
theorem covered_intervalsIn (window : Window) (now : Option Timestamp)
    (changes : List StatusChange) : Interval.covered (intervalsIn window now changes) =
      (firstMillis? changes).elim 0 fun first =>
        max 0 (windowEnd window now - max window.start.millis first) := by
  rw [intervalsIn, Interval.covered_window, firstMillis?_eq_min?]
  cases (changes.map (·.millis)).min? <;> rfl

/-- No window reaches further than from the first supported year to a day after the last one. -/
def longestWindow : ℤ := lastMilli + 1 + millisPerDay - firstMilli

theorem covered_intervalsIn_le (window : Window) (now : Option Timestamp)
    (changes : List StatusChange) :
    Interval.covered (intervalsIn window now changes) ≤ longestWindow := by
  refine Interval.covered_window_le changes _ (by decide) ?_
  have hstop := window.stop.millis_le
  cases now with
  | none => exact hstop
  | some now => exact (min_le_left _ _).trans hstop

/-- The time of several lines is too long only for more lines than there could ever be. -/
theorem modest_of_le_mul {ms : ℤ} {n : ℕ} (h0 : 0 ≤ ms) (h : ms ≤ n * longestWindow)
    (hn : n < 2 ^ 200) : Summary.Modest ms := by
  have hlongest : longestWindow < 2 ^ 49 := by decide
  have hn' : (n : ℤ) ≤ 2 ^ 200 := by exact_mod_cast hn.le
  have hlt : ms < 2 ^ 250 := by
    calc ms ≤ n * longestWindow := h
      _ ≤ 2 ^ 200 * 2 ^ 49 := mul_le_mul hn' hlongest.le (by decide) (by norm_num)
      _ < 2 ^ 250 := by norm_num
  have hsmall : |(ms : ℚ)| < twoPow 250 := by
    rw [abs_of_nonneg (by exact_mod_cast h0), twoPow]
    exact_mod_cast hlt
  exact hsmall.trans_le (twoPow_le_twoPow (by norm_num))

theorem exists_of?_intervalsIn (window : Window) (now : Option Timestamp)
    (changes : List StatusChange) :
    ∃ summary, Summary.of? (intervalsIn window now changes) = some summary := by
  have hmodest : Summary.Modest (Interval.covered (intervalsIn window now changes)) :=
    modest_of_le_mul (n := 1) (Summary.covered_nonneg _)
      (by simpa using covered_intervalsIn_le window now changes) (by norm_num)
  obtain ⟨summary, hs, -⟩ := Summary.exists_of? hmodest
  exact ⟨summary, hs⟩

theorem exists_perLine? (lines : List ProductionLine) (logs : Logs) (window : Window)
    (now : Option Timestamp) : ∃ parts, perLine? lines logs window now = some parts :=
  exists_mapM_eq_some fun line _ => exists_of?_intervalsIn window now (logs line.id)

theorem modest_pooled (h : lines.length < 2 ^ 200) : Summary.Modest
    (Interval.covered (lines.flatMap fun line => intervalsIn window now (logs line.id))) := by
  refine modest_of_le_mul (Summary.covered_nonneg _) ?_ h
  rw [Interval.covered_flatMap, ← nsmul_eq_mul]
  have hle := List.sum_le_card_nsmul
    (lines.map fun line => Interval.covered (intervalsIn window now (logs line.id))) longestWindow
  rw [List.length_map] at hle
  apply hle
  intro ms hms
  obtain ⟨line, -, rfl⟩ := List.mem_map.mp hms
  exact covered_intervalsIn_le window now (logs line.id)

theorem exists_pooled? (h : lines.length < 2 ^ 200) (logs : Logs) (window : Window)
    (now : Option Timestamp) : ∃ pooled, pooled? lines logs window now = some pooled ∧
      ∀ s, ∃ hours, pooled.hours? s = some hours := by
  have hmodest : Summary.Modest (Interval.covered
      (lines.flatMap fun line => intervalsIn window now (logs line.id))) := modest_pooled h
  obtain ⟨pooled, hpooled, hdurations⟩ := Summary.exists_of? hmodest
  exact ⟨pooled, hpooled, Summary.exists_hours? hmodest hdurations⟩

end Kpi

theorem LineFigures.exists_of? {line : ProductionLine} {changes : List StatusChange}
    {window : Window} {now : Option Timestamp}
    (h : Summary.Modest (Interval.covered (Kpi.intervalsIn window now changes))) :
    ∃ figures, of? line changes window now = some figures ∧
      figures.summary.durations = Summary.durationIn (Kpi.intervalsIn window now changes) := by
  obtain ⟨summary, hs, hd⟩ := Summary.exists_of? h
  obtain ⟨on, hon⟩ := Summary.exists_hours? h hd .on
  obtain ⟨off, hoff⟩ := Summary.exists_hours? h hd .off
  obtain ⟨maintenance, hmaintenance⟩ := Summary.exists_hours? h hd .maintenance
  obtain ⟨error, herror⟩ := Summary.exists_hours? h hd .error
  refine ⟨⟨line, on, off, maintenance, error, summary⟩, ?_, hd⟩
  simp [of?, hs, hon, hoff, hmaintenance, herror]

end LineWatch
