import LineWatch.Proofs.Interval.Window
import LineWatch.Proofs.Kpi.Figures
import LineWatch.Proofs.Time.ZoneMidnight

/-!
# The days of a line add up to its window

The figures of a line by day and over the whole window are taken from the same intervals. The
window is clipped once; the days begin with the first record, go through a calendar and are clipped
one by one. For every status the time in the days adds up to the time in the window, whatever the
length of the days.
-/

namespace LineWatch

theorem Timestamp.millis_le_of_toInstant? {t : Timestamp} (h : t.toInstant?.isSome) :
    t.millis ≤ lastMilli + 1 := by
  obtain ⟨i, hi⟩ := Option.isSome_iff_exists.mp h
  unfold toInstant? Instant.ofMicros? at hi
  split_ifs at hi with hrange
  exact Instant.millis_le_succ_lastMilli ⟨t.micros, hrange.1, hrange.2⟩

namespace Interval

/-- A window that ends within the supported years covers no more than these years. -/
theorem modest_covered_window (changes : List StatusChange) (start : ℤ) {stop : ℤ}
    {now : Option ℤ} (h : knownEnd stop now ≤ lastMilli + 1) :
    Summary.Modest (covered (window changes start stop now)) := by
  have hbound : Summary.Modest (lastMilli + 1 - firstMilli) := by
    have hlt : |((lastMilli + 1 - firstMilli : ℤ) : ℚ)| < twoPow 49 := by
      norm_num [twoPow, lastMilli, firstMilli]
    exact hlt.trans_le (twoPow_le_twoPow (by norm_num))
  exact hbound.of_le (Summary.covered_nonneg _) (covered_window_le changes start (by decide) h)

theorem min?_millis_le_start {changes : List StatusChange} {now first : ℤ}
    (hfirst : (changes.map (·.millis)).min? = some first) :
    ∀ i ∈ resolve changes now, first ≤ i.start := by
  intro i hi
  obtain ⟨c, hc, he⟩ := exists_start_eq hi
  rw [he]
  exact (List.min?_eq_some_iff.mp hfirst).2 _ (List.mem_map_of_mem (StatusChange.mem_sort.mp hc))

end Interval

namespace Kpi

variable {calendar : Calendar} {changes : List StatusChange} {window : Window}
  {now : Option Timestamp}

theorem daily_of_zone {zone : Option String} {z : Zone} (hz : Zone.ofName? zone = some z)
    (is : List Interval) : daily zone is = dailyIn z.calendar is := by
  funext start stop
  unfold daily dailyIn Calendar.days?
  split_ifs with hempty
  · rfl
  · rw [hz]

/-- The buckets behind the rows of a line. -/
def lineBuckets (calendar : Calendar) (changes : List StatusChange) (window : Window)
    (now : Option Timestamp) : Except QueryError (List Bucket) :=
  ofLine calendar.days? changes window now

theorem lineDailyIn_eq_bind (calendar : Calendar) (changes : List StatusChange) (window : Window)
    (now : Option Timestamp) : lineDailyIn calendar changes window now =
      (lineBuckets calendar changes window now).bind
        (rowsOf (lineIntervals changes window now)) := by
  unfold lineDailyIn lineBuckets ofLine
  cases firstMillis? changes <;> rfl

theorem windowEnd_le (hstop : window.stop.toInstant?.isSome) (now : Option Timestamp) :
    windowEnd window now ≤ lastMilli + 1 := by
  have hle := Timestamp.millis_le_of_toInstant? hstop
  cases now with
  | none => exact hle
  | some now => exact (min_le_left _ _).trans hle

/-- Buckets within a window of modest cover have rows. -/
theorem exists_rows {is : List Interval} {start stop : ℤ} {buckets : List Bucket}
    (hwithin : ∀ b ∈ buckets, start ≤ b.start ∧ b.stop ≤ stop)
    (hmodest : Summary.Modest (Interval.covered (Interval.clip is start stop))) :
    ∃ rows, rowsOf is buckets = .ok rows ∧
      List.Forall₂ (fun b row => DailyFigures.ofBucket? is b = some row) buckets rows := by
  obtain ⟨rows, hrows⟩ := exists_mapM_eq_some (f := DailyFigures.ofBucket? is)
    fun b hb => DailyFigures.exists_ofBucket? <| hmodest.of_le (Summary.covered_nonneg _) <|
      Summary.covered_clip_mono (hwithin b hb).1 (hwithin b hb).2
  exact ⟨rows, by rw [rowsOf, hrows], mapM_eq_some_iff.mp hrows⟩

/-- The buckets of a line lie in its window, and the time they hold adds up to its time. -/
theorem exists_lineBuckets (hc : calendar.Regular) (hstop : window.stop.toInstant?.isSome)
    (hr : ∀ first ∈ firstMillis? changes,
      calendar.Reaches (max window.start.millis first) (windowEnd window now)) :
    ∃ buckets, lineBuckets calendar changes window now = .ok buckets ∧
      (∀ b ∈ buckets, window.start.millis ≤ b.start ∧ b.stop ≤ windowEnd window now) ∧
      ∀ s, (buckets.map fun b => Summary.durationIn
        (Interval.clip (lineIntervals changes window now) b.start b.stop) s).sum =
          Summary.durationIn (intervalsIn window now changes) s := by
  have hknown := windowEnd_le hstop now
  unfold lineBuckets ofLine
  cases hfirst : firstMillis? changes with
  | none =>
    have hnil : changes = [] := by
      rwa [firstMillis?_eq_min?, List.min?_eq_none_iff, List.map_eq_nil_iff] at hfirst
    subst hnil
    refine ⟨[], rfl, by simp, fun s => ?_⟩
    rw [intervalsIn, Interval.window, Interval.resolve_nil, Interval.clip_nil]
    rfl
  | some first =>
    have hmin : (changes.map (·.millis)).min? = some first := by
      rw [← firstMillis?_eq_min?, hfirst]
    have hwindow : ∀ s, Summary.durationIn (intervalsIn window now changes) s =
        Summary.durationIn (Interval.clip (lineIntervals changes window now)
          (max window.start.millis first) (windowEnd window now)) s :=
      fun s => (Summary.durationIn_clip_max_left (Interval.min?_millis_le_start hmin)).symm
    dsimp only
    by_cases hempty : windowEnd window now ≤ max window.start.millis first
    · refine ⟨[], by rw [Calendar.days?, if_pos hempty], by simp, fun s => ?_⟩
      rw [hwindow, Summary.durationIn_clip_of_le hempty]
      rfl
    · have hlt := not_le.mp hempty
      obtain ⟨c, -, rfl⟩ := List.mem_map.mp (List.min?_eq_some_iff.mp hmin).1
      have hlo : firstMilli ≤ c.millis := Instant.firstMilli_le_millis c.time
      obtain ⟨date, buckets, hdays, hsplit, hdate, hbegins⟩ :=
        Calendar.exists_days? hc (hr c.millis hfirst) hlt (hlo.trans (le_max_right _ _)) (by omega)
      refine ⟨buckets, hdays, fun b hb => ?_, fun s => ?_⟩
      · exact ⟨(le_max_left _ _).trans (hsplit.within b hb).1, (hsplit.within b hb).2⟩
      · rw [hsplit.sum_durationIn hc hdate, max_eq_right hbegins, hwindow]

/-- The rows of a line by day exist, and for every status the time in their buckets adds up to
the time that the figures of the line give for the whole window. -/
theorem daily_durations_add_up (hc : calendar.Regular) (hstop : window.stop.toInstant?.isSome)
    (hr : ∀ first ∈ firstMillis? changes,
      calendar.Reaches (max window.start.millis first) (windowEnd window now)) :
    ∃ buckets rows, lineBuckets calendar changes window now = .ok buckets ∧
      lineDailyIn calendar changes window now = .ok rows ∧
      List.Forall₂ (fun b row =>
        DailyFigures.ofBucket? (lineIntervals changes window now) b = some row) buckets rows ∧
      (∀ zone z, Zone.ofName? zone = some z → z.calendar = calendar →
        lineDaily zone changes window now = .ok rows) ∧
      (∀ s, (buckets.map fun b => Summary.durationIn
        (Interval.clip (lineIntervals changes window now) b.start b.stop) s).sum =
          Summary.durationIn (intervalsIn window now changes) s) ∧
      ∀ line, ∃ figures, LineFigures.of? line changes window now = some figures ∧
        figures.summary.durations = Summary.durationIn (intervalsIn window now changes) := by
  obtain ⟨buckets, hbuckets, hwithin, hsum⟩ := exists_lineBuckets hc hstop hr
  have hmodest : Summary.Modest (Interval.covered (intervalsIn window now changes)) := by
    exact Interval.modest_covered_window _ _ (windowEnd_le hstop now)
  obtain ⟨rows, hrows, hall⟩ := exists_rows hwithin hmodest
  have hdaily : lineDailyIn calendar changes window now = .ok rows := by
    rw [lineDailyIn_eq_bind, hbuckets]
    exact hrows
  refine ⟨buckets, rows, hbuckets, hdaily, hall, fun zone z hz he => ?_, hsum,
    fun line => LineFigures.exists_of? hmodest⟩
  rw [← hdaily, ← he, lineDaily, daily_of_zone hz]
  rfl

def havana : Zone := ⟨-18000, [⟨1710046800, -14400⟩, ⟨1730610000, -18000⟩]⟩

/-- A line that is switched on in Havana at noon of 9 March 2024, and fails the next morning. The
midnight between the two is skipped. -/
def springLog : List StatusChange := [
  { time := ⟨1710064800000000, by decide, by decide⟩, lineId := "a", newStatus := .error },
  { time := ⟨1710003600000000, by decide, by decide⟩, lineId := "a", newStatus := .on }]

/-- From 9 March 2024 to 12 March 2024 in UTC. -/
def springWindow : Window := .ofInstants ⟨1709942400000000, by decide, by decide⟩
  ⟨1710201600000000, by decide, by decide⟩

theorem reaches_spring : ∀ first ∈ firstMillis? springLog,
    havana.calendar.Reaches (max springWindow.start.millis first) (windowEnd springWindow none) := by
  have hstart : ∀ first ∈ firstMillis? springLog,
      max springWindow.start.millis first = 1710003600000 := by decide +kernel
  intro first hfirst
  rw [hstart first hfirst]
  refine ⟨fun t ht => ?_, .ofCivil 2024 3 13, by decide +kernel, by decide +kernel⟩
  have hlo : 1710003599000000 < t.micros := by
    by_contra! hle
    have hmono := epochMillis_mono hle
    have heval : epochMillis 1710003599000000 = 1710003599000 := by decide +kernel
    change t.millis ≤ _ at hmono
    omega
  have hhi : t.micros < 1710003601000000 := by
    by_contra! hle
    have hmono := epochMillis_mono hle
    have heval : epochMillis 1710003601000000 = 1710003601000 := by decide +kernel
    change _ ≤ t.millis at hmono
    omega
  have hoffset : havana.offsetAt t.micros = -18000 := by
    have hearly : ¬1710046800 * microsPerSecond ≤ t.micros := by
      simp only [microsPerSecond]
      omega
    rw [Zone.offsetAt, havana, Zone.offsetFrom, if_neg hearly]
  simp only [Zone.calendar, hoffset, Date.isSupported, microsPerSecond, microsPerDay,
    Bool.and_eq_true, decide_eq_true_eq]
  omega

theorem daily_durations_add_up_spring : havana.calendar.Regular ∧
    springWindow.stop.toInstant?.isSome ∧
    (∀ first ∈ firstMillis? springLog, havana.calendar.Reaches
      (max springWindow.start.millis first) (windowEnd springWindow none)) ∧
    ∃ buckets rows, lineBuckets havana.calendar springLog springWindow none = .ok buckets ∧
      lineDaily (some "America/Havana") springLog springWindow none = .ok rows ∧
      ∀ s, (buckets.map fun b => Summary.durationIn
        (Interval.clip (lineIntervals springLog springWindow none) b.start b.stop) s).sum =
          Summary.durationIn (intervalsIn springWindow none springLog) s := by
  have hzone : Zone.ofName? (some "America/Havana") = some havana := by decide +kernel
  have hregular := Zone.regular_of_ofName? hzone
  have hstop : springWindow.stop.toInstant?.isSome := by decide +kernel
  obtain ⟨buckets, rows, hbuckets, -, -, hdaily, hsum, -⟩ :=
    daily_durations_add_up hregular hstop reaches_spring
  exact ⟨hregular, hstop, reaches_spring, buckets, rows, hbuckets, hdaily _ _ hzone rfl, hsum⟩

end Kpi

end LineWatch
