import LineWatch.Proofs.Kpi.Rows

/-!
# The days before the first record

The days of a line begin with its first record, not with the window. All intervals start with the
first record or later, so nothing is cut off: the days before its date have no data, its own day
shows the same intervals from midnight on and from the first record on, and from then on the days
are the same.
-/

namespace LineWatch

namespace Interval

variable {is : List Interval} {i : Interval} {a b first : ℤ}

theorem clip?_max_left (hfirst : first ≤ i.start) (hforward : i.start ≤ i.stop) (a b : ℤ) :
    clip? (max a first) b i = clip? a b i := by
  unfold clip?
  by_cases hempty : i.start = i.stop
  · have hin : max a first ≤ i.start ↔ a ≤ i.start := by omega
    simp only [if_pos hempty, hin]
  · have hout : i.stop ≤ max a first ↔ i.stop ≤ a := by omega
    have hcut : max i.start (max a first) = max i.start a := by omega
    simp only [if_neg hempty, hout, hcut]

theorem clip_eq_nil_of_le_start (h : ∀ i ∈ is, b ≤ i.start) (a : ℤ) : clip is a b = [] :=
  clip_eq_nil fun i hi => clip?_of_le_start (h i hi) a

/-- It does not matter how long before the first interval a window starts. -/
theorem clip_max_left (hfirst : ∀ i ∈ is, first ≤ i.start)
    (hforward : ∀ i ∈ is, i.start ≤ i.stop) (a b : ℤ) :
    clip is (max a first) b = clip is a b := by
  rcases le_or_gt b first with hbefore | hafter
  · have hlate : ∀ i ∈ is, b ≤ i.start := fun i hi => hbefore.trans (hfirst i hi)
    rw [clip_eq_nil_of_le_start hlate, clip_eq_nil_of_le_start hlate]
  · have hempty : b ≤ max a first ↔ b ≤ a := by omega
    have hclip : is.filterMap (clip? (max a first) b) = is.filterMap (clip? a b) :=
      List.filterMap_congr fun i hi => clip?_max_left (hfirst i hi) (hforward i hi) a b
    simp only [clip, hempty, hclip]

end Interval

/-- The part of a bucket from an instant on. -/
def Bucket.from (first : ℤ) (b : Bucket) : Bucket := { b with start := max b.start first }

namespace Calendar.Days

variable {calendar : Calendar} {start stop first : ℤ} {date later : Date}
  {buckets buckets' : List Bucket}

theorem unique (h : Days calendar start stop date buckets)
    (h' : Days calendar start stop date buckets') : buckets = buckets' := by
  induction h generalizing buckets' with
  | past hpast =>
    cases h' with
    | past => rfl
    | day hday => exact absurd hpast (not_le.mpr hday)
  | day hday hnext days ih =>
    cases h' with
    | past hpast => exact absurd hpast (not_le.mpr hday)
    | day _ _ days' => rw [ih days']

/-- A window that starts later cuts off the start of every day. -/
theorem map_from (h : Days calendar start stop date buckets) (hstart : start ≤ first) :
    Days calendar first stop date (buckets.map (Bucket.from first)) := by
  induction h with
  | past hpast => exact .past hpast
  | @day date buckets hday hnext days ih =>
    have hcut : max (max (calendar.midnightMillis date) start) first =
        max (calendar.midnightMillis date) first := by omega
    rw [List.map_cons, Bucket.from, hcut]
    exact .day hday hnext ih

theorem le_date (h : Days calendar start stop date buckets) :
    ∀ b ∈ buckets, date.day ≤ b.date.day := by
  intro b hb
  have hmem : b.date ∈ List.iterate Date.next date buckets.length :=
    h.dates ▸ List.mem_map_of_mem hb
  exact (Date.mem_iterate_next.mp hmem).1

/-- The days from a later date on. -/
theorem filter_date (hc : calendar.Regular) (h : Days calendar start stop date buckets)
    (hdate : date.isSupported) (hlater : later.isSupported)
    (hbegun : calendar.midnightMillis later < stop) (hle : date.day ≤ later.day) :
    Days calendar start stop later (buckets.filter fun b => later.day ≤ b.date.day) := by
  induction h with
  | past hpast =>
    have hmono := hc.midnightMillis_mono hdate hlater hle
    omega
  | @day date buckets hday hnext days ih =>
    rcases hle.eq_or_lt with heq | hlt
    · obtain rfl : date = later := by
        cases date
        cases later
        exact congrArg Date.mk heq
      have hall : Days calendar start stop date _ := .day hday hnext days
      rwa [List.filter_eq_self.mpr fun b hb => decide_eq_true (hall.le_date b hb)]
    · rw [List.filter_cons_of_neg (by simpa using hlt)]
      exact ih hnext hlt

/-- A day before another one is over when that one begins. -/
theorem stop_le (hc : calendar.Regular) (h : Days calendar start stop date buckets)
    (hlater : later.isSupported) {b : Bucket} (hb : b ∈ buckets) (hlt : b.date.day < later.day) :
    b.stop ≤ calendar.midnightMillis later := by
  induction h with
  | past => cases hb
  | @day date buckets hday hnext days ih =>
    rcases List.mem_cons.mp hb with rfl | hb
    · exact (min_le_left _ _).trans (hc.midnightMillis_mono hnext hlater hlt)
    · exact ih hb

/-- The days from a later start on are those days of the window whose date is not before the one of
the later start, cut off at it. -/
theorem exists_days?_since (hc : calendar.Chronological) (hs : calendar.Spans start stop)
    {begin t : Instant} (hbegin : Instant.ofMillis? start = .ok begin)
    (ht : Instant.ofMillis? first = .ok t) (hstart : start ≤ first) (hstop : first < stop)
    (hmidnight : calendar.midnightMillis (calendar.dateAt t.micros) ≤ first) :
    ∃ buckets, calendar.days? start stop = .ok buckets ∧
      Days calendar start stop (calendar.dateAt begin.micros) buckets ∧
      calendar.days? first stop =
        .ok ((buckets.filter fun b => (calendar.dateAt t.micros).day ≤ b.date.day).map
          (Bucket.from first)) := by
  have hwindow : start < stop := hstart.trans_lt hstop
  have hdate := hs.dates _ begin le_rfl hwindow hbegin
  have hlater := hs.dates _ t hstart hstop ht
  have hle := hc.dateAt_mono begin t (Instant.ofMillis?_mono hbegin ht hstart)
  obtain ⟨buckets, hbuckets, hdays⟩ :=
    Calendar.exists_days?_from hc.toRegular hwindow hbegin hdate hs.last
  obtain ⟨shown, hshown, hshownDays⟩ :=
    Calendar.exists_days?_from hc.toRegular hstop ht hlater hs.last
  have hsince := hdays.filter_date hc.toRegular hdate hlater (hmidnight.trans_lt hstop) hle
  refine ⟨buckets, hbuckets, hdays, ?_⟩
  rw [hshown, hshownDays.unique (hsince.map_from hstart)]

end Calendar.Days

namespace DailyFigures

/-- The row of a day without data. -/
def zero (date : Date) : DailyFigures := ⟨date, .zero, .zero, .zero, .zero, 0, .zero⟩

variable {is : List Interval} {b : Bucket} {first : ℤ}

theorem ofBucket?_of_clip_eq_nil (h : Interval.clip is b.start b.stop = []) :
    ofBucket? is b = some (zero b.date) := by
  have hsummary : Summary.of? [] = some ⟨0, fun _ => 0, .zero, .zero, 0, 0, []⟩ := rfl
  have hhours : Summary.hoursOf? 0 = some .zero := by decide +kernel
  have hrepair : Binary64.zero.divInt millisPerHour = .zero := by decide +kernel
  rw [ofBucket?, h, hsummary]
  simp only [Option.bind_eq_bind, Option.bind_some, ofSummary?, Summary.hours?, hhours,
    Summary.meanRepairHours, hrepair]
  rfl

theorem ofBucket?_from (hfirst : ∀ i ∈ is, first ≤ i.start)
    (hforward : ∀ i ∈ is, i.start ≤ i.stop) (b : Bucket) :
    ofBucket? is (b.from first) = ofBucket? is b := by
  simp only [ofBucket?, Bucket.from, Interval.clip_max_left hfirst hforward]

/-- A day that is over before the first interval begins has no data. -/
theorem eq_zero_of_stop_le (hfirst : ∀ i ∈ is, first ≤ i.start) (hstop : b.stop ≤ first)
    {row : DailyFigures} (hrow : ofBucket? is b = some row) : row = zero row.date := by
  have hempty : Interval.clip is b.start b.stop = [] :=
    Interval.clip_eq_nil_of_le_start (fun i hi => hstop.trans (hfirst i hi)) _
  have hzero : row = zero b.date :=
    Option.some.inj (hrow.symm.trans (ofBucket?_of_clip_eq_nil hempty))
  rw [date_of_ofBucket? hrow]
  exact hzero

end DailyFigures

namespace Kpi

variable {calendar : Calendar} {changes : List StatusChange} {window : Window}
  {now : Option Timestamp} {first : ℤ} {is : List Interval} {buckets : List Bucket}
  {rows : List DailyFigures}

theorem rowsOf_filter_date (p : Date → Bool) (h : rowsOf is buckets = .ok rows) :
    rowsOf is (buckets.filter fun b => p b.date) = .ok (rows.filter fun r => p r.date) := by
  have hrows := mapM_eq_some_iff.mp (mapM_of_rowsOf h)
  have hfilter : List.Forall₂ (fun b row => DailyFigures.ofBucket? is b = some row)
      (buckets.filter fun b => p b.date) (rows.filter fun r => p r.date) := by
    refine List.rel_filter (fun b row hrow => ?_) hrows
    dsimp only
    rw [DailyFigures.date_of_ofBucket? hrow]
  rw [rowsOf, mapM_eq_some_iff.mpr hfilter]

theorem rowsOf_map_from (hfirst : ∀ i ∈ is, first ≤ i.start)
    (hforward : ∀ i ∈ is, i.start ≤ i.stop) (buckets : List Bucket) :
    rowsOf is (buckets.map (Bucket.from first)) = rowsOf is buckets := by
  have hsame : DailyFigures.ofBucket? is ∘ Bucket.from first = DailyFigures.ofBucket? is :=
    funext fun b => DailyFigures.ofBucket?_from hfirst hforward b
  rw [rowsOf, rowsOf, List.mapM_map, hsame]

theorem modest_intervalsIn (window : Window) (now : Option Timestamp)
    (changes : List StatusChange) :
    Summary.Modest (Interval.covered (intervalsIn window now changes)) :=
  modest_of_le_mul (n := 1) (Summary.covered_nonneg _)
    (by simpa using covered_intervalsIn_le window now changes) (by norm_num)

theorem lineDaily_of_zone {name : Option String} {zone : Zone} (h : Zone.ofName? name = some zone)
    (changes : List StatusChange) (window : Window) (now : Option Timestamp) :
    lineDaily name changes window now = lineDailyIn zone.calendar changes window now := by
  rw [lineDaily, daily_of_zone h, lineDailyIn]

/-- The date of a record is that of its millisecond, unless that lies in the next second. -/
theorem dateAt_of_millis {zone : Zone} {c : StatusChange} {t : Instant}
    (ht : Instant.ofMillis? c.millis = .ok t)
    (hsecond : c.time.micros / microsPerSecond = c.millis / 1000) :
    zone.calendar.dateAt c.time.micros = zone.calendar.dateAt t.micros :=
  zone.dateAt_eq_of_ediv_eq (hsecond.trans (Instant.micros_ediv_of_ofMillis? ht).symm)

/-- The rows of a line by day are those rows of its window whose date is not before the one of the
first millisecond of its log. The rows before them are without data. -/
theorem lineDaily_skips_zero (hc : calendar.Chronological)
    (hs : calendar.Spans window.start.millis (windowEnd window now))
    (hfirst : firstMillis? changes = some first) (hstart : window.start.millis ≤ first)
    (hstop : first < windowEnd window now) (hlo : firstMilli ≤ window.start.millis)
    (hhi : first ≤ lastMilli) :
    ∃ t rows, Instant.ofMillis? first = .ok t ∧
      dailyIn calendar (lineIntervals changes window now) window.start.millis
        (windowEnd window now) = .ok rows ∧
      lineDailyIn calendar changes window now =
        .ok (rows.filter fun r => (calendar.dateAt t.micros).day ≤ r.date.day) ∧
      (∀ r ∈ rows, r.date.day < (calendar.dateAt t.micros).day → r = .zero r.date) ∧
      ∀ name zone, Zone.ofName? name = some zone → zone.calendar = calendar →
        daily name (lineIntervals changes window now) window.start.millis
          (windowEnd window now) = .ok rows ∧
        lineDaily name changes window now = lineDailyIn calendar changes window now ∧
        ∀ c ∈ changes, c.millis = first → c.time.micros / microsPerSecond = first / 1000 →
          calendar.dateAt c.time.micros = calendar.dateAt t.micros := by
  obtain ⟨t, ht, hmillis⟩ := Instant.exists_ofMillis? (hlo.trans hstart) hhi
  obtain ⟨begin, hbegin, -⟩ := Instant.exists_ofMillis? hlo (hstart.trans hhi)
  set is := lineIntervals changes window now with his
  have hmin : (changes.map (·.millis)).min? = some first := by
    rw [← firstMillis?_eq_min?, hfirst]
  have hfrom : ∀ i ∈ is, first ≤ i.start := Interval.min?_millis_le_start hmin
  have hforward : ∀ i ∈ is, i.start ≤ i.stop := (Interval.inOrder_resolve changes _).forward
  have hlater := hs.dates _ t hstart hstop ht
  have hmidnight : calendar.midnightMillis (calendar.dateAt t.micros) ≤ first :=
    hmillis ▸ epochMillis_mono (hc.midnight_le t hlater)
  obtain ⟨buckets, hbuckets, hdays, hshown⟩ :=
    Calendar.Days.exists_days?_since hc hs hbegin ht hstart hstop hmidnight
  have hmodest : Summary.Modest (Interval.covered (Interval.clip is _ _)) :=
    modest_intervalsIn window now changes
  obtain ⟨rows, hrows, -⟩ := exists_rows hdays.within hmodest
  have hdaily : dailyIn calendar is window.start.millis (windowEnd window now) = .ok rows := by
    rw [dailyIn, hbuckets]
    exact hrows
  refine ⟨t, rows, ht, hdaily, ?_, fun r hr hbefore => ?_, fun name zone hname hzone => ?_⟩
  · have hfilter := rowsOf_filter_date (fun d => (calendar.dateAt t.micros).day ≤ d.day) hrows
    rw [lineDailyIn, ofLine, hfirst]
    dsimp only
    rw [max_eq_right hstart, dailyIn, hshown, ← his]
    exact (rowsOf_map_from hfrom hforward _).trans hfilter
  · obtain ⟨b, hb, hrow⟩ := exists_of_mem_mapM (mapM_of_rowsOf hrows) hr
    have hdate := DailyFigures.date_of_ofBucket? hrow
    have hover := hdays.stop_le hc.toRegular hlater hb (hdate ▸ hbefore)
    exact DailyFigures.eq_zero_of_stop_le hfrom (hover.trans hmidnight) hrow
  · subst hzone
    refine ⟨by rw [daily_of_zone hname, hdaily], lineDaily_of_zone hname _ _ _, ?_⟩
    rintro c - rfl hsecond
    exact dateAt_of_millis ht hsecond

theorem lineDaily_skips_zero_spring : havana.calendar.Chronological ∧
    havana.calendar.Spans springWindow.start.millis (windowEnd springWindow none) ∧
    firstMillis? springLog = some 1710003600000 ∧
    ∃ rows, daily (some "America/Havana") (lineIntervals springLog springWindow none)
        springWindow.start.millis (windowEnd springWindow none) = .ok rows ∧
      lineDaily (some "America/Havana") springLog springWindow none =
        .ok (rows.filter fun r => (Date.ofCivil 2024 3 9).day ≤ r.date.day) ∧
      ∀ r ∈ rows, r.date = .ofCivil 2024 3 8 → r = .zero r.date := by
  have hzone : Zone.ofName? (some "America/Havana") = some havana := by decide +kernel
  have hchronological := Zone.chronological_of_ofName? hzone
  have hspans : havana.calendar.Spans springWindow.start.millis (windowEnd springWindow none) :=
    Zone.spans_of_ofName? hzone (by decide +kernel) (by decide +kernel)
  have hfirst : firstMillis? springLog = some 1710003600000 := by decide +kernel
  obtain ⟨t, rows, ht, -, hlineDaily, hzero, hnamed⟩ := lineDaily_skips_zero hchronological hspans
    hfirst (by decide +kernel) (by decide +kernel) (by decide +kernel) (by decide)
  obtain ⟨hdaily, hnamedDaily, -⟩ := hnamed _ _ hzone rfl
  have hnoon : Instant.ofMillis? 1710003600000 =
      .ok ⟨1710003600000000, by decide, by decide⟩ := by decide +kernel
  obtain rfl : (⟨1710003600000000, by decide, by decide⟩ : Instant) = t :=
    Except.ok.inj (hnoon.symm.trans ht)
  have hdate : havana.calendar.dateAt 1710003600000000 = .ofCivil 2024 3 9 := by decide +kernel
  simp only [hdate] at hlineDaily hzero
  refine ⟨hchronological, hspans, hfirst, rows, hdaily, hnamedDaily.trans hlineDaily, ?_⟩
  intro r hr hdate
  exact hzero r hr (hdate ▸ by decide)

/-- A line that is switched on three tenths of a millisecond before the end of 1 January 2024. -/
def newYearLog : List StatusChange := [
  { time := ⟨1704153599999700, by decide, by decide⟩, lineId := "a", newStatus := .on }]

/-- From 1 January 2024 to 3 January 2024. -/
def newYearWindow : Window := .ofInstants ⟨1704067200000000, by decide, by decide⟩
  ⟨1704240000000000, by decide, by decide⟩

/-- The date of the record is 1 January, but its millisecond is the first one of 2 January, with
which the rows of the line begin. -/
theorem lineDaily_newYear :
    let is := lineIntervals newYearLog newYearWindow none
    firstMillis? newYearLog = some 1704153600000 ∧
      newYearWindow.start.millis = 1704067200000 ∧
      windowEnd newYearWindow none = 1704240000000 ∧
      newYearLog.map (fun c => Zone.utc.calendar.dateAt c.time.micros) = [.ofCivil 2024 1 1] ∧
      (daily none is newYearWindow.start.millis (windowEnd newYearWindow none)).map
        (List.map (·.date)) = .ok [.ofCivil 2024 1 1, .ofCivil 2024 1 2] ∧
      (lineDaily none newYearLog newYearWindow none).map (List.map (·.date)) =
        .ok [.ofCivil 2024 1 2] := by
  have hsort : StatusChange.sort newYearLog = newYearLog := List.mergeSort_singleton _
  have his : lineIntervals newYearLog newYearWindow none =
      Interval.ofOrdered (windowEnd newYearWindow none) newYearLog := by
    rw [lineIntervals, Interval.resolve, hsort]
  rw [lineDaily, his]
  decide +kernel

end Kpi

end LineWatch
