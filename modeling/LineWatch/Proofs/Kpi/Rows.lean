import LineWatch.Proofs.Kpi.DailyAgreement
import LineWatch.Proofs.Time.ZoneDates

/-!
# The dates and the buckets of a window

The dates of a window follow each other from the date of its start, and the dates of all its
instants are among them. A date that is skipped has an empty bucket. The other buckets tile the
window: each of them starts where the one before ends. Nothing is asked of a calendar but the order
of its dates and midnights.
-/

namespace LineWatch

/-- Buckets that are not empty, each of them up to the start of the next one. -/
def Bucket.Tiles : (start : ℤ) → List Bucket → (stop : ℤ) → Prop
  | start, [], stop => start = stop
  | start, b :: rest, stop => b.start = start ∧ b.start < b.stop ∧ Tiles b.stop rest stop

namespace Bucket.Tiles

variable {start stop : ℤ} {buckets : List Bucket}

theorem le (h : Tiles start buckets stop) : start ≤ stop := by
  induction buckets generalizing start with
  | nil => exact h.le
  | cons b rest ih =>
    obtain ⟨rfl, hlt, hrest⟩ := h
    exact hlt.le.trans (ih hrest)

theorem exists_mem_iff (h : Tiles start buckets stop) (ms : ℤ) :
    (∃ b ∈ buckets, b.start ≤ ms ∧ ms < b.stop) ↔ start ≤ ms ∧ ms < stop := by
  induction buckets generalizing start with
  | nil =>
    obtain rfl : start = stop := h
    simp
  | cons b rest ih =>
    obtain ⟨rfl, hlt, hrest⟩ := h
    have hle := hrest.le
    simp only [List.exists_mem_cons_iff, ih hrest]
    omega

end Bucket.Tiles

theorem Date.mem_iterate_next {d date : Date} {n : ℕ} :
    d ∈ List.iterate next date n ↔ date.day ≤ d.day ∧ d.day < date.day + n := by
  induction n generalizing date with
  | zero => simp
  | succ n ih =>
    have heq : d = date ↔ d.day = date.day := by
      cases d
      cases date
      simp
    simp only [List.iterate, List.mem_cons, ih, heq, next]
    omega

namespace Calendar

variable {calendar : Calendar} {start stop : ℤ} {date : Date} {buckets : List Bucket}
  {first : Instant}

namespace Days

theorem dates (h : Days calendar start stop date buckets) :
    buckets.map (·.date) = List.iterate Date.next date buckets.length := by
  induction h with
  | past => rfl
  | day hday hnext later ih => rw [List.map_cons, ih, List.length_cons, List.iterate]

theorem midnight_lt (h : Days calendar start stop date buckets) :
    ∀ b ∈ buckets, calendar.midnightMillis b.date < stop := by
  induction h with
  | past => simp
  | day hday hnext later ih => exact List.forall_mem_cons.mpr ⟨hday, ih⟩

/-- The window is over at the midnight after the last of the dates. -/
theorem ends (h : Days calendar start stop date buckets) (hdate : date.isSupported) :
    ∃ d : Date, d.isSupported ∧ d.day = date.day + buckets.length ∧
      stop ≤ calendar.midnightMillis d := by
  induction h with
  | @past date hpast => exact ⟨date, hdate, by simp, hpast⟩
  | day hday hnext later ih =>
    obtain ⟨d, hd, hlast, hstop⟩ := ih hnext
    refine ⟨d, hd, ?_, hstop⟩
    simp only [hlast, Date.next, List.length_cons]
    omega

theorem tiles (hc : calendar.Regular) (hwindow : start ≤ stop)
    (h : Days calendar start stop date buckets) (hdate : date.isSupported) :
    Bucket.Tiles (min (max (calendar.midnightMillis date) start) stop)
      (buckets.filter fun b => b.start < b.stop) stop := by
  induction h with
  | past hpast => exact min_eq_right (le_max_of_le_left hpast)
  | @day date buckets hday hnext later ih =>
    have hle : calendar.midnightMillis date ≤ calendar.midnightMillis date.next :=
      hc.midnightMillis_mono hdate hnext (by simp [Date.next])
    have hrest := ih hnext
    rw [List.filter_cons]
    dsimp only
    split_ifs with hopen
    · rw [decide_eq_true_eq] at hopen
      have hlater : min (max (calendar.midnightMillis date.next) start) stop =
          min (calendar.midnightMillis date.next) stop := by omega
      exact ⟨by dsimp only; omega, hopen, hlater ▸ hrest⟩
    · -- an empty day leaves the start of the next one where its own is
      rw [decide_eq_true_eq] at hopen
      have hsame : min (max (calendar.midnightMillis date.next) start) stop =
          min (max (calendar.midnightMillis date) start) stop := by omega
      exact hsame ▸ hrest

/-- The date of an instant of the window comes before the midnight at which the window is over. -/
theorem mem_dates (hc : calendar.Chronological) (hs : calendar.Spans start stop)
    (hfirst : Instant.ofMillis? start = .ok first)
    (h : Days calendar start stop (calendar.dateAt first.micros) buckets)
    (hdate : (calendar.dateAt first.micros).isSupported) {ms : ℤ} {t : Instant}
    (hlo : start ≤ ms) (hhi : ms < stop) (ht : Instant.ofMillis? ms = .ok t) :
    calendar.dateAt t.micros ∈ buckets.map (·.date) := by
  obtain ⟨d, hd, hlast, hstop⟩ := h.ends hdate
  have hsupported := hs.dates ms t hlo hhi ht
  have hbegun : calendar.midnightMillis (calendar.dateAt t.micros) ≤ ms :=
    Instant.millis_of_ofMillis? ht ▸ epochMillis_mono (hc.midnight_le t hsupported)
  rw [h.dates, Date.mem_iterate_next]
  refine ⟨hc.dateAt_mono first t (Instant.ofMillis?_mono hfirst ht hlo), ?_⟩
  by_contra! hafter
  have hmono := hc.midnightMillis_mono hd hsupported (hlast.trans_le hafter)
  omega

end Days

/-- How the buckets of a window split it that starts at `first`. -/
structure Splits (calendar : Calendar) (start stop : ℤ) (first : Instant)
    (buckets : List Bucket) : Prop where
  dates : buckets.map (·.date) =
    List.iterate Date.next (calendar.dateAt first.micros) buckets.length
  mem_dates : ∀ ms t, start ≤ ms → ms < stop → Instant.ofMillis? ms = .ok t →
    calendar.dateAt t.micros ∈ buckets.map (·.date)
  midnight_lt : ∀ b ∈ buckets, calendar.midnightMillis b.date < stop
  tiles : Bucket.Tiles start (buckets.filter fun b => b.start < b.stop) stop
  within : ∀ b ∈ buckets, start ≤ b.start ∧ b.stop ≤ stop

namespace Splits

/-- Each millisecond of the window lies in a bucket, and no other does. -/
theorem exists_mem_iff (h : calendar.Splits start stop first buckets) (ms : ℤ) :
    (∃ b ∈ buckets, b.start ≤ ms ∧ ms < b.stop) ↔ start ≤ ms ∧ ms < stop := by
  rw [← h.tiles.exists_mem_iff]
  constructor
  · rintro ⟨b, hb, hin⟩
    exact ⟨b, List.mem_filter.mpr ⟨hb, decide_eq_true (hin.1.trans_lt hin.2)⟩, hin⟩
  · rintro ⟨b, hb, hin⟩
    exact ⟨b, List.mem_of_mem_filter hb, hin⟩

/-- The dates of a zone change with whole seconds, so that those of all microseconds are among
the dates. -/
theorem mem_dates_of_zone {zone : Zone} (h : zone.calendar.Splits start stop first buckets)
    {t : Instant} (hlo : 1000 * start ≤ t.micros) (hhi : t.micros < 1000 * stop) :
    zone.calendar.dateAt t.micros ∈ buckets.map (·.date) := by
  have hfirst := t.first_le
  have hlast := t.le_last
  simp only [firstMicro, lastMicro] at hfirst hlast
  have hbounds : firstMilli ≤ t.micros / 1000 ∧ t.micros / 1000 ≤ lastMilli := by
    unfold firstMilli lastMilli
    omega
  obtain ⟨t', ht', -⟩ := Instant.exists_ofMillis? hbounds.1 hbounds.2
  have hsecond : t.micros / microsPerSecond = t'.micros / microsPerSecond := by
    rw [Instant.micros_ediv_of_ofMillis? ht']
    unfold microsPerSecond
    omega
  rw [zone.dateAt_eq_of_ediv_eq hsecond]
  exact h.mem_dates _ t' (by omega) (by omega) ht'

end Splits

theorem exists_splits (hc : calendar.Chronological) (hs : calendar.Spans start stop)
    (hwindow : start < stop) (hfirst : Instant.ofMillis? start = .ok first) :
    ∃ buckets, calendar.days? start stop = .ok buckets ∧
      calendar.Splits start stop first buckets := by
  have hdate := hs.dates start first le_rfl hwindow hfirst
  obtain ⟨buckets, hdays, hsplit⟩ :=
    exists_days?_from hc.toRegular hwindow hfirst hdate hs.last
  have hbegins : calendar.midnightMillis (calendar.dateAt first.micros) ≤ start :=
    Instant.millis_of_ofMillis? hfirst ▸ epochMillis_mono (hc.midnight_le first hdate)
  refine ⟨buckets, hdays, hsplit.dates, ?_, hsplit.midnight_lt, ?_, hsplit.within⟩
  · exact fun ms t hlo hhi ht => hsplit.mem_dates hc hs hfirst hdate hlo hhi ht
  · have htiles := hsplit.tiles hc.toRegular hwindow.le hdate
    rwa [max_eq_right hbegins, min_eq_left hwindow.le] at htiles

end Calendar

theorem DailyFigures.date_of_ofBucket? {is : List Interval} {b : Bucket} {row : DailyFigures}
    (h : ofBucket? is b = some row) : row.date = b.date := by
  simp only [ofBucket?, ofSummary?, Option.bind_eq_bind, Option.bind_eq_some_iff, Option.pure_def,
    Option.some.injEq] at h
  obtain ⟨-, -, -, -, -, -, -, -, rfl⟩ := h
  rfl

namespace Kpi

variable {calendar : Calendar} {is : List Interval} {start stop : ℤ} {first : Instant}
  {buckets : List Bucket} {rows : List DailyFigures}

theorem mapM_of_rowsOf (h : rowsOf is buckets = .ok rows) :
    buckets.mapM (DailyFigures.ofBucket? is) = some rows := by
  unfold rowsOf at h
  split at h
  · next hrows =>
    cases h
    exact hrows
  · cases h

/-- The rows of a window by day are those of buckets that split it at the midnights. Only a
duration beyond binary64 keeps them from being given. -/
theorem daily_splits_window (hc : calendar.Chronological) (hs : calendar.Spans start stop)
    (hwindow : start < stop) (hfirst : Instant.ofMillis? start = .ok first) (is : List Interval) :
    ∃ buckets, calendar.Splits start stop first buckets ∧
      (∀ zone : Zone, zone.calendar = calendar → ∀ t : Instant,
        1000 * start ≤ t.micros → t.micros < 1000 * stop →
          calendar.dateAt t.micros ∈ buckets.map (·.date)) ∧
      (∀ ms, (∃ b ∈ buckets, b.start ≤ ms ∧ ms < b.stop) ↔ start ≤ ms ∧ ms < stop) ∧
      dailyIn calendar is start stop = rowsOf is buckets ∧
      (∀ name zone, Zone.ofName? name = some zone → zone.calendar = calendar →
        daily name is start stop = rowsOf is buckets) ∧
      (Summary.Modest (is.length * (stop - start)) → ∃ rows, rowsOf is buckets = .ok rows) ∧
      ∀ rows, rowsOf is buckets = .ok rows →
        rows.map (·.date) = buckets.map (·.date) ∧
        List.Forall₂ (fun b row => DailyFigures.ofBucket? is b = some row) buckets rows := by
  obtain ⟨buckets, hdays, hsplits⟩ := Calendar.exists_splits hc hs hwindow hfirst
  have hdaily : dailyIn calendar is start stop = rowsOf is buckets := by
    rw [dailyIn, hdays]
    rfl
  refine ⟨buckets, hsplits, ?_, hsplits.exists_mem_iff, hdaily, ?_, fun hmodest => ?_, ?_⟩
  · rintro zone rfl t hlo hhi
    exact hsplits.mem_dates_of_zone hlo hhi
  · rintro name zone hzone rfl
    rw [daily_of_zone hzone, hdaily]
  · have hcovered := Summary.covered_clip_le is hwindow.le
    obtain ⟨rows, hrows, -⟩ :=
      exists_rows hsplits.within (hmodest.of_le (Summary.covered_nonneg _) hcovered)
    exact ⟨rows, hrows⟩
  · intro rows hrows
    have hmap := mapM_of_rowsOf hrows
    exact ⟨map_of_mapM (fun _ _ => DailyFigures.date_of_ofBucket?) hmap, mapM_eq_some_iff.mp hmap⟩

def apia : Zone := ⟨-36000, [⟨1325239200, 50400⟩, ⟨1333202400, 46800⟩]⟩

/-- The 29th of December 2011 at ten in the morning, local time. -/
def apiaMorning : Instant := ⟨1325188800000000, by decide, by decide⟩

/-- A line that runs until the 31st of December 2011 at two in the afternoon, local time. The day
between the two is skipped. -/
def apiaRun : Interval :=
  { lineId := "a", status := .on, start := 1325188800000, stop := 1325289600000 }

example : apia.calendar.days? apiaRun.start apiaRun.stop = .ok [
    ⟨.ofCivil 2011 12 29, 1325188800000, 1325239200000⟩,
    ⟨.ofCivil 2011 12 30, 1325239200000, 1325239200000⟩,
    ⟨.ofCivil 2011 12 31, 1325239200000, 1325289600000⟩] := by
  decide +kernel

theorem daily_splits_window_apia : apia.calendar.Chronological ∧
    apia.calendar.Spans apiaRun.start apiaRun.stop ∧ apiaRun.start < apiaRun.stop ∧
    Instant.ofMillis? apiaRun.start = .ok apiaMorning ∧
    ∃ buckets rows, apia.calendar.Splits apiaRun.start apiaRun.stop apiaMorning buckets ∧
      daily (some "Pacific/Apia") [apiaRun] apiaRun.start apiaRun.stop = .ok rows ∧
      rows.map (·.date) = buckets.map (·.date) := by
  have hzone : Zone.ofName? (some "Pacific/Apia") = some apia := by decide +kernel
  have hchronological := Zone.chronological_of_ofName? hzone
  have hspans : apia.calendar.Spans apiaRun.start apiaRun.stop :=
    Zone.spans_of_ofName? hzone (by decide) (by decide)
  have hwindow : apiaRun.start < apiaRun.stop := by decide
  have hfirst : Instant.ofMillis? apiaRun.start = .ok apiaMorning := by decide +kernel
  have hmodest : Summary.Modest (([apiaRun].length : ℤ) * (apiaRun.stop - apiaRun.start)) :=
    modest_of_le_mul (n := 1) (by decide) (by decide) (by norm_num)
  obtain ⟨buckets, hsplits, -, -, -, hdaily, hrows, hdates⟩ :=
    daily_splits_window hchronological hspans hwindow hfirst [apiaRun]
  obtain ⟨rows, hrows⟩ := hrows hmodest
  refine ⟨hchronological, hspans, hwindow, hfirst, buckets, rows, hsplits, ?_, ?_⟩
  · rw [hdaily _ _ hzone rfl, hrows]
  · exact (hdates rows hrows).1

end Kpi

end LineWatch
