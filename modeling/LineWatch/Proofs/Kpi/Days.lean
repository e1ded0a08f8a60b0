import LineWatch.Kpi.Daily
import LineWatch.Proofs.Kpi.Durations
import LineWatch.Proofs.Time.Millis

/-!
# The days of a window

Of a calendar only two things are needed: the midnights come in the order of their dates, and none
lies after an instant of its date. Then the first day reaches back to the start of the window, each
day ends where the next one begins, and the last one ends with the window. So what the days hold
adds up to what the window holds.
-/

namespace LineWatch

theorem Date.isSupported_iff {d : Date} :
    d.isSupported ↔ -719162 ≤ d.day ∧ d.day ≤ 2932896 := by
  simp [Date.isSupported]

namespace Calendar

variable {calendar : Calendar} {start stop : ℤ} {date : Date} {buckets : List Bucket}

structure Regular (calendar : Calendar) : Prop where
  midnight_mono : ∀ d d' : Date, d.isSupported → d'.isSupported → d.day ≤ d'.day →
    calendar.midnight d ≤ calendar.midnight d'
  midnight_le : ∀ t : Instant, (calendar.dateAt t.micros).isSupported →
    calendar.midnight (calendar.dateAt t.micros) ≤ t.micros

/-- The dates of a window are supported: that of its start, and one that starts no earlier than
the window ends. -/
structure Reaches (calendar : Calendar) (start stop : ℤ) : Prop where
  first : ∀ t : Instant, t.millis = start → (calendar.dateAt t.micros).isSupported
  last : ∃ d : Date, d.isSupported ∧ stop ≤ calendar.midnightMillis d

/-- A regular calendar whose date never goes back. -/
structure Chronological (calendar : Calendar) : Prop extends calendar.Regular where
  dateAt_mono : ∀ t t' : Instant, t ≤ t' →
    (calendar.dateAt t.micros).day ≤ (calendar.dateAt t'.micros).day

/-- The dates of a window are supported: those of its milliseconds, and one that starts no earlier
than the window ends. -/
structure Spans (calendar : Calendar) (start stop : ℤ) : Prop where
  dates : ∀ ms t, start ≤ ms → ms < stop → Instant.ofMillis? ms = .ok t →
    (calendar.dateAt t.micros).isSupported
  last : ∃ d : Date, d.isSupported ∧ stop ≤ calendar.midnightMillis d

/-- The buckets of a window from a date on. -/
inductive Days (calendar : Calendar) (start stop : ℤ) : Date → List Bucket → Prop where
  | past {date : Date} (hpast : stop ≤ calendar.midnightMillis date) :
      Days calendar start stop date []
  | day {date : Date} {buckets : List Bucket} (hday : calendar.midnightMillis date < stop)
      (hnext : date.next.isSupported) (later : Days calendar start stop date.next buckets) :
      Days calendar start stop date
        (⟨date, max (calendar.midnightMillis date) start,
          min (calendar.midnightMillis date.next) stop⟩ :: buckets)

theorem Regular.midnightMillis_mono (hc : calendar.Regular) {d d' : Date} (hd : d.isSupported)
    (hd' : d'.isSupported) (h : d.day ≤ d'.day) :
    calendar.midnightMillis d ≤ calendar.midnightMillis d' :=
  epochMillis_mono (hc.midnight_mono d d' hd hd' h)

theorem days_of_bucketsFrom? {fuel : ℕ}
    (h : calendar.bucketsFrom? start stop fuel date = some buckets) :
    Days calendar start stop date buckets := by
  induction fuel generalizing date buckets with
  | zero =>
    unfold bucketsFrom? at h
    split_ifs at h with hover
    cases h
    exact .past hover
  | succ fuel ih =>
    unfold bucketsFrom? at h
    dsimp only at h
    split_ifs at h with hover hnext
    · cases h
      exact .past hover
    · obtain ⟨later, hlater, rfl⟩ := Option.map_eq_some_iff.mp h
      exact .day (not_le.mp hover) (by simpa using hnext) (ih hlater)

/-- The dates do not run out before a supported date that starts no earlier than the window
ends. -/
theorem exists_bucketsFrom? (hc : calendar.Regular) {last : Date} (hlast : last.isSupported)
    (hstop : stop ≤ calendar.midnightMillis last) {fuel : ℕ} (hdate : date.isSupported)
    (hfuel : fuel = supportedFrom date) :
    ∃ buckets, calendar.bucketsFrom? start stop fuel date = some buckets := by
  induction fuel generalizing date with
  | zero =>
    have hlate : last.day ≤ date.day := by
      have := Date.isSupported_iff.mp hlast
      simp only [supportedFrom] at hfuel
      omega
    exact ⟨[], by rw [bucketsFrom?, if_pos (hstop.trans (hc.midnightMillis_mono hlast hdate hlate))]⟩
  | succ fuel ih =>
    unfold bucketsFrom?
    dsimp only
    by_cases hover : stop ≤ calendar.midnightMillis date
    · exact ⟨[], by rw [if_pos hover]⟩
    · have hd := Date.isSupported_iff.mp hdate
      have hnext : date.next.isSupported := by
        rw [Date.isSupported_iff, Date.next]
        simp only [supportedFrom] at hfuel
        dsimp only
        omega
      have hleft : fuel = supportedFrom date.next := by
        simp only [supportedFrom, Date.next] at hfuel ⊢
        omega
      obtain ⟨later, hlater⟩ := ih hnext hleft
      rw [if_neg hover, if_neg (by simp [hnext]), hlater]
      exact ⟨_, rfl⟩

namespace Days

theorem within (h : Days calendar start stop date buckets) :
    ∀ b ∈ buckets, start ≤ b.start ∧ b.stop ≤ stop := by
  induction h with
  | past => simp
  | day hday hnext later ih =>
    intro b hb
    rcases List.mem_cons.mp hb with rfl | hb
    · exact ⟨le_max_right _ _, min_le_right _ _⟩
    · exact ih b hb

/-- What the days hold of a status adds up to what the window holds from their first midnight on. -/
theorem sum_durationIn (hc : calendar.Regular) (h : Days calendar start stop date buckets)
    (hdate : date.isSupported) (is : List Interval) (s : Status) :
    (buckets.map fun b => Summary.durationIn (Interval.clip is b.start b.stop) s).sum =
      Summary.durationIn (Interval.clip is (max (calendar.midnightMillis date) start) stop) s := by
  induction h with
  | past hover =>
    rw [Summary.durationIn_clip_of_le (le_max_of_le_left hover)]
    rfl
  | @day date buckets hday hnext later ih =>
    have hle : calendar.midnightMillis date ≤ calendar.midnightMillis date.next :=
      hc.midnightMillis_mono hdate hnext (by simp [Date.next])
    have hcut : max (calendar.midnightMillis date.next) start =
        max (max (calendar.midnightMillis date) start) (calendar.midnightMillis date.next) := by
      omega
    rw [List.map_cons, List.sum_cons, ih hnext, hcut, Summary.durationIn_clip_split]

end Days

/-- The days of a window that is not empty, from the date of its start on. -/
theorem exists_days?_from (hc : calendar.Regular) (hwindow : start < stop) {first : Instant}
    (hfirst : Instant.ofMillis? start = .ok first)
    (hdate : (calendar.dateAt first.micros).isSupported)
    (hlast : ∃ d : Date, d.isSupported ∧ stop ≤ calendar.midnightMillis d) :
    ∃ buckets, calendar.days? start stop = .ok buckets ∧
      Days calendar start stop (calendar.dateAt first.micros) buckets := by
  obtain ⟨last, hlast, hstop⟩ := hlast
  have hends : ∃ buckets, calendar.bucketsFrom? start stop
      (supportedFrom (calendar.dateAt first.micros)) (calendar.dateAt first.micros) =
        some buckets :=
    exists_bucketsFrom? hc hlast hstop hdate rfl
  obtain ⟨buckets, hb⟩ := hends
  refine ⟨buckets, ?_, days_of_bucketsFrom? hb⟩
  rw [days?, if_neg (not_le.mpr hwindow)]
  delta buckets?
  rw [hfirst]
  dsimp only
  rw [if_neg (by simp [hdate]), hb]

/-- The days of a window that is not empty begin with a midnight no later than the window. -/
theorem exists_days? (hc : calendar.Regular) (hr : calendar.Reaches start stop)
    (hwindow : start < stop) (hlo : firstMilli ≤ start) (hhi : start ≤ lastMilli) :
    ∃ date buckets, calendar.days? start stop = .ok buckets ∧
      Days calendar start stop date buckets ∧ date.isSupported ∧
      calendar.midnightMillis date ≤ start := by
  obtain ⟨t, ht, hmillis⟩ := Instant.exists_ofMillis? hlo hhi
  have hdate := hr.first t hmillis
  obtain ⟨buckets, hdays, hsplit⟩ := exists_days?_from hc hwindow ht hdate hr.last
  refine ⟨calendar.dateAt t.micros, buckets, hdays, hsplit, hdate, ?_⟩
  rw [← hmillis]
  exact epochMillis_mono (hc.midnight_le t hdate)

end Calendar

end LineWatch
