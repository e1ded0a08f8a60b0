import LineWatch.Proofs.Text.Digits
import LineWatch.Proofs.Time.Civil
import LineWatch.Decode.Scalar

/-!
# Timestamps are read back

The text of a timestamp is read as that timestamp: date, clock, the six digits of a fraction if
there is one, and the offset, of either sign, as `Z`, or missing. An instant is written with `Z`,
and is its own move to UTC.
-/

namespace LineWatch

namespace Timestamp

theorem daysInMonth_le (year month : ℤ) : Date.daysInMonth year month ≤ 31 := by
  unfold Date.daysInMonth
  split <;> (try split) <;> omega

theorem readDate_text {date : Date} (h : date.isSupported = true) (rest : List Char) :
    readDate (date.text ++ rest) = .ok (date, date.civil.year, rest) := by
  obtain ⟨hyear, hyear'⟩ := Date.civil_year_bounds h
  obtain ⟨hmonth, hmonth'⟩ := Date.civil_month_bounds date
  obtain ⟨hday, hday'⟩ := Date.civil_day_bounds date
  have hmonths := daysInMonth_le date.civil.year date.civil.month
  have hy4 : date.civil.year.toNat < 10 ^ 4 := by omega
  have hm2 : date.civil.month.toNat < 10 ^ 2 := by omega
  have hd2 : date.civil.day.toNat < 10 ^ 2 := by omega
  have hfour : 0 < 4 := by decide
  have htwo : 0 < 2 := by decide
  have hlen : ¬(date.text ++ rest).length < 10 := by
    simp only [Date.text, List.length_append, List.length_cons, Date.length_paddedText hfour hy4,
      Date.length_paddedText htwo hm2, Date.length_paddedText htwo hd2]
    omega
  rw [readDate, if_neg hlen]
  simp only [Date.text, List.append_assoc, List.cons_append, digits?_paddedText hfour hy4,
    digits?_paddedText htwo hm2, digits?_paddedText htwo hd2]
  have hy : (date.civil.year.toNat : ℤ) = date.civil.year := by omega
  have hm : (date.civil.month.toNat : ℤ) = date.civil.month := by omega
  have hd : (date.civil.day.toNat : ℤ) = date.civil.day := by omega
  rw [hy, hm, hd, if_neg (by omega), if_neg (by omega), Date.ofCivil_civil]

theorem readFraction_paddedText {n : ℕ} (h : n < 1000000) {rest : List Char}
    (hrest : ∀ c ∈ rest.head?, c.isDigit = false) :
    readFraction (Date.paddedText 6 n ++ rest) = some (n, rest) := by
  have hdigits : ∀ c ∈ Date.paddedText 6 n, c.isDigit = true := Date.isDigit_of_mem_paddedText
  have hlen : (Date.paddedText 6 n).length = 6 := Date.length_paddedText (by decide) h
  have hsix : (Date.paddedText 6 n ++ List.replicate 6 '0').take 6 = Date.paddedText 6 n := by
    rw [List.take_append_of_le_length (by omega), List.take_of_length_le (by omega)]
  have hfilled : ¬((Date.paddedText 6 n).isEmpty = true ∨ 9 < (Date.paddedText 6 n).length) := by
    rw [List.isEmpty_iff_length_eq_zero]
    omega
  simp only [readFraction, takeWhile_append hdigits hrest,
    dropWhile_append hdigits hrest, hsix, Date.digitsValue_paddedText]
  rw [if_neg hfilled]

/-- The clock and the fraction of a microsecond of the day. -/
def clockText (n : ℕ) : List Char :=
  Date.paddedText 2 (n / 1000000 / 3600) ++ ':' :: (Date.paddedText 2 (n / 1000000 / 60 % 60) ++
    ':' :: Date.paddedText 2 (n / 1000000 % 60)) ++
    (if n % 1000000 = 0 then [] else '.' :: Date.paddedText 6 (n % 1000000))

/-- What may stand behind a clock. -/
def EndsClock (rest : List Char) : Prop :=
  ∀ c ∈ rest.head?, c.isDigit = false ∧ c ≠ '.' ∧ c ≠ ','

theorem readClock_clockText {n : ℕ} (h : n < 86400000000) {rest : List Char}
    (hrest : EndsClock rest) : readClock (clockText n ++ rest) = some (n, rest) := by
  have hdigits : ∀ c ∈ rest.head?, c.isDigit = false := fun c hc => (hrest c hc).1
  have htwo : 0 < 2 := by decide
  have hhour : n / 1000000 / 3600 < 10 ^ 2 := by omega
  have hminute : n / 1000000 / 60 % 60 < 10 ^ 2 := by omega
  have hsecond : n / 1000000 % 60 < 10 ^ 2 := by omega
  simp only [readClock, clockText, List.append_assoc, List.cons_append,
    digits?_paddedText htwo hhour, digits?_paddedText htwo hminute,
    digits?_paddedText htwo hsecond, Option.bind_eq_bind, Option.bind_some]
  rw [if_neg (by omega), if_neg (by omega)]
  by_cases hf : n % 1000000 = 0
  · rw [if_pos hf, List.nil_append]
    have hn : (n / 1000000 / 3600 * 60 + n / 1000000 / 60 % 60) * 60000000 +
        n / 1000000 % 60 * 1000000 = n := by omega
    rw [hn]
    split
    · exact absurd rfl (hrest '.' rfl).2.1
    · exact absurd rfl (hrest ',' rfl).2.2
    · rfl
  · rw [if_neg hf, List.cons_append]
    simp only [readFraction_paddedText (Nat.mod_lt n (by decide)) hdigits, Option.map_some]
    congr 2
    omega

theorem readOffset_offsetText {o : ℤ} (h : -1440 < o ∧ o < 1440) :
    readOffset (offsetText o) = some (some o) := by
  unfold offsetText
  generalize hn : o.natAbs = n
  have htwo : 0 < 2 := by decide
  have hhours := digits?_paddedText htwo (by omega : n / 60 < 10 ^ 2)
    (':' :: Date.paddedText 2 (n % 60))
  have hminutes := digits?_paddedText htwo (by omega : n % 60 < 10 ^ 2) []
  rw [List.append_nil] at hminutes
  have hrange : ¬(23 < n / 60 ∨ 59 < n % 60) := by omega
  by_cases ho : o < 0
  · simp [ho, readOffset, hhours, hminutes, hrange]
    omega
  · simp [ho, readOffset, hhours, hminutes, hrange]
    omega

/-- The offset as it stands behind the clock. -/
def offsetPart (offset : Option ℤ) : List Char :=
  match offset with
  | none => []
  | some o => if o = 0 then ['Z'] else offsetText o

theorem readOffset_offsetPart {offset : Option ℤ} (h : ∀ o ∈ offset, -1440 < o ∧ o < 1440) :
    readOffset (offsetPart offset) = some offset := by
  cases offset with
  | none => rfl
  | some o =>
    rw [offsetPart]
    split
    · next ho => rw [ho]; rfl
    · exact readOffset_offsetText (h o rfl)

theorem endsClock_offsetPart (offset : Option ℤ) : EndsClock (offsetPart offset) := by
  intro c hc
  cases offset with
  | none => simp [offsetPart] at hc
  | some o =>
    simp only [offsetPart, offsetText] at hc
    split_ifs at hc <;> cases Option.some.inj hc <;> decide

theorem isSupported_of_wall {wall : ℤ} (h : firstMicro ≤ wall ∧ wall ≤ lastMicro) :
    (Date.mk (wall / microsPerDay)).isSupported = true := by
  unfold firstMicro lastMicro at h
  simp only [Date.isSupported, Bool.and_eq_true, decide_eq_true_eq]
  unfold microsPerDay
  omega

theorem readCalendar_chars (t : Timestamp) : readCalendar t.chars =
    .ok ((Date.mk (t.wall / microsPerDay)).civil.year, t.wall, t.offset) := by
  have hdate := isSupported_of_wall ⟨t.first_le, t.le_last⟩
  have hclock : (t.wall % microsPerDay).toNat < 86400000000 := by
    unfold microsPerDay
    omega
  have hwall : t.wall / microsPerDay * microsPerDay + ((t.wall % microsPerDay).toNat : ℤ) =
      t.wall := by
    unfold microsPerDay
    omega
  have hchars : t.chars = (Date.mk (t.wall / microsPerDay)).text ++
      'T' :: (clockText (t.wall % microsPerDay).toNat ++ offsetPart t.offset) := by
    have hparts : t.chars = wallText t.wall ++ offsetPart t.offset := rfl
    simp only [hparts, wallText, clockText, List.append_assoc, List.cons_append]
  rw [hchars, readCalendar, readDate_text hdate]
  simp only [readClock_clockText hclock (endsClock_offsetPart t.offset),
    readOffset_offsetPart t.offset_lt, hwall, true_or, if_true]

@[simp] theorem ofText?_text (t : Timestamp) : ofText? t.text = .ok t := by
  have hwhole : ofWall? t.wall t.offset = some t := by
    rw [ofWall?, dif_pos ⟨⟨t.first_le, t.le_last⟩, t.offset_lt⟩]
  simp only [ofText?, text, String.toList_ofList, readCalendar_chars, hwhole]

end Timestamp

namespace Decoder

@[simp] theorem timestamp_text (t : Timestamp) : timestamp (.str t.text) = .ok t := by
  simp [timestamp, timeOfText]

@[simp] theorem instant_text (t : Instant) : instant (.str t.text) = .ok t := by
  simp [instant, Instant.text, Decoded.bind, toUtc]

end Decoder

end LineWatch
