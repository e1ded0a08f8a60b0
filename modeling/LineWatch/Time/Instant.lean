import LineWatch.Number.Binary64
import LineWatch.Text.Numeral
import LineWatch.Time.Date

/-!
# Instants

An instant is a number of microseconds since the start of 1970 in UTC, within the years 1 to
9999. A timestamp is a wall-clock time as it was written, with the offset from UTC if one was
given; without an offset it is read as UTC.

`epochMillis` is the millisecond of an instant: the seconds since 1970 as a binary64 number,
times 1000, rounded to an integer. `Instant.ofMillis?` goes the other way through binary64
seconds, so far from 1970 it is off by some microseconds.
-/

namespace LineWatch

def microsPerSecond : Int := 1000000
def microsPerMinute : Int := 60000000
def microsPerDay : Int := 86400000000
def firstMicro : Int := -62135596800000000
def lastMicro : Int := 253402300799999999

def millisPerHour : Int := 3600000
def millisPerDay : Int := 24 * millisPerHour

/-- The millisecond of the instant `micros` microseconds after the start of 1970. -/
def epochMillis (micros : Int) : Int :=
  roundHalfEven (nearest (nearest ((micros : Rat) / 1000000) * 1000))

structure Instant where
  micros : Int
  first_le : firstMicro ≤ micros
  le_last : micros ≤ lastMicro
  deriving DecidableEq, Repr

namespace Instant

def ofMicros? (micros : Int) : Option Instant :=
  if h : firstMicro ≤ micros ∧ micros ≤ lastMicro then some ⟨micros, h.1, h.2⟩ else none

def epoch : Instant := ⟨0, by decide, by decide⟩

instance : Inhabited Instant := ⟨epoch⟩

instance : LT Instant := ⟨fun a b => a.micros < b.micros⟩
instance : LE Instant := ⟨fun a b => a.micros ≤ b.micros⟩
instance (a b : Instant) : Decidable (a < b) := inferInstanceAs (Decidable (a.micros < b.micros))
instance (a b : Instant) : Decidable (a ≤ b) := inferInstanceAs (Decidable (a.micros ≤ b.micros))

def millis (t : Instant) : Int := epochMillis t.micros

def shift? (t : Instant) (micros : Int) : Option Instant := ofMicros? (t.micros + micros)

@[simp] theorem ofMicros?_micros (t : Instant) : ofMicros? t.micros = some t := by
  simp [ofMicros?, t.first_le, t.le_last]

theorem eq_of_micros_eq {a b : Instant} (h : a.micros = b.micros) : a = b := by
  cases a; cases b; simpa using h

theorem not_lt {a b : Instant} : ¬a < b ↔ b ≤ a := Int.not_lt

protected theorem not_le {a b : Instant} : ¬a ≤ b ↔ b < a := Int.not_le

protected theorem le_refl (a : Instant) : a ≤ a := Int.le_refl a.micros

protected theorem le_trans {a b c : Instant} (hab : a ≤ b) (hbc : b ≤ c) : a ≤ c :=
  Int.le_trans hab hbc

protected theorem le_antisymm {a b : Instant} (hab : a ≤ b) (hba : b ≤ a) : a = b :=
  eq_of_micros_eq (Int.le_antisymm hab hba)

theorem le_of_lt {a b : Instant} (h : a < b) : a ≤ b := Int.le_of_lt h

/-- Why a number of milliseconds is no instant. -/
inductive MillisError where
  | tooLarge
  | yearOutOfRange (year : Int)
  deriving DecidableEq, Repr

def MillisError.message : MillisError → String
  | .tooLarge => "instant out of range"
  | .yearOutOfRange year => "year " ++ String.ofList (intText year) ++ " is out of range"

/-- Seconds as a binary64 number, split into microseconds. -/
def microsOfSeconds (seconds : Rat) : Int :=
  let whole := if seconds < 0 then -(-seconds).floor else seconds.floor
  let fraction := seconds - whole
  whole * microsPerSecond + roundHalfEven (nearest (fraction * 1000000))

def ofMillis? (ms : Int) : Except MillisError Instant :=
  let seconds := nearest ((ms : Rat) / 1000)
  if twoPow 63 ≤ magnitude seconds then .error .tooLarge
  else
    let micros := microsOfSeconds seconds
    match ofMicros? micros with
    | some t => .ok t
    | none => .error (.yearOutOfRange (Date.mk (micros / microsPerDay)).year)

end Instant

/-- A wall-clock time, and the minutes by which it is ahead of UTC, if known. -/
structure Timestamp where
  wall : Int
  offset : Option Int
  first_le : firstMicro ≤ wall
  le_last : wall ≤ lastMicro
  offset_lt : ∀ o ∈ offset, -1440 < o ∧ o < 1440
  deriving DecidableEq, Repr

namespace Timestamp

/-- Microseconds since the start of 1970 in UTC; up to a day beyond the supported years. -/
def micros (t : Timestamp) : Int := t.wall - t.offset.getD 0 * microsPerMinute

def millis (t : Timestamp) : Int := epochMillis t.micros

def toInstant? (t : Timestamp) : Option Instant := Instant.ofMicros? t.micros

def ofInstant (t : Instant) : Timestamp where
  wall := t.micros
  offset := some 0
  first_le := t.first_le
  le_last := t.le_last
  offset_lt := by simp

@[simp] theorem micros_ofInstant (t : Instant) : (ofInstant t).micros = t.micros := by
  simp [micros, ofInstant]

@[simp] theorem toInstant?_ofInstant (t : Instant) : (ofInstant t).toInstant? = some t := by
  simp [toInstant?]

end Timestamp

end LineWatch
