/-!
# Calendar dates

A date is a number of days since 1 January 1970 in the proleptic Gregorian calendar. Year,
month and day of the month are computed within eras of 400 years whose years start in March,
so that a leap day is the last day of its year.
-/

namespace LineWatch

structure Date where
  day : Int
  deriving DecidableEq, Repr

namespace Date

instance : Inhabited Date := ⟨⟨0⟩⟩

def daysPerEra : Int := 146097

def isLeapYear (year : Int) : Bool := year % 4 == 0 && (year % 100 != 0 || year % 400 == 0)

def daysInMonth (year : Int) (month : Int) : Int :=
  if month = 2 then if isLeapYear year then 29 else 28
  else if month = 4 ∨ month = 6 ∨ month = 9 ∨ month = 11 then 30
  else 31

/-- Day `d` of month `m` of year `y`; a day past the end of the month counts on. -/
def ofCivil (y m d : Int) : Date :=
  let y := if m ≤ 2 then y - 1 else y
  let era := y / 400
  let yearOfEra := y % 400
  let marchMonth := (m + 9) % 12
  let dayOfYear := (153 * marchMonth + 2) / 5 + d - 1
  let dayOfEra := yearOfEra * 365 + yearOfEra / 4 - yearOfEra / 100 + dayOfYear
  ⟨era * daysPerEra + dayOfEra - 719468⟩

structure Civil where
  year : Int
  month : Int
  day : Int
  deriving DecidableEq, Repr

def civil (date : Date) : Civil :=
  let z := date.day + 719468
  let era := z / daysPerEra
  let dayOfEra := z % daysPerEra
  let yearOfEra := (dayOfEra - dayOfEra / 1460 + dayOfEra / 36524 - dayOfEra / 146096) / 365
  let dayOfYear := dayOfEra - (365 * yearOfEra + yearOfEra / 4 - yearOfEra / 100)
  let marchMonth := (5 * dayOfYear + 2) / 153
  let day := dayOfYear - (153 * marchMonth + 2) / 5 + 1
  let month := if marchMonth < 10 then marchMonth + 3 else marchMonth - 9
  let year := yearOfEra + era * 400
  ⟨if month ≤ 2 then year + 1 else year, month, day⟩

def year (date : Date) : Int := date.civil.year

def next (date : Date) : Date := ⟨date.day + 1⟩

/-- The dates of the years 1 to 9999. -/
def isSupported (date : Date) : Bool := -719162 ≤ date.day && date.day ≤ 2932896

/-- `n` in decimal with at least `width` digits. -/
def paddedText (width : Nat) (n : Nat) : List Char :=
  let digits := Nat.toDigits 10 n
  List.replicate (width - digits.length) '0' ++ digits

def text (date : Date) : List Char :=
  let c := date.civil
  paddedText 4 c.year.toNat ++ '-' :: (paddedText 2 c.month.toNat ++ '-' ::
    paddedText 2 c.day.toNat)

example : (ofCivil 1970 1 1).day = 0 := by decide
example : (ofCivil 1 1 1).day = -719162 ∧ (ofCivil 9999 12 31).day = 2932896 := by decide
example : (ofCivil 2024 2 29).civil = ⟨2024, 2, 29⟩ := by decide

end Date

end LineWatch
