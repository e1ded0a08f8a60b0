import LineWatch.Time.Instant

/-!
# Timestamps in text

A timestamp is written `YYYY-MM-DDTHH:MM:SS`, with six more digits if it does not fall on a
whole second, and the offset from UTC if it has one. Four separators of date and time are read,
seconds and fraction may be missing, and a bare date is its midnight. A plain number counts
seconds since 1970 up to `watershed`, and milliseconds beyond it.
-/

namespace LineWatch

/-- Why a text is no date; the first cause from the left. -/
inductive DateProblem where
  | tooShort
  | badYear
  | badSeparator
  | badMonth
  | badDay
  | monthOutOfRange
  | dayOutOfRange
  | extraCharacters
  | numberTooSmall
  | numberTooLarge
  deriving DecidableEq, Repr

def DateProblem.message : DateProblem → String
  | .tooShort => "input is too short"
  | .badYear => "invalid character in year"
  | .badSeparator => "invalid date separator, expected `-`"
  | .badMonth => "invalid character in month"
  | .badDay => "invalid character in day"
  | .monthOutOfRange => "month value is outside expected range of 1-12"
  | .dayOutOfRange => "day value is outside expected range"
  | .extraCharacters => "unexpected extra characters at the end of the input"
  | .numberTooSmall => "dates before 0000 are not supported as unix timestamps"
  | .numberTooLarge => "dates after 9999 are not supported as unix timestamps"

/-- Why a value is no timestamp. -/
inductive TimeProblem where
  | notADate (problem : DateProblem)
  | outOfRange
  deriving DecidableEq, Repr

namespace Timestamp

def offsetText (o : Int) : List Char :=
  let n := o.natAbs
  (if o < 0 then '-' else '+') ::
    (Date.paddedText 2 (n / 60) ++ ':' :: Date.paddedText 2 (n % 60))

def wallText (wall : Int) : List Char :=
  let date : Date := ⟨wall / microsPerDay⟩
  let micros := (wall % microsPerDay).toNat
  let seconds := micros / 1000000
  let fraction := micros % 1000000
  date.text ++ 'T' :: (Date.paddedText 2 (seconds / 3600) ++
    ':' :: (Date.paddedText 2 (seconds / 60 % 60) ++ ':' :: Date.paddedText 2 (seconds % 60))) ++
    (if fraction = 0 then [] else '.' :: Date.paddedText 6 fraction)

def chars (t : Timestamp) : List Char :=
  wallText t.wall ++ match t.offset with
    | none => []
    | some o => if o = 0 then ['Z'] else offsetText o

def text (t : Timestamp) : String := String.ofList t.chars

def ofWall? (wall : Int) (offset : Option Int) : Option Timestamp :=
  if h : (firstMicro ≤ wall ∧ wall ≤ lastMicro) ∧ ∀ o ∈ offset, -1440 < o ∧ o < 1440 then
    some ⟨wall, offset, h.1.1, h.1.2, h.2⟩
  else none

/-- The value of `count` digits at the start of `cs`, and the rest. -/
def digits? : (count : Nat) → List Char → (acc : Nat) → Option (Nat × List Char)
  | 0, cs, acc => some (acc, cs)
  | _ + 1, [], _ => none
  | n + 1, c :: cs, acc =>
    if c.isDigit then digits? n cs (acc * 10 + digitValue c) else none

/-- Reads `YYYY-MM-DD`; the year may be 0. -/
def readDate (cs : List Char) : Except DateProblem (Date × Int × List Char) :=
  if cs.length < 10 then .error .tooShort
  else match digits? 4 cs 0 with
  | none => .error .badYear
  | some (year, '-' :: cs) =>
    match digits? 2 cs 0 with
    | none => .error .badMonth
    | some (month, '-' :: cs) =>
      match digits? 2 cs 0 with
      | none => .error .badDay
      | some (day, cs) =>
        if month < 1 ∨ 12 < month then .error .monthOutOfRange
        else if day < 1 ∨ Date.daysInMonth year month < day then .error .dayOutOfRange
        else .ok (.ofCivil year month day, year, cs)
    | some _ => .error .badSeparator
  | some _ => .error .badSeparator

/-- Reads one to nine digits of a second's fraction as microseconds, cutting off the rest. -/
def readFraction (cs : List Char) : Option (Nat × List Char) :=
  let ds := cs.takeWhile Char.isDigit
  if ds.isEmpty ∨ 9 < ds.length then none
  else
    let six := (ds ++ List.replicate 6 '0').take 6
    some (digitsValue six, cs.dropWhile Char.isDigit)

/-- Reads `HH:MM[:SS[.fraction]]` as microseconds of the day. -/
def readClock (cs : List Char) : Option (Nat × List Char) := do
  let (hour, cs) ← digits? 2 cs 0
  let ':' :: cs := cs | none
  let (minute, cs) ← digits? 2 cs 0
  if 23 < hour ∨ 59 < minute then none
  let start := (hour * 60 + minute) * 60000000
  match cs with
  | ':' :: cs =>
    let (second, cs) ← digits? 2 cs 0
    if 59 < second then none
    let start := start + second * 1000000
    match cs with
    | '.' :: cs | ',' :: cs => (readFraction cs).map fun f => (start + f.1, f.2)
    | cs => some (start, cs)
  | cs => some (start, cs)

/-- Reads what follows the clock: nothing, `Z`, or a sign with hours and minutes. -/
def readOffset : List Char → Option (Option Int)
  | [] => some none
  | ['Z'] | ['z'] => some (some 0)
  | sign :: cs =>
    if sign ≠ '+' ∧ sign ≠ '-' then none
    else match digits? 2 cs 0 with
    | none => none
    | some (hours, cs) =>
      let cs := match cs with
        | ':' :: cs => cs
        | cs => cs
      match digits? 2 cs 0 with
      | some (minutes, []) =>
        if 23 < hours ∨ 59 < minutes then none
        else
          let o : Int := hours * 60 + minutes
          some (some (if sign = '-' then -o else o))
      | _ => none

def watershed : Int := 20000000000

/-- Seconds or milliseconds since 1970, as an integer. -/
def microsOfInt (i : Int) : Int :=
  if -watershed ≤ i ∧ i ≤ watershed then i * microsPerSecond else i * 1000

/-- Seconds or milliseconds since 1970; a number between two microseconds goes to the nearer. -/
def microsOfRat (q : Rat) : Int :=
  let seconds := if magnitude q ≤ (watershed : Rat) then q else nearest (q / 1000)
  let whole := seconds.floor
  whole * microsPerSecond + roundHalfUp (nearest (nearest (seconds - whole) * 1000000))

def ofMicros? (micros : Int) : Option Timestamp := ofWall? micros (some 0)

def ofInt? (i : Int) : Option Timestamp := ofMicros? (microsOfInt i)

def ofBinary64? (x : Binary64) : Option Timestamp :=
  x.toRat?.bind fun q => ofMicros? (microsOfRat q)

/-- The microseconds of a plain decimal number: a sign, digits, and perhaps a fraction. -/
def numberMicros? (cs : List Char) : Option Int :=
  let (negative, cs) := match cs with
    | '-' :: cs => (true, cs)
    | '+' :: cs => (false, cs)
    | cs => (false, cs)
  let whole := cs.takeWhile Char.isDigit
  if whole.isEmpty then none
  else match cs.dropWhile Char.isDigit with
  | [] => some (microsOfInt (if negative then -(digitsValue whole : Int) else digitsValue whole))
  | '.' :: ds =>
    if ds.all Char.isDigit then
      (Binary64.ofDecimal negative (digitsValue (whole ++ ds)) (-(ds.length : Int))).toRat?.map
        microsOfRat
    else none
  | _ => none

/-- Date and clock with a separator between them and an offset behind, or a bare date. -/
def readCalendar (cs : List Char) : Except DateProblem (Int × Int × Option Int) :=
  match readDate cs with
  | .error p => .error p
  | .ok (date, year, rest) =>
    let midnight := date.day * microsPerDay
    match rest with
    | [] => .ok (year, midnight, none)
    | sep :: cs =>
      if sep = 'T' ∨ sep = 't' ∨ sep = ' ' ∨ sep = '_' then
        match readClock cs with
        | none => .error .extraCharacters
        | some (micros, cs) =>
          match readOffset cs with
          | none => .error .extraCharacters
          | some offset => .ok (year, midnight + micros, offset)
      else .error .extraCharacters

def ofText? (s : String) : Except TimeProblem Timestamp :=
  match readCalendar s.toList with
  | .ok (_, wall, offset) =>
    match ofWall? wall offset with
    | some t => .ok t
    | none => .error .outOfRange
  | .error p =>
    match numberMicros? s.toList with
    | none => .error (.notADate p)
    | some micros =>
      match ofMicros? micros with
      | some t => .ok t
      | none =>
        .error (.notADate (if micros < 0 then .numberTooSmall else .numberTooLarge))

end Timestamp

namespace Instant

def text (t : Instant) : String := (Timestamp.ofInstant t).text

/-- The instant with UTC written as an offset. -/
def offsetText (t : Instant) : String :=
  String.ofList (Timestamp.wallText t.micros ++ Timestamp.offsetText 0)

end Instant

end LineWatch
