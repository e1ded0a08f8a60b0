import LineWatch.Line.Snapshot

/-!
# Time in status

Whole seconds since an instant, and a short text for a span of milliseconds that shows its two
largest units.
-/

namespace LineWatch

/-- Whole seconds from `since` to `now`; zero if `since` is unknown or lies ahead. -/
def elapsedSeconds (since : Option Instant) (now : Instant) : Int :=
  match since with
  | none => 0
  | some since => max 0 (nearest (((now.micros - since.micros : Int) : Rat) / 1000000)).floor

/-- The same for times that have yet to be moved to UTC; `none` if one of them cannot be. -/
def elapsedBetween? (since : Option Timestamp) (now : Timestamp) : Option Int :=
  match since with
  | none => some 0
  | some since => do return elapsedSeconds (some (← since.toInstant?)) (← now.toInstant?)

def durationText (ms : Int) : String :=
  let seconds := (max 0 (ms / 1000)).toNat
  let minutes := seconds / 60
  let hours := minutes / 60
  let days := hours / 24
  let n (k : Nat) : List Char := Nat.toDigits 10 k
  String.ofList <|
    if 0 < days then n days ++ 'd' :: ' ' :: (n (hours % 24) ++ ['h'])
    else if 0 < hours then n hours ++ 'h' :: ' ' :: (n (minutes % 60) ++ ['m'])
    else if 0 < minutes then n minutes ++ 'm' :: ' ' :: (n (seconds % 60) ++ ['s'])
    else n seconds ++ ['s']

/-- The view of a line at `now`. -/
def ProductionLine.viewAt (line : ProductionLine) (now : Instant) : LineView :=
  let seconds := elapsedSeconds line.lastStatusUpdate now
  ⟨line, seconds, durationText (seconds * 1000)⟩

theorem elapsedSeconds_nonneg (since : Option Instant) (now : Instant) :
    0 ≤ elapsedSeconds since now := by
  cases since with
  | none => exact Int.le_refl 0
  | some since => exact Int.le_max_left ..

end LineWatch
