import LineWatch.Number.Binary64

/-!
# Reconnect delays

A delay starts at the floor and grows by a factor up to the ceiling, until it is reset. Delays
are binary64 seconds, so growth rounds once.
-/

namespace LineWatch

structure Backoff where
  floor : Binary64
  ceiling : Binary64
  multiplier : Binary64
  delay : Binary64
  deriving DecidableEq, Repr

inductive BackoffError where
  | floorNotPositive
  | ceilingBelowFloor
  | multiplierBelowOne
  deriving DecidableEq, Repr

def BackoffError.message : BackoffError → String
  | .floorNotPositive => "backoff floor must be positive"
  | .ceilingBelowFloor => "backoff ceiling must be >= floor"
  | .multiplierBelowOne => "backoff multiplier must be >= 1"

namespace Backoff

def new (floor ceiling multiplier : Binary64) : Except BackoffError Backoff :=
  if floor.le .zero then .error .floorNotPositive
  else if ceiling.lt floor then .error .ceilingBelowFloor
  else if multiplier.lt (.finite 1) then .error .multiplierBelowOne
  else .ok ⟨floor, ceiling, multiplier, floor⟩

def reset (b : Backoff) : Backoff := { b with delay := b.floor }

/-- The state after the current delay has been used. -/
def grow (b : Backoff) : Backoff := { b with delay := (b.delay.mul b.multiplier).smaller b.ceiling }

@[simp] theorem delay_reset (b : Backoff) : b.reset.delay = b.floor := rfl

@[simp] theorem floor_grow (b : Backoff) : b.grow.floor = b.floor := rfl

end Backoff

end LineWatch
