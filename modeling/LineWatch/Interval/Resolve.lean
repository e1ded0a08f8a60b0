import LineWatch.Interval.Basic

/-!
# From a status log to intervals

The records are put in order of their milliseconds, records of one millisecond in the order of
arrival. A record holds until the next one; the last holds until `now` and never less than no
time at all. There is one interval for each record.
-/

namespace LineWatch

namespace Interval

/-- The intervals of a log that is in order. -/
def ofOrdered (now : Int) : List StatusChange → List Interval
  | [] => []
  | [last] => [⟨last.lineId, last.newStatus, last.millis, max last.millis now, true⟩]
  | current :: following :: rest =>
    ⟨current.lineId, current.newStatus, current.millis, following.millis, false⟩ ::
      ofOrdered now (following :: rest)

def resolve (changes : List StatusChange) (now : Int) : List Interval :=
  ofOrdered now (StatusChange.sort changes)

@[simp] theorem length_ofOrdered (now : Int) (changes : List StatusChange) :
    (ofOrdered now changes).length = changes.length := by
  fun_induction ofOrdered now changes <;> simp_all

@[simp] theorem resolve_nil (now : Int) : resolve [] now = [] := by
  simp [resolve, StatusChange.sort, ofOrdered]

@[simp] theorem length_resolve (changes : List StatusChange) (now : Int) :
    (resolve changes now).length = changes.length := by
  simp [resolve, StatusChange.sort]

end Interval

end LineWatch
