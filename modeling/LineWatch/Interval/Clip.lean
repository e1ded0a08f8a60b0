import LineWatch.Interval.Resolve

/-!
# Cutting intervals to a window

A window is the span from `start` up to, but not including, `stop`. An interval across an edge
is cut at the edge, one outside is dropped, and one of no length stays if its instant lies in
the window.
-/

namespace LineWatch

namespace Interval

def clip? (start stop : Int) (i : Interval) : Option Interval :=
  if i.start = i.stop then
    if start ≤ i.start ∧ i.start < stop then some i else none
  else if i.stop ≤ start ∨ stop ≤ i.start then none
  else some { i with start := max i.start start, stop := min i.stop stop }

def clip (intervals : List Interval) (start stop : Int) : List Interval :=
  if stop ≤ start then [] else intervals.filterMap (clip? start stop)

/-- Total time the intervals cover, each one counted in full. -/
def covered (intervals : List Interval) : Int :=
  intervals.foldr (fun i total => i.duration + total) 0

/-- The end of what is known of a window: nothing is known beyond `now`. -/
def knownEnd (stop : Int) : Option Int → Int
  | none => stop
  | some now => min stop now

/-- The intervals of a log within a window, the open one no longer than to `now`. -/
def window (changes : List StatusChange) (start stop : Int) (now : Option Int) :
    List Interval :=
  let known := knownEnd stop now
  clip (resolve changes known) start known

theorem clip_of_le (intervals : List Interval) {start stop : Int} (h : stop ≤ start) :
    clip intervals start stop = [] := by simp [clip, h]

@[simp] theorem clip_nil (start stop : Int) : clip [] start stop = [] := by simp [clip]

end Interval

end LineWatch
