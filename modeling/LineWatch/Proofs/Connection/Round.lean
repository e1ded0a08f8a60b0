import LineWatch.Proofs.Connection.Handing
import LineWatch.Proofs.EventStream.Readable

/-!
# What becomes of a frame

A frame that a loop takes is counted and then has one outcome: it is dropped for one reason, or
its event comes to the handlers of its tag, each in its turn. Then the loop waits for the next
frame of the same attempt. One kind of payload is an exception: a time that leaves the supported
years when it is moved to UTC is not among the faults that a frame is dropped for, and it ends
the attempt after the frame has been counted.
-/

namespace LineWatch

namespace Client

variable {c : Client} {id : Nat}

/-- From one second to half a minute, doubling. -/
def doubling : Backoff := ⟨.finite 1, .finite 30, .finite 2, .finite 1⟩

/-- The first handler fails, and the second one waits before it returns. -/
def failThenWait : Callbacks where
  react handler _ :=
    if handler = .named "first" then { outcome := .error "first failed" } else { suspends := true }
  hear _ _ := .ok []

/-- A status event of line `a` with this time. -/
def statusFrame (time : String) : Frame where
  event := "line.status"
  data := "\x7b\"timestamp\": \"" ++ time ++
    "\", \"id\": \"a\", \"code\": \"A\", \"status\": \"on\"\x7d"

theorem failThenWait_handlersStay : failThenWait.HandlersStay := by
  intro handler event commands h
  by_cases hfirst : handler = .named "first"
  · simp [failThenWait, hfirst] at h
  · obtain rfl : [] = commands := by simpa [failThenWait, hfirst] using h
    exact List.not_mem_nil

end Client

end LineWatch
