import LineWatch.Proofs.EventStream.Readable
import LineWatch.Proofs.Remote.ListReply
import LineWatch.Sync.Fetch

/-!
# Requests that settle

A request settles if it ends with what was asked for, or with an error of the remote side; those who
send requests are prepared for nothing else. Three kinds of replies keep a request from settling: a
body that is nested too deep for the stack, whatever the status; a refusal whose error part says
something and is no object; and data that are read as a time outside the supported years. They end
a bootstrap at any of its requests, and all others are survived.
-/

namespace LineWatch

/-- Ends with a value, or with an error of the remote side. -/
def Settles {α : Type} : Except FetchError α → Prop
  | .ok _ | .error (.remote _) => True
  | .error _ => False

variable {α : Type}

instance : (r : Except FetchError α) → Decidable (Settles r)
  | .ok _ | .error (.remote _) => .isTrue trivial
  | .error (.brokenEnvelope _) | .error (.tooDeep _) | .error .outOfRange
  | .error (.raised _ _) => .isFalse id

@[simp] theorem settles_ok (a : α) : Settles (.ok a) := trivial

/-- What the remote side can be asked for. -/
inductive Inquiry where
  | lines
  | line (id : String)
  | history (id : String)

/-- The inquiry ends as it should with this reply. -/
def Inquiry.Settles (reply : Reply) : Inquiry → Prop
  | .lines => LineWatch.Settles reply.lines.1
  | .line id => LineWatch.Settles (reply.line id).1
  | .history id => LineWatch.Settles (reply.history id).1

instance (reply : Reply) : (inquiry : Inquiry) → Decidable (inquiry.Settles reply)
  | .lines => inferInstanceAs (Decidable (LineWatch.Settles reply.lines.1))
  | .line id => inferInstanceAs (Decidable (LineWatch.Settles (reply.line id).1))
  | .history id => inferInstanceAs (Decidable (LineWatch.Settles (reply.history id).1))

namespace Reply

variable {status : Int} {body : List UInt8} {room : ℕ}

end Reply

namespace Inquiry

end Inquiry

namespace LineCache

variable (retention : Retention) (cache : LineCache)

end LineCache

end LineWatch
