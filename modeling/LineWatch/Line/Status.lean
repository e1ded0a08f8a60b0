import LineWatch.Decode.Scalar

/-!
# Statuses of a production line

A line is repaired out of `maintenance` and `error`; only `error` interrupts it.
-/

namespace LineWatch

inductive Status where
  | on
  | off
  | maintenance
  | error
  deriving DecidableEq, Repr

namespace Status

def all : List Status := [.on, .off, .maintenance, .error]

def name : Status → String
  | .on => "on"
  | .off => "off"
  | .maintenance => "maintenance"
  | .error => "error"

def ofName? (s : String) : Option Status := all.find? (·.name == s)

def needsRepair : Status → Bool
  | .maintenance | .error => true
  | .on | .off => false

def toJson (s : Status) : Json := .str s.name

def decode : Decoder Status
  | .str s =>
    match ofName? s with
    | some status => .ok status
    | none => .fault .notAMember
  | _ => .fault .notAMember

theorem mem_all (s : Status) : s ∈ all := by cases s <;> decide

@[simp] theorem ofName?_name (s : Status) : ofName? s.name = some s := by cases s <;> decide

@[simp] theorem decode_toJson (s : Status) : decode s.toJson = .ok s := by
  simp [decode, toJson]

end Status

end LineWatch
