import LineWatch.Json.Value

/-!
# Journal entries

Every part of the system reports what it does as notices of its own kind. An entry is how a
notice is written down: a name, a level and fields.
-/

namespace LineWatch

inductive Level where
  | debug
  | info
  | warning
  | error
  deriving DecidableEq, Repr

def Level.name : Level → String
  | .debug => "debug"
  | .info => "info"
  | .warning => "warning"
  | .error => "error"

structure Entry where
  name : String
  level : Level
  fields : List (String × Json) := []
  deriving Repr

end LineWatch
