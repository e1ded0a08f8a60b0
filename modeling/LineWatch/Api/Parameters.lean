import LineWatch.Kpi.Window

/-!
# Parameters of a request

A parameter is a text under a name, and of a name given twice the last text counts. Parameters
that do not fit are all reported, in the order in which they are declared.
-/

namespace LineWatch.Api

abbrev Parameters := List (String × String)

def parameter? (ps : Parameters) (name : String) : Option String :=
  (ps.reverse.find? (·.1 == name)).map (·.2)

/-- A parameter that is read only if it is there. -/
def optional {α : Type} (ps : Parameters) (name : String) (read : String → Decoded α) :
    Decoded (Option α) :=
  match parameter? ps name with
  | none => .ok none
  | some s => (some <$> read s).below (.field name)

def within (low high : Int) (d : Decoded Int) : Decoded Int :=
  d.bind fun i =>
    if i < low then .fault (.belowMinimum low)
    else if high < i then .fault (.aboveMaximum high)
    else .ok i

def defaultLimit : Int := 100

/-- How many records are asked for: 1 to 10000. -/
def limit (ps : Parameters) : Decoded Int :=
  (·.getD defaultLimit) <$> optional ps "limit" fun s => within 1 10000 (Decoder.intOfText s)

/-- The texts between commas that are not empty. -/
def listed (s : Option String) : List String :=
  ((s.getD "").splitOn ",").filter (· != "")

def query (ps : Parameters) : Decoded Query :=
  (fun timeframe start stop => {
      timeframe := timeframe.getD .lastDay
      start, stop
      labelIds := listed (parameter? ps "label_ids")
      lineIds := listed (parameter? ps "line_ids")
      zone := (parameter? ps "tz").filter (· != "") })
    <$> optional ps "timeframe" Timeframe.ofText
    <*> optional ps "start_time" Decoder.timeOfText
    <*> optional ps "end_time" Decoder.timeOfText

def boundText (bound : Int) : String := String.ofList (intText bound)

/-- How a fault of a parameter is put into words. -/
def faultMessage : Fault → String
  | .notAMember => "Input should be '24h', '7d', '30d', 'all' or 'custom'"
  | .intText => "Input should be a valid integer, unable to parse string as an integer"
  | .intSize => "Unable to parse input string as an integer, exceeded maximum size"
  | .belowMinimum bound => "Input should be greater than or equal to " ++ boundText bound
  | .aboveMaximum bound => "Input should be less than or equal to " ++ boundText bound
  | .timeText problem => "Input should be a valid datetime or date, " ++ problem.message
  | .timeRange => "Input should be a valid datetime, year 0 is out of range"
  | fault => fault.code

def stepText : PathStep → String
  | .field name => name
  | .index i => String.ofList (Nat.toDigits 10 i)

def faultJson (e : FieldError) : Json := .obj [
  ("field", .str (".".intercalate ("query" :: e.path.map stepText))),
  ("message", .str (faultMessage e.fault)),
  ("type", .str e.fault.code)]

end LineWatch.Api
