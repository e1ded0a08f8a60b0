import LineWatch.Remote.Target
import LineWatch.Text.Percent

/-!
# Routes

A path names at most one resource. A path with slashes at its end that would name one without
them is redirected there. All resources can be read, and nothing else.
-/

namespace LineWatch.Api

inductive Route where
  | root
  | health
  | metrics
  | lines
  | line (id : String)
  | history (id : String)
  | intervals (id : String)
  | fleetFigures
  | lineFigures
  | labelFigures
  | daily (id : String)
  deriving DecidableEq, Repr

inductive Routing where
  | found (route : Route)
  | redirected
  | methodNotAllowed
  | notFound
  deriving DecidableEq, Repr

/-- A line feed behind the last step of a path does not count. -/
def withoutFeed (step : List Char) : List Char :=
  match step.reverse with
  | '\n' :: rest => rest.reverse
  | _ => step

/-- The resource that steps below the prefix name. -/
def Route.ofSteps? (steps : List (List Char)) : Option Route :=
  match steps with
  | [a] => if withoutFeed a = "lines".toList then some .lines else none
  | [a, b] =>
    if a = "lines".toList && !b.isEmpty then some (.line (String.ofList b))
    else if a = "analytics".toList then
      if withoutFeed b = "aggregate".toList then some .fleetFigures
      else if withoutFeed b = "lines".toList then some .lineFigures
      else if withoutFeed b = "labels".toList then some .labelFigures
      else none
    else none
  | [a, b, c] =>
    if a = "lines".toList && !b.isEmpty then
      if withoutFeed c = "history".toList then some (.history (String.ofList b))
      else if withoutFeed c = "intervals".toList then some (.intervals (String.ofList b))
      else none
    else none
  | [a, b, c, d] =>
    if a = "analytics".toList && b = "lines".toList && !c.isEmpty &&
        withoutFeed d = "daily".toList then some (.daily (String.ofList c))
    else none
  | _ => none

def Route.ofPath? (path : List Char) : Option Route :=
  match Target.splitAt '/' path with
  | [] :: steps =>
    match steps with
    | [a] =>
      let a := withoutFeed a
      if a.isEmpty then some .root
      else if a = "health".toList then some .health
      else if a = "metrics".toList then some .metrics
      else none
    | a :: b :: steps =>
      if a = "api".toList && b = "v1".toList then ofSteps? steps else none
    | [] => none
  | _ => none

def withoutSlashes (path : List Char) : List Char := (path.reverse.dropWhile (· == '/')).reverse

/-- Where a request goes; `path` is as it was sent, with its escapes. -/
def routing (method path : String) : Routing :=
  let path := if path == "" then "/" else path
  let path := (unescape (String.ofList (Target.withoutDots path.toList))).toList
  match Route.ofPath? path with
  | some route => if method.toUpper == "GET" then .found route else .methodNotAllowed
  | none =>
    if path.getLast? = some '/' && (Route.ofPath? (withoutSlashes path)).isSome then .redirected
    else .notFound

end LineWatch.Api
