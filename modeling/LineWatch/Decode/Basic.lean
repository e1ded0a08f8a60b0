import LineWatch.Json.Reader
import LineWatch.Time.Text

/-!
# Decoding JSON values

`Decoded α` is the outcome of reading an `α` out of a JSON value. A value that does not fit
yields every fault with its path, in the order of the fields; an instant that leaves the
supported years when it is moved to UTC makes the whole value unreadable.
-/

namespace LineWatch

inductive PathStep where
  | field (name : String)
  | index (i : Nat)
  deriving DecidableEq, Repr

/-- What is wrong with one field. -/
inductive Fault where
  | missing
  | notText
  | brokenText
  | notInt
  | intText
  | intFromFraction
  | intSize
  | notBool
  | boolText
  | floatText
  | notAMember
  | notAList
  | notAnObject
  | notJson
  | notATime
  | timeText (problem : DateProblem)
  | timeRange
  | belowMinimum (bound : Int)
  | aboveMaximum (bound : Int)
  deriving DecidableEq, Repr

def Fault.code : Fault → String
  | .missing => "missing"
  | .notText => "string_type"
  | .brokenText => "string_unicode"
  | .notInt => "int_type"
  | .intText => "int_parsing"
  | .intFromFraction => "int_from_float"
  | .intSize => "int_parsing_size"
  | .notBool => "bool_type"
  | .boolText => "bool_parsing"
  | .floatText => "float_parsing"
  | .notAMember => "enum"
  | .notAList => "list_type"
  | .notAnObject => "model_type"
  | .notJson => "json_invalid"
  | .notATime => "datetime_type"
  | .timeText _ => "datetime_from_date_parsing"
  | .timeRange => "datetime_parsing"
  | .belowMinimum _ => "greater_than_equal"
  | .aboveMaximum _ => "less_than_equal"

def PathStep.toJson : PathStep → Json
  | .field name => .str name
  | .index i => Json.ofNat i

structure FieldError where
  fault : Fault
  path : List PathStep
  deriving DecidableEq, Repr

namespace FieldError

def toJson (e : FieldError) : Json :=
  .obj [("type", .str e.fault.code), ("loc", .arr (e.path.map PathStep.toJson))]

def listJson (errors : List FieldError) : Json := .arr (errors.map toJson)

end FieldError

inductive Decoded (α : Type) where
  | ok (value : α)
  | invalid (errors : List FieldError)
  | outOfRange
  deriving Repr

namespace Decoded

variable {α β : Type}

def map (f : α → β) : Decoded α → Decoded β
  | ok a => ok (f a)
  | invalid es => invalid es
  | outOfRange => outOfRange

/-- Both parts are read in any case, so that the faults of both are reported. -/
def seq : Decoded (α → β) → Decoded α → Decoded β
  | outOfRange, _ => outOfRange
  | _, outOfRange => outOfRange
  | ok f, ok a => ok (f a)
  | ok _, invalid es => invalid es
  | invalid es, ok _ => invalid es
  | invalid es, invalid fs => invalid (es ++ fs)

instance : Functor Decoded := ⟨map, map ∘ Function.const _⟩

instance : Seq Decoded := ⟨fun f a => seq f (a ())⟩

def fault (f : Fault) : Decoded α := invalid [⟨f, []⟩]

/-- Puts a step in front of the paths of all faults. -/
def below (step : PathStep) : Decoded α → Decoded α
  | invalid es => invalid (es.map fun e => ⟨e.fault, step :: e.path⟩)
  | d => d

def bind (d : Decoded α) (f : α → Decoded β) : Decoded β :=
  match d with
  | ok a => f a
  | invalid es => invalid es
  | outOfRange => outOfRange

@[simp] theorem map_ok (f : α → β) (a : α) : f <$> ok a = ok (f a) := rfl

@[simp] theorem seq_ok (f : α → β) (a : α) : ok f <*> ok a = ok (f a) := rfl

@[simp] theorem below_ok (step : PathStep) (a : α) : below step (ok a) = ok a := rfl

end Decoded

abbrev Decoder (α : Type) := Json → Decoded α

namespace Decoder

variable {α β : Type}

def text : Decoder String
  | .str s => .ok s
  | .broken _ => .fault .brokenText
  | _ => .fault .notText

def json : Decoder Json := .ok

def optional (d : Decoder α) : Decoder (Option α)
  | .null => .ok none
  | v => some <$> d v

/-- Reads the items from index `i` on. -/
def itemsFrom (d : Decoder α) : (i : Nat) → List Json → Decoded (List α)
  | _, [] => .ok []
  | i, v :: rest => List.cons <$> (d v).below (.index i) <*> itemsFrom d (i + 1) rest

def list (d : Decoder α) : Decoder (List α)
  | .arr items => itemsFrom d 0 items
  | _ => .fault .notAList

def object (d : List (String × Json) → Decoded α) : Decoder α
  | .obj fields => d fields
  | _ => .fault .notAnObject

/-- The field `name`, which has to be there. -/
def required (name : String) (d : Decoder α) (fields : List (String × Json)) : Decoded α :=
  match Json.field? fields name with
  | some v => (d v).below (.field name)
  | none => (Decoded.fault .missing).below (.field name)

/-- The field `name`, or `fallback` where it is absent. -/
def defaulted (name : String) (fallback : α) (d : Decoder α) (fields : List (String × Json)) :
    Decoded α :=
  match Json.field? fields name with
  | some v => (d v).below (.field name)
  | none => .ok fallback

/-- Decodes the JSON value that a text spells. -/
def ofText (d : Decoder α) (s : String) : Decoded α :=
  match Json.parse? {} s with
  | some v => d v
  | none => .fault .notJson

end Decoder

end LineWatch
