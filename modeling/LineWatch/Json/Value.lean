import LineWatch.Number.Shortest
import LineWatch.Text.Encoding

/-!
# JSON values

Integers and binary64 numbers are kept apart, as the spelling of a number decides which of the
two it is. An object is the list of its fields in order; `put` gives a repeated name its last
value and the place of its first one.
-/

namespace LineWatch

inductive Json where
  | null
  | bool (b : Bool)
  | int (i : Int)
  | float (x : Binary64)
  | str (s : String)
  /-- A text by its code points, among which is half of a surrogate pair. -/
  | broken (points : List Nat)
  | arr (items : List Json)
  | obj (fields : List (String × Json))
  deriving Repr

namespace Json

instance : Inhabited Json := ⟨.null⟩

def put (fields : List (String × Json)) (name : String) (value : Json) : List (String × Json) :=
  match fields with
  | [] => [(name, value)]
  | (k, v) :: rest => if k = name then (name, value) :: rest else (k, v) :: put rest name value

def field? (fields : List (String × Json)) (name : String) : Option Json :=
  fields.lookup name

def ofOption {α : Type} (f : α → Json) : Option α → Json
  | none => .null
  | some a => f a

def ofStrings (items : List String) : Json := .arr (items.map .str)

def ofNat (n : Nat) : Json := .int n

/-- The text of these code points. -/
def ofPoints (points : List Nat) : Json :=
  match textOfPoints? points with
  | some s => .str s
  | none => .broken points

/-- False for `null`, `false`, zero and the empty text, list and object; true for all else. -/
def isSubstantial : Json → Bool
  | .null => false
  | .bool b => b
  | .int i => i != 0
  | .float x => x.toRat? != some 0
  | .str s => s != ""
  | .broken _ => true
  | .arr items => !items.isEmpty
  | .obj fields => !fields.isEmpty

theorem field?_put_self (fields : List (String × Json)) (name : String) (value : Json) :
    field? (put fields name value) name = some value := by
  induction fields with
  | nil => simp [put, field?]
  | cons kv rest ih =>
    obtain ⟨k, v⟩ := kv
    simp only [put]
    split
    · simp [field?]
    · next h =>
      have h' : (name == k) = false := by simpa using fun e => h e.symm
      simpa [field?, List.lookup_cons, h'] using ih

end Json

end LineWatch
