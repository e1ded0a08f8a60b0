import LineWatch.Json.Value
import LineWatch.Text.Numeral

/-!
# Reading JSON

A text is read as exactly one JSON value with blanks around it, and besides JSON proper the words
`NaN`, `Infinity` and `-Infinity` are values. Of a repeated name the last value counts. The limits
bound the nesting of lists and objects and the digits of an integer. With `halves` a text may hold
halves of surrogate pairs that stand alone, as they are or as escapes. Reading goes from left to
right and ends at the first fault, so a text that is nested too deep need not be JSON at all.
-/

namespace LineWatch.Json

structure Limits where
  depth : Nat := 200
  digits : Nat := 4300
  /-- Empty lists and objects take a level of the depth, as filled ones do. -/
  countsEmpty : Bool := false

inductive Container where
  | list
  | object
  deriving DecidableEq, Repr

namespace Container

def name : Container → String
  | .list => "array"
  | .object => "object"

def close : Container → Char
  | .list => ']'
  | .object => '\x7d'

def empty : Container → Json
  | .list => .arr []
  | .object => .obj []

end Container

/-- Why a text is not read. -/
inductive ReadError where
  | malformed
  /-- A list or an object is opened deeper than the limits allow. -/
  | tooDeep (container : Container)
  deriving DecidableEq, Repr

/-- What reading a value comes to: the value and what is left behind it. -/
abbrev Reading := Except ReadError (Json × List CodePoint)

def isBlank : CodePoint → Bool
  | .char c => c == ' ' || c == '\t' || c == '\n' || c == '\r'
  | .half _ => false

def skipBlanks (cs : List CodePoint) : List CodePoint := cs.dropWhile isBlank

theorem skipBlanks_char {c : Char} (h : isBlank (.char c) = false) (cs : List CodePoint) :
    skipBlanks (.char c :: cs) = .char c :: cs := by
  rw [skipBlanks, List.dropWhile_cons_of_neg (by simp [h])]

/-- The sixteen-bit unit written with four hexadecimal digits. -/
def unit? (a b c d : Char) : Option Nat := do
  let a ← hexValue? a
  let b ← hexValue? b
  let c ← hexValue? c
  let d ← hexValue? d
  return ((a * 16 + b) * 16 + c) * 16 + d

def plainEscape? (c : Char) : Option Char :=
  match c with
  | '"' => some '"'
  | '\\' => some '\\'
  | '/' => some '/'
  | 'b' => some (Char.ofNat 8)
  | 'f' => some (Char.ofNat 12)
  | 'n' => some '\n'
  | 'r' => some '\r'
  | 't' => some '\t'
  | _ => none

/-- The code points up to the closing quote. Escapes stand for units of sixteen bits, and pairs of
units are joined; half of a pair that is no escape is joined with nothing. `points` are the code
points up to the last such half, and `units` are the units behind them, last one first. -/
def readUnits (points units : List Nat) : List CodePoint → Option (List Nat × List CodePoint)
  | [] => none
  | .char '"' :: rest => some (points ++ joinPairs units.reverse, rest)
  | .char '\\' :: .char 'u' :: .char a :: .char b :: .char c :: .char d :: rest =>
    match unit? a b c d with
    | none => none
    | some u => readUnits points (u :: units) rest
  | .char '\\' :: .char c :: rest =>
    match plainEscape? c with
    | none => none
    | some e => readUnits points (e.toNat :: units) rest
  | .char '\\' :: _ => none
  | .char c :: rest => if c.toNat < 32 then none else readUnits points (c.toNat :: units) rest
  | .half n :: rest => readUnits (points ++ joinPairs units.reverse ++ [n]) [] rest

/-- Reads a text up to its closing quote. -/
def readString (halves : Bool) (cs : List CodePoint) : Option (List Nat × List CodePoint) :=
  match readUnits [] [] cs with
  | none => none
  | some (points, rest) =>
    if halves || points.all (·.isValidChar) then some (points, rest) else none

/-- The name of a field; half of a surrogate pair, which no name here has, becomes U+FFFD. -/
def nameOf (points : List Nat) : String :=
  String.ofList (points.map fun n => if n.isValidChar then Char.ofNat n else Char.ofNat 0xFFFD)

def isNumberChar (c : Char) : Bool :=
  c.isDigit || c == '-' || c == '+' || c == '.' || c == 'e' || c == 'E'

def exponent? : List Char → Option Int
  | '-' :: ds => if ds.isEmpty || !ds.all Char.isDigit then none else some (-(digitsValue ds : Int))
  | '+' :: ds => if ds.isEmpty || !ds.all Char.isDigit then none else some (digitsValue ds)
  | ds => if ds.isEmpty || !ds.all Char.isDigit then none else some (digitsValue ds)

/-- The number spelt by `cs` after its sign. -/
def unsigned? (limits : Limits) (negative : Bool) (cs : List Char) : Option Json :=
  let whole := cs.takeWhile Char.isDigit
  let afterWhole := cs.dropWhile Char.isDigit
  if whole.isEmpty || (whole.length != 1 && whole.head? == some '0') then none
  else
    let fraction? : Option (Option (List Char) × List Char) :=
      match afterWhole with
      | '.' :: rest =>
        let ds := rest.takeWhile Char.isDigit
        if ds.isEmpty then none else some (some ds, rest.dropWhile Char.isDigit)
      | rest => some (none, rest)
    match fraction? with
    | none => none
    | some (none, []) =>
      if limits.digits < whole.length then none
      else some (.int (if negative then -(digitsValue whole : Int) else digitsValue whole))
    | some (fraction, rest) =>
      let ds := fraction.getD []
      let mantissa := digitsValue (whole ++ ds)
      match rest with
      | [] => some (.float (.ofDecimal negative mantissa (-(ds.length : Int))))
      | c :: rest =>
        if c == 'e' || c == 'E' then
          (exponent? rest).map fun e => .float (.ofDecimal negative mantissa (e - ds.length))
        else none

/-- The characters at the start that satisfy `p`, and the rest. -/
def spanChars (p : Char → Bool) : List CodePoint → List Char × List CodePoint
  | .char c :: rest =>
    if p c then
      let (cs, rest) := spanChars p rest
      (c :: cs, rest)
    else ([], .char c :: rest)
  | rest => ([], rest)

def number? (limits : Limits) (cs : List CodePoint) : Option (Json × List CodePoint) :=
  let (spelling, rest) := spanChars isNumberChar cs
  let value := match spelling with
    | '-' :: ds => unsigned? limits true ds
    | ds => unsigned? limits false ds
  value.map (·, rest)

/-- What is left of `cs` after `word`, if `cs` starts with it. -/
def afterWord? : List Char → List CodePoint → Option (List CodePoint)
  | [], cs => some cs
  | w :: ws, .char c :: cs => if w = c then afterWord? ws cs else none
  | _ :: _, _ => none

def words : List (List Char × Json) := [
  ("null".toList, .null), ("true".toList, .bool true), ("false".toList, .bool false),
  ("NaN".toList, .float .nan), ("Infinity".toList, .float (.infinite false)),
  ("-Infinity".toList, .float (.infinite true))]

def word? (cs : List CodePoint) : Option (Json × List CodePoint) :=
  words.findSome? fun w => (afterWord? w.1 cs).map (w.2, ·)

/-- Reads a text in quotes, a word or a number. -/
def readAtom (limits : Limits) (halves : Bool) : List CodePoint → Reading
  | .char '"' :: rest =>
    match readString halves rest with
    | none => .error .malformed
    | some (points, rest) => .ok (ofPoints points, rest)
  | cs =>
    match (word? cs).or (number? limits cs) with
    | none => .error .malformed
    | some r => .ok r

/-- Reads the name of a field, and the colon behind it. -/
def readName (halves : Bool) (cs : List CodePoint) : Option (String × List CodePoint) :=
  match skipBlanks cs with
  | .char '"' :: rest =>
    match readString halves rest with
    | none => none
    | some (points, rest) =>
      match skipBlanks rest with
      | .char ':' :: rest => some (nameOf points, rest)
      | _ => none
  | _ => none

/-- Nothing more can be opened with so much depth left, an empty list or object included. -/
def Limits.exhausted (limits : Limits) (depth : Nat) : Bool := limits.countsEmpty && depth == 0

/-- Reads a list or an object behind its bracket; `filled` reads what is not empty. -/
def enter (limits : Limits) (depth : Nat) (container : Container)
    (filled : List CodePoint → Reading) (cs : List CodePoint) : Reading :=
  if limits.exhausted depth then .error (.tooDeep container)
  else
    let cs := skipBlanks cs
    if cs.head? = some (.char container.close) then .ok (container.empty, cs.tail)
    else if depth = 0 then .error (.tooDeep container)
    else filled cs

section

variable {limits : Limits} {depth : Nat}

theorem enter_close (hlimits : limits.countsEmpty = false) (container : Container)
    (filled : List CodePoint → Reading) (rest : List CodePoint) :
    enter limits depth container filled (.char container.close :: rest) =
      .ok (container.empty, rest) := by
  have hclose : isBlank (.char container.close) = false := by cases container <;> decide
  simp [enter, Limits.exhausted, hlimits, skipBlanks_char hclose]

theorem enter_filled (container : Container)
    (filled : List CodePoint → Reading) {c : Char}
    (hblank : isBlank (.char c) = false) (hc : c ≠ container.close) (cs : List CodePoint) :
    enter limits (depth + 1) container filled (.char c :: cs) = filled (.char c :: cs) := by
  simp [enter, Limits.exhausted, skipBlanks_char hblank, hc]

end

/-- Goes on behind a part of a list or an object: `next` reads the parts behind a comma, and without
one the whole is read. -/
@[inline] def proceed (container : Container) (whole : Json)
    (next : List CodePoint → Reading) (cs : List CodePoint) : Reading :=
  match skipBlanks cs with
  | .char c :: rest =>
    if c = ',' then next rest
    else if c = container.close then .ok (whole, rest)
    else .error .malformed
  | _ => .error .malformed

theorem proceed_close (container : Container) (whole : Json)
    (next : List CodePoint → Reading) (rest : List CodePoint) :
    proceed container whole next (.char container.close :: rest) = .ok (whole, rest) := by
  cases container <;> rfl

theorem proceed_comma (container : Container) (whole : Json)
    (next : List CodePoint → Reading) (rest : List CodePoint) :
    proceed container whole next (.char ',' :: rest) = next rest := rfl

mutual

/-- Reads one value; `fuel` bounds the steps and `depth` the nesting still allowed. -/
def readValue (limits : Limits) (halves : Bool) :
    (fuel depth : Nat) → List CodePoint → Reading
  | 0, _, _ => .error .malformed
  | fuel + 1, depth, cs =>
    match skipBlanks cs with
    | .char '{' :: rest =>
      enter limits depth .object (readFields limits halves fuel (depth - 1) [] ·) rest
    | .char '[' :: rest =>
      enter limits depth .list (readItems limits halves fuel (depth - 1) [] ·) rest
    | rest => readAtom limits halves rest

def readItems (limits : Limits) (halves : Bool) :
    (fuel depth : Nat) → List Json → List CodePoint → Reading
  | 0, _, _, _ => .error .malformed
  | fuel + 1, depth, acc, cs =>
    match readValue limits halves fuel depth cs with
    | .error e => .error e
    | .ok (v, rest) =>
      proceed .list (.arr (v :: acc).reverse) (readItems limits halves fuel depth (v :: acc) ·) rest

def readFields (limits : Limits) (halves : Bool) :
    (fuel depth : Nat) → List (String × Json) → List CodePoint → Reading
  | 0, _, _, _ => .error .malformed
  | fuel + 1, depth, acc, cs =>
    match readName halves cs with
    | none => .error .malformed
    | some (name, rest) =>
      match readValue limits halves fuel depth rest with
      | .error e => .error e
      | .ok (v, rest) =>
        let fields := put acc name v
        proceed .object (.obj fields) (readFields limits halves fuel depth fields ·) rest

end

/-- Reads a whole text. -/
def read (limits : Limits) (cs : List CodePoint) (halves : Bool := false) :
    Except ReadError Json :=
  match readValue limits halves (2 * cs.length + 1) limits.depth cs with
  | .error e => .error e
  | .ok (v, rest) => if (skipBlanks rest).isEmpty then .ok v else .error .malformed

def parse? (limits : Limits) (s : String) (halves : Bool := false) : Option Json :=
  (read limits (codePoints s) halves).toOption

end LineWatch.Json
