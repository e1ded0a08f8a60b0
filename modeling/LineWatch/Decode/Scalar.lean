import LineWatch.Decode.Basic

/-!
# Lenient scalars

An integer may also be a number without a fraction, a truth value or a decimal text; a truth
value may also be 0, 1 or one of twelve words; a timestamp may be a text or a number.
-/

namespace LineWatch

/-- The characters that count as blank space around a number. -/
def isSpaceChar (c : Char) : Bool :=
  let n := c.toNat
  (9 ≤ n && n ≤ 13) || n == 32 || n == 0x85 || n == 0xA0 || n == 0x1680 ||
    (0x2000 ≤ n && n ≤ 0x200A) || n == 0x2028 || n == 0x2029 || n == 0x202F || n == 0x205F ||
    n == 0x3000

def trimSpaces (cs : List Char) : List Char :=
  ((cs.dropWhile isSpaceChar).reverse.dropWhile isSpaceChar).reverse

/-- Drops underscores that stand alone between other characters. -/
def dropUnderscores? : List Char → Option (List Char)
  | [] => some []
  | ['_'] => none
  | '_' :: '_' :: _ => none
  | '_' :: rest => dropUnderscores? rest
  | c :: rest => (dropUnderscores? rest).map (c :: ·)

/-- An underscore may stand between two digits, and nowhere else. -/
def withoutUnderscores? : List Char → Option (List Char)
  | '_' :: _ => none
  | cs => dropUnderscores? cs

namespace Decoder

def smallestWord : Int := -9223372036854775808
def largestWord : Int := 9223372036854775807

def isWord (i : Int) : Bool := smallestWord ≤ i && i ≤ largestWord

/-- The integer a text spells: blanks around it, a sign, underscores and zeros behind a point are
allowed. -/
def intOfText (s : String) : Decoded Int :=
  let cs := trimSpaces s.toList
  if 4300 < cs.length then .fault .intSize
  else
    let (negative, cs) := match cs with
      | '-' :: cs => (true, cs)
      | '+' :: cs => (false, cs)
      | cs => (false, cs)
    let whole := cs.takeWhile (· != '.')
    let fraction := (cs.dropWhile (· != '.')).drop 1
    match withoutUnderscores? whole with
    | none => .fault .intText
    | some ds =>
      if ds.isEmpty || !ds.all Char.isDigit || !fraction.all (· == '0') then .fault .intText
      else
        let n := digitsValue ds
        .ok (if negative then -(n : Int) else n)

def intOfFloat (x : Binary64) : Decoded Int :=
  match x.toRat? with
  | none => .fault .intFromFraction
  | some q =>
    if q.den ≠ 1 then .fault .intFromFraction
    else if isWord q.num then .ok q.num
    else .fault .intSize

def int : Decoder Int
  | .int i => .ok i
  | .float x => intOfFloat x
  | .bool b => .ok (if b then 1 else 0)
  | .str s => intOfText s
  | _ => .fault .notInt

def trueWords : List String := ["1", "t", "y", "yes", "on", "true"]

def falseWords : List String := ["0", "f", "n", "no", "off", "false"]

def boolOfText (s : String) : Decoded Bool :=
  let word := s.toLower
  if trueWords.contains word then .ok true
  else if falseWords.contains word then .ok false
  else .fault .boolText

def boolOfInt (i : Int) : Decoded Bool :=
  if i = 0 then .ok false
  else if i = 1 then .ok true
  else if isWord i then .fault .boolText
  else .fault .notBool

def bool : Decoder Bool
  | .bool b => .ok b
  | .int i => boolOfInt i
  | .float x =>
    match intOfFloat x with
    | .ok i => boolOfInt i
    | _ => .fault .notBool
  | .str s => boolOfText s
  | _ => .fault .notBool

def timeOfText (s : String) : Decoded Timestamp :=
  match Timestamp.ofText? s with
  | .ok t => .ok t
  | .error (.notADate p) => .fault (.timeText p)
  | .error .outOfRange => .fault .timeRange

/-- A timestamp as it is given, without a move to UTC. -/
def timestamp : Decoder Timestamp
  | .str s => timeOfText s
  | .int i =>
    match Timestamp.ofInt? i with
    | some t => .ok t
    | none => .fault .timeRange
  | .float x =>
    match Timestamp.ofBinary64? x with
    | some t => .ok t
    | none => .fault .timeRange
  | .broken _ => .fault .brokenText
  | _ => .fault .notATime

def toUtc (t : Timestamp) : Decoded Instant :=
  match t.toInstant? with
  | some i => .ok i
  | none => .outOfRange

/-- A timestamp moved to UTC. -/
def instant : Decoder Instant := fun v => (timestamp v).bind toUtc

def floatWords : List (String × Binary64) := [
  ("inf", .infinite false), ("infinity", .infinite false), ("nan", .nan)]

/-- The binary64 number a text spells: decimal, with a power of ten, infinite or none. -/
def floatOfText (s : String) : Decoded Binary64 :=
  let cs := trimSpaces s.toList
  let (negative, cs) := match cs with
    | '-' :: cs => (true, cs)
    | '+' :: cs => (false, cs)
    | cs => (false, cs)
  match floatWords.lookup (String.ofList cs).toLower with
  | some (.infinite _) => .ok (.infinite negative)
  | some x => .ok x
  | none =>
    match withoutUnderscores? cs with
    | none => .fault .floatText
    | some cs =>
      let whole := cs.takeWhile Char.isDigit
      let rest := cs.dropWhile Char.isDigit
      let (fraction, rest) := match rest with
        | '.' :: rest => (rest.takeWhile Char.isDigit, rest.dropWhile Char.isDigit)
        | rest => ([], rest)
      let exponent? : Option Int := match rest with
        | [] => some 0
        | c :: rest => if c == 'e' || c == 'E' then Json.exponent? rest else none
      match exponent? with
      | none => .fault .floatText
      | some e =>
        if whole.isEmpty && fraction.isEmpty then .fault .floatText
        else
          .ok (.ofDecimal negative (digitsValue (whole ++ fraction)) (e - fraction.length))

end Decoder

end LineWatch
