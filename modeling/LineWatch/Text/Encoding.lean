import LineWatch.Text.Utf8

/-!
# Encodings of a text

A text is stored as bytes, as units of sixteen bits or as words of thirty-two bits. A byte order
mark at the start tells which; without one, it is told by the zero bytes among the first four,
as the text is taken to start with ASCII. Halves of surrogate pairs that stand alone are let
through; bytes that spell no code point spell no text.
-/

namespace LineWatch

def isHighUnit (u : Nat) : Bool := 55296 ≤ u && u < 56320

def isLowUnit (u : Nat) : Bool := 56320 ≤ u && u < 57344

/-- The code points of sixteen-bit units; half of a pair that stands alone remains. -/
def joinPairs : List Nat → List Nat
  | u :: w :: rest =>
    if isHighUnit u && isLowUnit w then
      (65536 + (u - 55296) * 1024 + (w - 56320)) :: joinPairs rest
    else u :: joinPairs (w :: rest)
  | units => units

def textOfPoints? (points : List Nat) : Option String :=
  if points.all (·.isValidChar) then some (String.ofList (points.map Char.ofNat)) else none

/-- An element of a text as it is stored. -/
inductive CodePoint where
  | char (c : Char)
  /-- Half of a surrogate pair that stands alone. -/
  | half (unit : Nat)
  deriving DecidableEq, Repr

def CodePoint.ofNat (n : Nat) : CodePoint :=
  if n.isValidChar then .char (Char.ofNat n) else .half n

def codePoints (s : String) : List CodePoint := s.toList.map .char

inductive TextEncoding where
  | bytes
  | units (bigEndian : Bool)
  | words (bigEndian : Bool)
  deriving DecidableEq, Repr

namespace TextEncoding

def marks : List (List UInt8 × TextEncoding) := [
  ([0, 0, 0xFE, 0xFF], .words true), ([0xFF, 0xFE, 0, 0], .words false),
  ([0xFE, 0xFF], .units true), ([0xFF, 0xFE], .units false), ([0xEF, 0xBB, 0xBF], .bytes)]

/-- The encoding of a text without a mark. -/
def ofZeros : List UInt8 → TextEncoding
  | a :: b :: c :: d :: _ =>
    if a = 0 then if b = 0 then .words true else .units true
    else if b = 0 then if c = 0 ∧ d = 0 then .words false else .units false
    else .bytes
  | [a, b] => if a = 0 then .units true else if b = 0 then .units false else .bytes
  | _ => .bytes

/-- The encoding, and the bytes behind the mark. -/
def detect (text : List UInt8) : TextEncoding × List UInt8 :=
  match marks.find? (·.1.isPrefixOf text) with
  | some m => (m.2, text.drop m.1.length)
  | none => (ofZeros text, text)

def number (bigEndian : Bool) (bytes : List UInt8) : Nat :=
  (if bigEndian then bytes else bytes.reverse).foldl (fun n b => n * 256 + b.toNat) 0

def units? (bigEndian : Bool) : List UInt8 → Option (List Nat)
  | [] => some []
  | a :: b :: rest => (units? bigEndian rest).map (number bigEndian [a, b] :: ·)
  | _ => none

def words? (bigEndian : Bool) : List UInt8 → Option (List Nat)
  | [] => some []
  | a :: b :: c :: d :: rest => (words? bigEndian rest).map (number bigEndian [a, b, c, d] :: ·)
  | _ => none

/-- The code points that a text without its mark spells. -/
def points? (text : List UInt8) : TextEncoding → Option (List Nat)
  | .bytes => pointsOfUtf8? 0 (text.map (·.toNat))
  | .units bigEndian => (units? bigEndian text).map joinPairs
  | .words bigEndian =>
    (words? bigEndian text).bind fun points =>
      if points.all (· < 1114112) then some points else none

end TextEncoding

/-- The text that bytes spell in the encoding they show. -/
def textOfBytes? (bytes : List UInt8) : Option (List CodePoint) :=
  let (encoding, text) := TextEncoding.detect bytes
  (encoding.points? text).map (·.map CodePoint.ofNat)

end LineWatch
