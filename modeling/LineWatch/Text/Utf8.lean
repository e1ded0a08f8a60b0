/-!
# UTF-8

A byte below 128 stands for itself. Each other leading byte announces how many bytes follow, and
bounds the first of them, so that every character has one spelling and no other number has any.
Code points are read more freely: halves of surrogate pairs are spelt like characters.
-/

namespace LineWatch

def isContinuation (b : Nat) : Bool := 128 ≤ b && b < 192

/-- What a leading byte announces: the range of the byte behind it, the number of bytes that
follow, and the part of the leading byte that is no payload. -/
structure Announced where
  low : Nat := 128
  high : Nat := 191
  count : Nat
  marker : Nat

def announced? (a : Nat) : Option Announced :=
  if 194 ≤ a ∧ a < 224 then some { count := 1, marker := 192 }
  else if a = 224 then some { low := 160, count := 2, marker := 224 }
  else if a = 237 then some { high := 159, count := 2, marker := 224 }
  else if 225 ≤ a ∧ a < 240 then some { count := 2, marker := 224 }
  else if a = 240 then some { low := 144, count := 3, marker := 240 }
  else if a = 244 then some { high := 143, count := 3, marker := 240 }
  else if 241 ≤ a ∧ a < 244 then some { count := 3, marker := 240 }
  else none

/-- The bytes that can belong to the character announced. -/
def Announced.tail (n : Announced) : List Nat → List Nat
  | [] => []
  | b :: rest =>
    if n.low ≤ b ∧ b ≤ n.high then b :: (rest.take (n.count - 1)).takeWhile isContinuation else []

/-- The number that a leading byte and the bytes behind it stand for. -/
def Announced.point (n : Announced) (a : Nat) (tail : List Nat) : Nat :=
  tail.foldl (fun c b => c * 64 + (b - 128)) (a - n.marker)

/-- The code point that starts with byte `a`, and how many of the bytes behind belong to it. -/
def pointAt? (a : Nat) (behind : List Nat) : Option (Nat × Nat) :=
  if a < 128 then some (a, 0)
  else
    (announced? a).bind fun n =>
      -- the leading byte of the halves
      let n := if a = 237 then { n with high := 191 } else n
      let tail := n.tail behind
      if tail.length = n.count then some (n.point a tail, n.count) else none

/-- The code points of bytes, of which the first `skip` have been read. -/
def pointsOfUtf8? : (skip : Nat) → List Nat → Option (List Nat)
  | _, [] => some []
  | skip + 1, _ :: rest => pointsOfUtf8? skip rest
  | 0, a :: rest =>
    match pointAt? a rest with
    | none => none
    | some (p, n) => (pointsOfUtf8? n rest).map (p :: ·)

end LineWatch
