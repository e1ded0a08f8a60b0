import LineWatch.Number.Binary64

/-!
# Shortest decimal text of a binary64 number

`shortest` finds the fewest digits that read back as the same number: for one digit, two
digits, and so on up to seventeen it tests the two neighbours of the number on the decimal grid
of that many digits, and the nearer of the neighbours that read back wins. The text is
positional for exponents from -4 to 15 and has a power of ten otherwise, and it always shows a
point or a power of ten, so that it cannot be taken for an integer.
-/

namespace LineWatch

structure Decimal where
  digits : Nat
  exponent : Int
  deriving DecidableEq, Repr

namespace Decimal

def toRat (d : Decimal) : Rat := (d.digits : Rat) * (10 : Rat) ^ d.exponent

/-- The largest `e` with `10 ^ e ≤ q`, for `0 < q`. -/
def exponentOf (q : Rat) : Int :=
  let e : Int := ((Nat.toDigits 10 q.num.natAbs).length : Int) - (Nat.toDigits 10 q.den).length
  if (10 : Rat) ^ e ≤ q then e else e - 1

/-- The nearest number of `count` digits that reads back as `q`, if there is one. -/
def candidate? (q : Rat) (top : Int) (count : Nat) : Option Decimal :=
  let e := top - count + 1
  let below : Nat := (q / (10 : Rat) ^ e).floor.toNat
  let low : Decimal := ⟨below, e⟩
  let high : Decimal := ⟨below + 1, e⟩
  let lowReads := nearest low.toRat = q
  let highReads := nearest high.toRat = q
  if lowReads ∧ (¬highReads ∨ q - low.toRat ≤ high.toRat - q) then some low
  else if highReads then some high
  else none

def shortest (q : Rat) : Decimal :=
  let top := exponentOf q
  let counts := List.range' 1 17
  (counts.findSome? (candidate? q top)).getD ⟨(q / (10 : Rat) ^ (top - 16)).floor.toNat, top - 16⟩

def digitChars (n : Nat) : List Char := Nat.toDigits 10 n

/-- Drops trailing zeros, but keeps the first digit. -/
def trimZeros : List Char → List Char
  | [] => []
  | c :: rest => c :: (rest.reverse.dropWhile (· = '0')).reverse

def exponentText (e : Int) : List Char :=
  let digits := digitChars e.natAbs
  'e' :: (if e < 0 then '-' else '+') :: (if digits.length < 2 then '0' :: digits else digits)

def text (d : Decimal) : List Char :=
  let all := digitChars d.digits
  let point : Int := all.length + d.exponent
  let digits := trimZeros all
  if -4 < point ∧ point ≤ 16 then
    if point ≤ 0 then '0' :: '.' :: (List.replicate (-point).toNat '0' ++ digits)
    else
      let whole := digits.take point.toNat
      let fraction := digits.drop point.toNat
      whole ++ List.replicate (point.toNat - whole.length) '0' ++
        '.' :: (if fraction.isEmpty then ['0'] else fraction)
  else
    let mantissa := match digits with
      | [] => []
      | [c] => [c]
      | c :: rest => c :: '.' :: rest
    mantissa ++ exponentText (point - 1)

end Decimal

def Binary64.text : Binary64 → List Char
  | .finite q =>
    if q = 0 then ['0', '.', '0']
    else if q < 0 then '-' :: (Decimal.shortest (-q)).text
    else (Decimal.shortest q).text
  | .negativeZero => ['-', '0', '.', '0']
  | .infinite negative => (if negative then ['-'] else []) ++ "Infinity".toList
  | .nan => "NaN".toList

end LineWatch
