import LineWatch.Number.Rounding

/-!
# Exact binary64 numbers

A finite binary64 number is the rational number it stands for; the zero with a minus sign, the
two infinities and "not a number" are kept apart. `nearest` rounds a rational number to 53
significant bits, with at most 1074 bits after the point, and a tie goes to the even
neighbour. Every operation computes the exact result and rounds it once.
-/

namespace LineWatch

def twoPow (e : Int) : Rat := (2 : Rat) ^ e

def magnitude (q : Rat) : Rat := if q < 0 then -q else q

/-- The largest `e` with `2 ^ e ≤ |q|`, for `q ≠ 0`. -/
def binaryExponent (q : Rat) : Int :=
  let e : Int := (q.num.natAbs.log2 : Int) - (q.den.log2 : Int)
  if twoPow e ≤ magnitude q then e else e - 1

/-- The distance of neighbouring binary64 numbers around `q`. -/
def ulp (q : Rat) : Rat := twoPow (max (binaryExponent q - 52) (-1074))

def nearest (q : Rat) : Rat := (roundHalfEven (q / ulp q) : Rat) * ulp q

/-- The least rational number too large for binary64 once rounded to 53 bits. -/
def overflowBound : Rat := twoPow 1024

inductive Binary64 where
  | finite (value : Rat)
  | negativeZero
  | infinite (negative : Bool)
  | nan
  deriving DecidableEq, Repr

namespace Binary64

instance : Inhabited Binary64 := ⟨.finite 0⟩

def zero : Binary64 := .finite 0

def ofRat (q : Rat) : Binary64 :=
  let v := nearest q
  if overflowBound ≤ magnitude v then .infinite (q < 0)
  else if v = 0 ∧ q < 0 then .negativeZero
  else .finite v

def ofInt (i : Int) : Binary64 := ofRat i

/-- The correctly rounded quotient of two integers, `none` if it is too large. -/
def quotient? (n : Int) (d : Int) : Option Binary64 :=
  match ofRat ((n : Rat) / (d : Rat)) with
  | .infinite _ => none
  | .negativeZero => some (if n = 0 then zero else .negativeZero)
  | x => some x

def isNegative : Binary64 → Bool
  | .finite q => q < 0
  | .negativeZero => true
  | .infinite negative => negative
  | .nan => false

def toRat? : Binary64 → Option Rat
  | .finite q => some q
  | .negativeZero => some 0
  | _ => none

private def signedZero (negative : Bool) : Binary64 := if negative then .negativeZero else zero

def mul (x y : Binary64) : Binary64 :=
  match x, y with
  | .nan, _ | _, .nan => .nan
  | .infinite s, y => if y.toRat? = some 0 then .nan else .infinite (s != y.isNegative)
  | x, .infinite s => if x.toRat? = some 0 then .nan else .infinite (x.isNegative != s)
  | x, y =>
    let p := x.toRat?.getD 0 * y.toRat?.getD 0
    if p = 0 then signedZero (x.isNegative != y.isNegative) else ofRat p

def add (x y : Binary64) : Binary64 :=
  match x, y with
  | .nan, _ | _, .nan => .nan
  | .infinite s, .infinite t => if s = t then .infinite s else .nan
  | .infinite s, _ | _, .infinite s => .infinite s
  | .negativeZero, .negativeZero => .negativeZero
  | x, y => ofRat (x.toRat?.getD 0 + y.toRat?.getD 0)

/-- Division by a nonzero integer. -/
def divInt (x : Binary64) (d : Int) : Binary64 :=
  match x with
  | .finite q => if q = 0 then signedZero (d < 0) else ofRat (q / (d : Rat))
  | .negativeZero => signedZero (0 ≤ d)
  | .infinite s => .infinite (s != decide (d < 0))
  | .nan => .nan

def lt (x y : Binary64) : Bool :=
  match x, y with
  | .nan, _ | _, .nan => false
  | .infinite s, .infinite t => s && !t
  | .infinite s, _ => s
  | _, .infinite t => !t
  | x, y => x.toRat?.getD 0 < y.toRat?.getD 0

def le (x y : Binary64) : Bool :=
  match x, y with
  | .nan, _ | _, .nan => false
  | x, y => !y.lt x

/-- The first of two numbers unless the second one is below it. -/
def smaller (x y : Binary64) : Binary64 := if y.lt x then y else x

/-- The number `mantissa * 10 ^ exponent`, correctly rounded. -/
def ofDecimal (negative : Bool) (mantissa : Nat) (exponent : Int) : Binary64 :=
  let digits : Int := (Nat.toDigits 10 mantissa).length
  if mantissa = 0 ∨ digits + exponent < -400 then signedZero negative
  else if 400 < digits + exponent then .infinite negative
  else
    let q := (mantissa : Rat) * (10 : Rat) ^ exponent
    ofRat (if negative then -q else q)

theorem lt_irrefl (x : Binary64) : x.lt x = false := by
  cases x <;> simp [lt, toRat?]

end Binary64

end LineWatch
