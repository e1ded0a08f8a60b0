/-!
# Rounding to integers

A quotient is rounded to the nearest integer. A half goes to the even neighbour in
`divHalfEven` and `roundHalfEven`, and to the upper one in `roundHalfUp`.
-/

namespace LineWatch

def divHalfEven (n : Int) (d : Nat) : Int :=
  let q := n / (d : Int)
  let r := n % (d : Int)
  if 2 * r < d then q
  else if 2 * r = d ∧ q % 2 = 0 then q
  else q + 1

def roundHalfEven (q : Rat) : Int := divHalfEven q.num q.den

def roundHalfUp (q : Rat) : Int := (2 * q.num + q.den) / (2 * (q.den : Int))

@[simp] theorem divHalfEven_one (n : Int) : divHalfEven n 1 = n := by
  simp [divHalfEven]

/-- The rounded quotient is off by at most one half. -/
theorem two_mul_sub_divHalfEven (n : Int) (d : Nat) (hd : 0 < d) :
    -(d : Int) ≤ 2 * (n - d * divHalfEven n d) ∧ 2 * (n - d * divHalfEven n d) ≤ d := by
  have h1 := Int.mul_ediv_add_emod n d
  have h2 := Int.emod_nonneg n (b := (d : Int)) (by omega)
  have h3 := Int.emod_lt_of_pos n (b := (d : Int)) (by omega)
  unfold divHalfEven
  simp only
  split
  · omega
  · split
    · omega
    · rw [Int.mul_add]; omega

@[simp] theorem roundHalfEven_intCast (n : Int) : roundHalfEven (n : Rat) = n := by
  simp [roundHalfEven]

end LineWatch
