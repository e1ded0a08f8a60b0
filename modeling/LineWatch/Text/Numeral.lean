/-!
# Numerals

`intText` writes an integer in decimal. `digitsValue` is the number that decimal digits stand
for, and reads back what `intText` writes behind the sign. `hexValue?` is the value of a
hexadecimal digit of either case.
-/

namespace LineWatch

def digitValue (c : Char) : Nat := c.toNat - 48

def digitsValue (cs : List Char) : Nat := cs.foldl (fun n c => n * 10 + digitValue c) 0

def intText (i : Int) : List Char :=
  if i < 0 then '-' :: Nat.toDigits 10 i.natAbs else Nat.toDigits 10 i.natAbs

def hexValue? (c : Char) : Option Nat :=
  let n := c.toNat
  if 48 ≤ n ∧ n ≤ 57 then some (n - 48)
  else if 97 ≤ n ∧ n ≤ 102 then some (n - 87)
  else if 65 ≤ n ∧ n ≤ 70 then some (n - 55)
  else none

theorem digitsValue_append_singleton (cs : List Char) (c : Char) :
    digitsValue (cs ++ [c]) = digitsValue cs * 10 + digitValue c := by
  simp [digitsValue, List.foldl_append]

theorem digitValue_digitChar {d : Nat} (h : d < 10) : digitValue d.digitChar = d := by
  simp only [digitValue, Nat.toNat_digitChar_of_lt_ten h]
  omega

theorem digitsValue_toDigits (n : Nat) : digitsValue (Nat.toDigits 10 n) = n := by
  induction n using Nat.strongRecOn with
  | ind n ih =>
    by_cases h : n < 10
    · rw [Nat.toDigits_of_lt_base h]
      simp [digitsValue, digitValue_digitChar h]
    · have hd : n % 10 < 10 := Nat.mod_lt _ (by decide)
      have hp := Nat.toDigits_append_toDigits (b := 10) (n := n / 10) (d := n % 10) (by decide)
        (by omega) hd
      rw [Nat.toDigits_of_lt_base hd, Nat.div_add_mod] at hp
      rw [← hp, digitsValue_append_singleton, ih (n / 10) (by omega), digitValue_digitChar hd]
      omega

theorem intText_ofNat (n : Nat) : intText n = Nat.toDigits 10 n := by
  have h : ¬(n : Int) < 0 := by omega
  simp [intText, h]

end LineWatch
