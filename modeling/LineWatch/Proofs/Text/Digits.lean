import Mathlib.Data.Nat.Digits.Defs
import Mathlib.Tactic.Ring
import LineWatch.Text.Numeral
import LineWatch.Time.Text

/-!
# Digits are read back

Zeros in front do not change what decimal digits stand for, and digits behind each other stand for
the value of the first ones, moved by as many places as there are digits behind. So a number that
was padded to a fixed width is read back from that many characters.
-/

namespace LineWatch

section

variable {p : Char → Bool} {cs rest : List Char}

theorem takeWhile_append (hcs : ∀ c ∈ cs, p c = true) (hrest : ∀ c ∈ rest.head?, p c = false) :
    (cs ++ rest).takeWhile p = cs := by
  rw [List.takeWhile_append_of_pos hcs]
  cases rest with
  | nil => simp
  | cons c rest => simp [hrest c rfl]

theorem dropWhile_append (hcs : ∀ c ∈ cs, p c = true) (hrest : ∀ c ∈ rest.head?, p c = false) :
    (cs ++ rest).dropWhile p = rest := by
  rw [List.dropWhile_append_of_pos hcs]
  cases rest with
  | nil => rfl
  | cons c rest => simp [hrest c rfl]

end

theorem foldl_digitValue (cs : List Char) (acc : ℕ) :
    cs.foldl (fun n c => n * 10 + digitValue c) acc = acc * 10 ^ cs.length + digitsValue cs := by
  induction cs generalizing acc with
  | nil => simp [digitsValue]
  | cons c cs ih =>
    have hc : digitsValue (c :: cs) = digitValue c * 10 ^ cs.length + digitsValue cs := by
      rw [digitsValue, List.foldl_cons, ih]
      simp
    rw [List.foldl_cons, ih, hc, List.length_cons]
    ring

theorem digitsValue_append (cs ds : List Char) :
    digitsValue (cs ++ ds) = digitsValue cs * 10 ^ ds.length + digitsValue ds := by
  rw [digitsValue, List.foldl_append, foldl_digitValue, ← digitsValue]

theorem digitsValue_replicate_zero (n : ℕ) : digitsValue (List.replicate n '0') = 0 := by
  induction n with
  | zero => rfl
  | succ n ih =>
    rw [List.replicate_succ', digitsValue_append, ih]
    simp [digitsValue, digitValue]

theorem isDigit_of_mem_toDigits {n : ℕ} : ∀ c ∈ Nat.toDigits 10 n, c.isDigit = true :=
  fun _ => Nat.isDigit_of_mem_toDigits (by decide) (by decide)

namespace Date

variable {width n : ℕ}

theorem isDigit_of_mem_paddedText : ∀ c ∈ paddedText width n, c.isDigit = true := by
  intro c hc
  rcases List.mem_append.mp hc with hzero | hdigit
  · rw [List.eq_of_mem_replicate hzero]
    decide
  · exact isDigit_of_mem_toDigits c hdigit

theorem digitsValue_paddedText : digitsValue (paddedText width n) = n := by
  rw [paddedText, digitsValue_append, digitsValue_replicate_zero, digitsValue_toDigits,
    Nat.zero_mul, Nat.zero_add]

theorem length_paddedText (hw : 0 < width) (h : n < 10 ^ width) :
    (paddedText width n).length = width := by
  have := Nat.toDigits_length 10 n width hw h
  rw [paddedText, List.length_append, List.length_replicate]
  omega

end Date

namespace Timestamp

theorem digits?_append {ds : List Char} (hds : ∀ c ∈ ds, c.isDigit = true) (rest : List Char)
    (acc : ℕ) : digits? ds.length (ds ++ rest) acc =
      some (acc * 10 ^ ds.length + digitsValue ds, rest) := by
  rw [← foldl_digitValue]
  induction ds generalizing acc with
  | nil => rfl
  | cons d ds ih =>
    rw [List.forall_mem_cons] at hds
    simp only [List.length_cons, List.cons_append, digits?, hds.1, if_true, List.foldl_cons]
    exact ih hds.2 _

/-- A number that fits its width is read back. -/
theorem digits?_paddedText {width n : ℕ} (hw : 0 < width) (h : n < 10 ^ width)
    (rest : List Char) : digits? width (Date.paddedText width n ++ rest) 0 = some (n, rest) := by
  have hdigits : ∀ c ∈ Date.paddedText width n, c.isDigit = true :=
    Date.isDigit_of_mem_paddedText
  have hread := digits?_append hdigits rest 0
  rwa [Date.length_paddedText hw h, Date.digitsValue_paddedText, Nat.zero_mul, Nat.zero_add]
    at hread

end Timestamp

end LineWatch
