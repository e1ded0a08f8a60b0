import Mathlib.Data.List.TakeWhile
import LineWatch.Json.Printer
import LineWatch.Json.Reader
import LineWatch.Proofs.Number.Decimal

/-!
# Numbers are read back

A number is written as digits without needless zeros in front, perhaps with a fraction and a power
of ten. An integer is read back if its digits are within the limit. A binary64 number is written
as its shortest decimal number, whose digits are laid out in one of three ways; each of them
spells the same decimal number, which is read as the number it was taken from.
-/

namespace LineWatch

namespace Json

variable (limits : Limits) (negative : Bool)

/-- Digits that a number may start with. -/
structure IsWhole (cs : List Char) : Prop where
  digits : ∀ c ∈ cs, c.isDigit = true
  ne_nil : cs ≠ []
  head : cs.length = 1 ∨ cs.head? ≠ some '0'

theorem IsWhole.not_rejected {cs : List Char} (h : IsWhole cs) :
    ¬(cs.isEmpty || (cs.length != 1 && cs.head? == some '0')) = true := by
  simp only [Bool.or_eq_true, List.isEmpty_iff, Bool.and_eq_true, bne_iff_ne, beq_iff_eq, not_or,
    not_and]
  refine ⟨h.ne_nil, fun hlen => ?_⟩
  exact h.head.resolve_left hlen

theorem unsigned?_whole {limits : Limits} {cs : List Char} (h : IsWhole cs)
    (hlimit : cs.length ≤ limits.digits) :
    unsigned? limits negative cs =
      some (.int (if negative then -(digitsValue cs : ℤ) else digitsValue cs)) := by
  have hwhole : cs.takeWhile Char.isDigit = cs :=
    List.takeWhile_eq_self_iff.mpr h.digits
  have hrest : cs.dropWhile Char.isDigit = [] := List.dropWhile_eq_nil_iff.mpr h.digits
  simp only [unsigned?, hwhole, hrest]
  rw [if_neg h.not_rejected, if_neg (by omega)]

theorem unsigned?_fraction {cs ds : List Char} (h : IsWhole cs) (hds : ∀ c ∈ ds, c.isDigit = true)
    (hne : ds ≠ []) : unsigned? limits negative (cs ++ '.' :: ds) =
      some (.float (.ofDecimal negative (digitsValue (cs ++ ds)) (-(ds.length : ℤ)))) := by
  have hwhole : (cs ++ '.' :: ds).takeWhile Char.isDigit = cs :=
    takeWhile_append h.digits (by simp)
  have hrest : (cs ++ '.' :: ds).dropWhile Char.isDigit = '.' :: ds :=
    dropWhile_append h.digits (by simp)
  have hfraction : ds.takeWhile Char.isDigit = ds := List.takeWhile_eq_self_iff.mpr hds
  have hend : ds.dropWhile Char.isDigit = [] := List.dropWhile_eq_nil_iff.mpr hds
  simp only [unsigned?, hwhole, hrest, hfraction, hend]
  rw [if_neg h.not_rejected, if_neg (by simpa using hne)]
  simp

theorem unsigned?_power {cs power : List Char} {e : ℤ} (h : IsWhole cs)
    (hpower : exponent? power = some e) : unsigned? limits negative (cs ++ 'e' :: power) =
      some (.float (.ofDecimal negative (digitsValue cs) e)) := by
  have hwhole : (cs ++ 'e' :: power).takeWhile Char.isDigit = cs :=
    takeWhile_append h.digits (by simp)
  have hrest : (cs ++ 'e' :: power).dropWhile Char.isDigit = 'e' :: power :=
    dropWhile_append h.digits (by simp)
  simp only [unsigned?, hwhole, hrest]
  rw [if_neg h.not_rejected]
  simp [hpower]

theorem unsigned?_fraction_power {cs ds power : List Char} {e : ℤ} (h : IsWhole cs)
    (hds : ∀ c ∈ ds, c.isDigit = true) (hne : ds ≠ []) (hpower : exponent? power = some e) :
    unsigned? limits negative (cs ++ '.' :: (ds ++ 'e' :: power)) =
      some (.float (.ofDecimal negative (digitsValue (cs ++ ds)) (e - ds.length))) := by
  have hwhole : (cs ++ '.' :: (ds ++ 'e' :: power)).takeWhile Char.isDigit = cs :=
    takeWhile_append h.digits (by simp)
  have hrest : (cs ++ '.' :: (ds ++ 'e' :: power)).dropWhile Char.isDigit =
      '.' :: (ds ++ 'e' :: power) := dropWhile_append h.digits (by simp)
  have hfraction : (ds ++ 'e' :: power).takeWhile Char.isDigit = ds :=
    takeWhile_append hds (by simp)
  have hend : (ds ++ 'e' :: power).dropWhile Char.isDigit = 'e' :: power :=
    dropWhile_append hds (by simp)
  simp only [unsigned?, hwhole, hrest, hfraction, hend]
  rw [if_neg h.not_rejected, if_neg (by simpa using hne)]
  simp [hpower]

theorem exponent?_exponentText (e : ℤ) :
    ∃ power, Decimal.exponentText e = 'e' :: power ∧ exponent? power = some e := by
  obtain ⟨ds, hds⟩ : ∃ ds, ds = (if (Nat.toDigits 10 e.natAbs).length < 2 then
    '0' :: Nat.toDigits 10 e.natAbs else Nat.toDigits 10 e.natAbs) := ⟨_, rfl⟩
  have hdigits : ds.all Char.isDigit = true := by
    rw [List.all_eq_true, hds]
    split
    · exact List.forall_mem_cons.mpr ⟨by decide, isDigit_of_mem_toDigits⟩
    · exact isDigit_of_mem_toDigits
  have hne : ds.isEmpty = false := by
    rw [hds]
    split <;> simp [Nat.toDigits_ne_nil]
  have hvalue : digitsValue ds = e.natAbs := by
    rw [hds]
    split
    · rw [show '0' :: Nat.toDigits 10 e.natAbs = ['0'] ++ Nat.toDigits 10 e.natAbs from rfl,
        digitsValue_append, digitsValue_toDigits]
      simp [digitsValue, digitValue]
    · exact digitsValue_toDigits _
  refine ⟨(if e < 0 then '-' else '+') :: ds, by rw [hds]; rfl, ?_⟩
  split <;>
  · simp only [exponent?, hdigits, hne, hvalue, Bool.not_true, Bool.or_self, Bool.false_eq_true,
      if_false]
    congr 1
    omega

end Json

namespace Decimal

theorem exists_trimZeros (cs : List Char) :
    ∃ k, cs = trimZeros cs ++ List.replicate k '0' := by
  cases cs with
  | nil => exact ⟨0, rfl⟩
  | cons c rest =>
    obtain ⟨zeros, hzeros⟩ : ∃ zeros, zeros = rest.reverse.takeWhile (· = '0') := ⟨_, rfl⟩
    have hrest : rest = (rest.reverse.dropWhile (· = '0')).reverse ++ zeros.reverse := by
      rw [hzeros, ← List.reverse_append, List.takeWhile_append_dropWhile, List.reverse_reverse]
    have hzeros' : zeros.reverse = List.replicate zeros.length '0' := by
      rw [List.eq_replicate_iff, hzeros]
      have hall : (rest.reverse.takeWhile (· = '0')).all (· = '0') = true := List.all_takeWhile
      refine ⟨List.length_reverse, fun c hc => ?_⟩
      simpa using List.all_eq_true.mp hall c (List.mem_reverse.mp hc)
    refine ⟨zeros.length, ?_⟩
    rw [trimZeros, List.cons_append, ← hzeros', ← hrest]

/-- The digits of a number laid out with the point behind the first `point` of them. -/
def laidOut (digits : List Char) (point : ℤ) : List Char :=
  if -4 < point ∧ point ≤ 16 then
    if point ≤ 0 then '0' :: '.' :: (List.replicate (-point).toNat '0' ++ digits)
    else
      let whole := digits.take point.toNat
      let fraction := digits.drop point.toNat
      whole ++ List.replicate (point.toNat - whole.length) '0' ++
        '.' :: (if fraction.isEmpty then ['0'] else fraction)
  else
    let mantissa := match digits with
      | [] => []
      | [c] => [c]
      | c :: rest => c :: '.' :: rest
    mantissa ++ exponentText (point - 1)

theorem text_eq (d : Decimal) : d.text =
    laidOut (trimZeros (Nat.toDigits 10 d.digits))
      ((Nat.toDigits 10 d.digits).length + d.exponent) :=
  rfl

section

variable (limits : Json.Limits) (negative : Bool) {digits : List Char}

theorem head?_toDigits {n : ℕ} (hn : 0 < n) : (Nat.toDigits 10 n).head? ≠ some '0' := by
  induction n using Nat.strongRecOn with
  | ind n ih =>
    by_cases h : n < 10
    · have hdigit : ∀ n < 10, 0 < n → n.digitChar ≠ '0' := by decide
      rw [Nat.toDigits_of_lt_base h]
      simpa using hdigit n h hn
    · have hsplit := Nat.toDigits_append_toDigits (b := 10) (n := n / 10) (d := n % 10)
        (by decide) (by omega) (Nat.mod_lt _ (by decide))
      rw [Nat.div_add_mod] at hsplit
      rw [← hsplit, List.head?_append_of_ne_nil _ Nat.toDigits_ne_nil]
      exact ih (n / 10) (by omega) (by omega)

theorem isDigit_of_mem_replicate (n : ℕ) : ∀ c ∈ List.replicate n '0', c.isDigit = true := by
  intro c hc
  rw [List.eq_of_mem_replicate hc]
  decide

/-- Digits that do not start with a zero, with as many zeros behind them as one likes. -/
theorem isWhole_append (hdigits : ∀ c ∈ digits, c.isDigit = true) (hne : digits ≠ [])
    (hhead : digits.head? ≠ some '0') (n : ℕ) : Json.IsWhole (digits ++ List.replicate n '0') where
  digits := List.forall_mem_append.mpr ⟨hdigits, isDigit_of_mem_replicate n⟩
  ne_nil := by simp [hne]
  head := .inr (by rwa [List.head?_append_of_ne_nil _ hne])

/-- Zeros stand between the point and the digits. -/
theorem unsigned?_below (hdigits : ∀ c ∈ digits, c.isDigit = true) (hne : digits ≠ []) (n : ℕ) :
    Json.unsigned? limits negative ('0' :: '.' :: (List.replicate n '0' ++ digits)) =
      some (.float (.ofDecimal negative (digitsValue digits) (-(n : ℤ) - digits.length))) := by
  have hzero : Json.IsWhole ['0'] := ⟨isDigit_of_mem_replicate 1, by decide, .inl rfl⟩
  have hread := Json.unsigned?_fraction limits negative hzero
    (List.forall_mem_append.mpr ⟨isDigit_of_mem_replicate n, hdigits⟩) (by simp [hne])
  have hvalue : digitsValue (['0'] ++ (List.replicate n '0' ++ digits)) = digitsValue digits := by
    rw [← List.append_assoc, digitsValue_append, show ['0'] ++ List.replicate n '0' =
      List.replicate (n + 1) '0' from rfl, digitsValue_replicate_zero, Nat.zero_mul, Nat.zero_add]
  have hlen : -((List.replicate n '0' ++ digits).length : ℤ) = -(n : ℤ) - digits.length := by
    rw [List.length_append, List.length_replicate]
    omega
  rwa [hvalue, hlen] at hread

/-- Zeros stand between the digits and the point. -/
theorem unsigned?_above (hdigits : ∀ c ∈ digits, c.isDigit = true) (hne : digits ≠ [])
    (hhead : digits.head? ≠ some '0') (n : ℕ) :
    Json.unsigned? limits negative (digits ++ List.replicate n '0' ++ ['.', '0']) =
      some (.float (.ofDecimal negative (digitsValue digits * 10 ^ (n + 1)) (-1))) := by
  have hzero : ∀ c ∈ ['0'], c.isDigit = true := isDigit_of_mem_replicate 1
  have hread := Json.unsigned?_fraction limits negative
    (isWhole_append hdigits hne hhead n) hzero (by decide)
  have hvalue : digitsValue (digits ++ List.replicate n '0' ++ ['0']) =
      digitsValue digits * 10 ^ (n + 1) := by
    rw [List.append_assoc, ← List.replicate_succ', digitsValue_append, digitsValue_replicate_zero,
      List.length_replicate, Nat.add_zero]
  rwa [hvalue] at hread

/-- The point stands between the digits. -/
theorem unsigned?_between (hdigits : ∀ c ∈ digits, c.isDigit = true)
    (hhead : digits.head? ≠ some '0') {n : ℕ} (hn : 0 < n) (hlen : n < digits.length) :
    Json.unsigned? limits negative (digits.take n ++ '.' :: digits.drop n) =
      some (.float (.ofDecimal negative (digitsValue digits) (n - digits.length))) := by
  have hwhole : Json.IsWhole (digits.take n) := by
    refine ⟨fun c hc => hdigits c (List.mem_of_mem_take hc), ?_, .inr ?_⟩
    · rw [← List.length_pos_iff, List.length_take]
      omega
    · rwa [List.head?_take, if_neg (by omega)]
  have hread := Json.unsigned?_fraction limits negative hwhole
    (fun c hc => hdigits c (List.mem_of_mem_drop (i := n) hc))
    (by rw [← List.length_pos_iff, List.length_drop]; omega)
  have hexponent : -((digits.drop n).length : ℤ) = n - digits.length := by
    rw [List.length_drop]
    omega
  rwa [List.take_append_drop, hexponent] at hread

/-- The point stands behind the first digit, and a power of ten at the end. -/
theorem unsigned?_scientific {c : Char} {rest : List Char}
    (hdigits : ∀ d ∈ c :: rest, d.isDigit = true) (e : ℤ) :
    Json.unsigned? limits negative ((match (c :: rest) with
        | [] => []
        | [c] => [c]
        | c :: rest => c :: '.' :: rest) ++ exponentText e) =
      some (.float (.ofDecimal negative (digitsValue (c :: rest)) (e - rest.length))) := by
  obtain ⟨power, hpower, hread⟩ := Json.exponent?_exponentText e
  rw [List.forall_mem_cons] at hdigits
  have hfirst : Json.IsWhole [c] := ⟨by simpa using hdigits.1, by simp, .inl rfl⟩
  rw [hpower]
  cases rest with
  | nil => simpa using Json.unsigned?_power limits negative hfirst hread
  | cons d rest =>
    exact Json.unsigned?_fraction_power limits negative hfirst hdigits.2
      (by simp) hread

/-- However they are laid out, digits are read as the decimal number they stand for. -/
theorem exists_unsigned?_laidOut (hdigits : ∀ c ∈ digits, c.isDigit = true) (hne : digits ≠ [])
    (hhead : digits.head? ≠ some '0') (point : ℤ) :
    ∃ (m : ℕ) (e : ℤ), (m : ℚ) * 10 ^ e =
        (digitsValue digits : ℚ) * 10 ^ (point - digits.length) ∧
      Json.unsigned? limits negative (laidOut digits point) =
        some (.float (.ofDecimal negative m e)) := by
  unfold laidOut
  split
  · split
    · refine ⟨_, _, ?_, unsigned?_below limits negative hdigits hne (-point).toNat⟩
      congr 2
      omega
    · rcases le_or_gt digits.length point.toNat with hle | hlt
      · simp only [List.take_of_length_le hle, List.drop_eq_nil_of_le hle, List.isEmpty_nil,
          if_true]
        refine ⟨_, _, ?_, unsigned?_above limits negative hdigits hne hhead _⟩
        have hshift : point - digits.length = ((point.toNat - digits.length + 1 : ℕ) : ℤ) + -1 := by
          omega
        rw [hshift, zpow_add₀ (by norm_num), zpow_natCast]
        push_cast
        ring
      · have hfilled : (digits.drop point.toNat).isEmpty = false := by
          rw [← Bool.not_eq_true, List.isEmpty_iff, List.drop_eq_nil_iff]
          omega
        have hwhole : point.toNat - (digits.take point.toNat).length = 0 := by
          rw [List.length_take]
          omega
        simp only [hfilled, hwhole, List.replicate_zero, List.append_nil, Bool.false_eq_true,
          if_false]
        refine ⟨_, _, ?_, unsigned?_between limits negative hdigits hhead (by omega) hlt⟩
        congr 2
        omega
  · cases digits with
    | nil => exact absurd rfl hne
    | cons c rest =>
      refine ⟨_, _, ?_, unsigned?_scientific limits negative hdigits (point - 1)⟩
      congr 2
      rw [List.length_cons]
      omega

/-- The digits of a number that is not zero, without the zeros at the end. -/
structure IsTrimmed (digits : List Char) (n : ℕ) (k : ℕ) : Prop where
  isDigit : ∀ c ∈ digits, c.isDigit = true
  ne_nil : digits ≠ []
  head : digits.head? ≠ some '0'
  length : (Nat.toDigits 10 n).length = digits.length + k
  value : n = digitsValue digits * 10 ^ k

theorem exists_isTrimmed {n : ℕ} (hn : 0 < n) :
    ∃ k, IsTrimmed (trimZeros (Nat.toDigits 10 n)) n k := by
  obtain ⟨k, hk⟩ := exists_trimZeros (Nat.toDigits 10 n)
  generalize trimZeros (Nat.toDigits 10 n) = digits at hk
  have hhead := head?_toDigits hn
  have hne : digits ≠ [] := by
    rintro rfl
    cases k with
    | zero => exact Nat.toDigits_ne_nil hk
    | succ k => exact hhead (by rw [hk]; rfl)
  refine ⟨k, fun c hc => isDigit_of_mem_toDigits c (hk ▸ List.mem_append_left _ hc), hne,
    ?_, ?_, ?_⟩
  · rwa [hk, List.head?_append_of_ne_nil _ hne] at hhead
  · rw [hk, List.length_append, List.length_replicate]
  · rw [← digitsValue_toDigits n, hk, digitsValue_append, digitsValue_replicate_zero,
      List.length_replicate, Nat.add_zero]

theorem exists_unsigned?_text {d : Decimal} (hd : 0 < d.digits) :
    ∃ (m : ℕ) (e : ℤ), (m : ℚ) * 10 ^ e = d.toRat ∧
      Json.unsigned? limits negative d.text = some (.float (.ofDecimal negative m e)) := by
  obtain ⟨k, h⟩ := exists_isTrimmed hd
  obtain ⟨m, e, hvalue, hread⟩ := exists_unsigned?_laidOut limits negative
    h.isDigit h.ne_nil h.head ((Nat.toDigits 10 d.digits).length + d.exponent)
  refine ⟨m, e, hvalue.trans ?_, by rw [text_eq, hread]⟩
  have hexponent : ((Nat.toDigits 10 d.digits).length : ℤ) + d.exponent -
      (trimZeros (Nat.toDigits 10 d.digits)).length = k + d.exponent := by
    rw [h.length]
    omega
  have hdigits : (d.digits : ℚ) =
      digitsValue (trimZeros (Nat.toDigits 10 d.digits)) * 10 ^ k := by exact_mod_cast h.value
  rw [hexponent, zpow_add₀ (by norm_num), zpow_natCast, toRat, hdigits]
  ring

end

end Decimal

namespace Json

variable {limits : Limits} {negative : Bool} {cs : List Char}

/-- A digit, and behind it nothing that cannot stand in a number. -/
structure IsUnsigned (cs : List Char) : Prop where
  chars : ∀ c ∈ cs, isNumberChar c = true
  start : ∃ c ∈ cs.head?, c.isDigit = true

theorem isNumberChar_of_isDigit {c : Char} (h : c.isDigit = true) : isNumberChar c = true := by
  simp [isNumberChar, h]

theorem isUnsigned_of_isDigit {cs : List Char} (h : ∀ c ∈ cs, c.isDigit = true) (hne : cs ≠ []) :
    IsUnsigned cs := by
  refine ⟨fun c hc => isNumberChar_of_isDigit (h c hc), ?_⟩
  cases cs with
  | nil => exact absurd rfl hne
  | cons c rest => exact ⟨c, rfl, h c List.mem_cons_self⟩

theorem IsUnsigned.append {cs ds : List Char} (h : IsUnsigned cs)
    (hds : ∀ c ∈ ds, isNumberChar c = true) : IsUnsigned (cs ++ ds) := by
  obtain ⟨c, hc, hdigit⟩ := h.start
  refine ⟨fun d hd => (List.mem_append.mp hd).elim (h.chars d) (hds d), c, ?_, hdigit⟩
  rw [List.head?_append]
  simp [Option.mem_def.mp hc]

theorem isNumberChar_of_mem_exponentText (e : ℤ) :
    ∀ c ∈ Decimal.exponentText e, isNumberChar c = true := by
  have hdigits : ∀ c ∈ Nat.toDigits 10 e.natAbs, isNumberChar c = true :=
    fun c hc => isNumberChar_of_isDigit (isDigit_of_mem_toDigits c hc)
  unfold Decimal.exponentText
  rw [List.forall_mem_cons, List.forall_mem_cons]
  refine ⟨by decide, by split <;> decide, ?_⟩
  split
  · exact List.forall_mem_cons.mpr ⟨by decide, hdigits⟩
  · exact hdigits

theorem isUnsigned_laidOut {c : Char} {ds : List Char} (h : ∀ d ∈ c :: ds, d.isDigit = true)
    (point : ℤ) : IsUnsigned (Decimal.laidOut (c :: ds) point) := by
  have hzeros (n : ℕ) : ∀ d ∈ List.replicate n '0', isNumberChar d = true :=
    fun d hd => isNumberChar_of_isDigit (Decimal.isDigit_of_mem_replicate n d hd)
  have hdigits : ∀ d ∈ c :: ds, isNumberChar d = true :=
    fun d hd => isNumberChar_of_isDigit (h d hd)
  have hpoint : isNumberChar '.' = true := by decide
  unfold Decimal.laidOut
  split
  · split
    · have hzero : IsUnsigned ['0'] :=
        isUnsigned_of_isDigit (Decimal.isDigit_of_mem_replicate 1) (by decide)
      refine hzero.append ?_
      exact List.forall_mem_cons.mpr ⟨hpoint, List.forall_mem_append.mpr ⟨hzeros _, hdigits⟩⟩
    · have hwhole : IsUnsigned ((c :: ds).take point.toNat) := by
        refine isUnsigned_of_isDigit (fun d hd => h d (List.mem_of_mem_take hd)) ?_
        rw [Ne, List.take_eq_nil_iff]
        simp
        omega
      refine (hwhole.append (hzeros _)).append (List.forall_mem_cons.mpr ⟨hpoint, ?_⟩)
      split
      · exact hzeros 1
      · exact fun d hd => hdigits d (List.mem_of_mem_drop hd)
  · refine IsUnsigned.append ?_ (isNumberChar_of_mem_exponentText _)
    rw [List.forall_mem_cons] at h hdigits
    have hfirst : IsUnsigned [c] := isUnsigned_of_isDigit (by simpa using h.1) (by simp)
    cases ds with
    | nil => exact hfirst
    | cons d ds => exact hfirst.append (List.forall_mem_cons.mpr ⟨hpoint, hdigits.2⟩)

theorem isUnsigned_text {d : Decimal} (hd : 0 < d.digits) : IsUnsigned d.text := by
  obtain ⟨k, h⟩ := Decimal.exists_isTrimmed hd
  rw [Decimal.text_eq]
  generalize Decimal.trimZeros (Nat.toDigits 10 d.digits) = digits at h
  cases digits with
  | nil => exact absurd rfl h.ne_nil
  | cons c ds => exact isUnsigned_laidOut h.isDigit _

theorem IsUnsigned.exists_cons (h : IsUnsigned cs) :
    ∃ c ds, cs = c :: ds ∧ c.isDigit = true := by
  obtain ⟨c, hc, hdigit⟩ := h.start
  cases cs with
  | nil => simp at hc
  | cons d ds =>
    obtain rfl : d = c := by simpa using hc
    exact ⟨d, ds, rfl, hdigit⟩

theorem ne_of_isDigit {c d : Char} (hc : c.isDigit = true) (hd : d.isDigit = false) : c ≠ d := by
  rintro rfl
  exact Bool.false_ne_true (hd.symm.trans hc)

/-- What may stand behind a number. -/
def EndsNumber (rest : List CodePoint) : Prop :=
  ∀ c, .char c ∈ rest.head? → isNumberChar c = false

theorem endsNumber_cons {c : Char} (h : isNumberChar c = false) (rest : List CodePoint) :
    EndsNumber (.char c :: rest) := by
  intro d hd
  obtain rfl := CodePoint.char.inj (Option.some.inj hd)
  exact h

theorem spanChars_append {p : Char → Bool} {cs : List Char} (hcs : ∀ c ∈ cs, p c = true)
    {rest : List CodePoint} (hrest : ∀ c, .char c ∈ rest.head? → p c = false) :
    spanChars p (cs.map .char ++ rest) = (cs, rest) := by
  induction cs with
  | nil =>
    cases rest with
    | nil => rfl
    | cons point rest =>
      cases point with
      | char c => simp [spanChars, hrest c rfl]
      | half n => rfl
  | cons c cs ih =>
    rw [List.forall_mem_cons] at hcs
    simp [spanChars, hcs.1, ih hcs.2]

/-- The sign of a number. -/
def signText (negative : Bool) : List Char := if negative then ['-'] else []

theorem number?_signText {v : Json} (h : IsUnsigned cs)
    (hread : unsigned? limits negative cs = some v) {rest : List CodePoint}
    (hrest : EndsNumber rest) :
    number? limits ((signText negative ++ cs).map .char ++ rest) = some (v, rest) := by
  have hchars : ∀ c ∈ signText negative ++ cs, isNumberChar c = true := by
    refine List.forall_mem_append.mpr ⟨?_, h.chars⟩
    cases negative <;> exact List.all_eq_true.mp (by decide)
  rw [number?, spanChars_append hchars hrest]
  cases negative with
  | true => simp [signText, hread]
  | false =>
    obtain ⟨c, ds, rfl, hdigit⟩ := h.exists_cons
    have hminus := ne_of_isDigit hdigit (show '-'.isDigit = false by decide)
    simp [signText, hminus, hread]

theorem word?_signText (h : IsUnsigned cs) (rest : List CodePoint) :
    word? ((signText negative ++ cs).map .char ++ rest) = none := by
  obtain ⟨c, ds, rfl, hdigit⟩ := h.exists_cons
  have hother {d : Char} (hd : d.isDigit = false) : ¬d = c := (ne_of_isDigit hdigit hd).symm
  cases negative <;>
  simp [word?, words, signText, afterWord?, hother (show 'n'.isDigit = false by decide),
    hother (show 't'.isDigit = false by decide), hother (show 'f'.isDigit = false by decide),
    hother (show 'N'.isDigit = false by decide), hother (show 'I'.isDigit = false by decide),
    hother (show '-'.isDigit = false by decide)]

/-- A text of the number `v`: a sign perhaps, and behind it what is read as `v`. -/
def Spells (limits : Limits) (v : Json) (cs : List Char) : Prop :=
  ∃ negative ds, cs = signText negative ++ ds ∧ IsUnsigned ds ∧
    unsigned? limits negative ds = some v

theorem Spells.number? {v : Json} (h : Spells limits v cs) {rest : List CodePoint}
    (hrest : EndsNumber rest) : number? limits (cs.map .char ++ rest) = some (v, rest) := by
  obtain ⟨negative, ds, rfl, hds, hread⟩ := h
  exact number?_signText hds hread hrest

theorem Spells.word? {v : Json} (h : Spells limits v cs) (rest : List CodePoint) :
    word? (cs.map .char ++ rest) = none := by
  obtain ⟨negative, ds, rfl, hds, -⟩ := h
  exact word?_signText hds rest

theorem spells_intText {i : ℤ} (hlimit : (Nat.toDigits 10 i.natAbs).length ≤ limits.digits) :
    Spells limits (.int i) (intText i) := by
  have hwhole : IsWhole (Nat.toDigits 10 i.natAbs) := by
    refine ⟨isDigit_of_mem_toDigits, Nat.toDigits_ne_nil, ?_⟩
    rcases Nat.eq_zero_or_pos i.natAbs with hzero | hpos
    · rw [hzero]
      exact .inl rfl
    · exact .inr (Decimal.head?_toDigits hpos)
  refine ⟨i < 0, Nat.toDigits 10 i.natAbs, ?_,
    isUnsigned_of_isDigit hwhole.digits hwhole.ne_nil, ?_⟩
  · by_cases hi : i < 0 <;> simp [intText, signText, hi]
  · rw [unsigned?_whole _ hwhole hlimit, digitsValue_toDigits]
    simp only [decide_eq_true_eq]
    congr 2
    split <;> omega

end Json

namespace Binary64

/-- A number that another rounding does not change. -/
def IsNumber (x : Binary64) : Prop := x.IsRounded ∧ x.toRat?.isSome

theorem nearest_of_isRounded {q : ℚ} (h : (Binary64.finite q).IsRounded) :
    nearest q = q ∧ |q| < overflowBound := by
  unfold IsRounded ofRat at h
  dsimp only at h
  split_ifs at h with hbig hzero
  have hq := Binary64.finite.inj h
  rw [magnitude_eq_abs, hq] at hbig
  exact ⟨hq, not_le.mp hbig⟩

theorem spells_shortest (limits : Json.Limits) {q : ℚ} (hpos : 0 < q) (hq : nearest q = q)
    (hbound : q < overflowBound) (negative : Bool) :
    Json.Spells limits (.float (.finite (if negative then -q else q)))
      (Json.signText negative ++ (Decimal.shortest q).text) := by
  have hread := Decimal.nearest_shortest hq hpos
  have hdigits : 0 < (Decimal.shortest q).digits := by
    refine Nat.pos_of_ne_zero fun hzero => ?_
    have hrat : (Decimal.shortest q).toRat = 0 := by
      rw [Decimal.toRat, hzero, Nat.cast_zero, zero_mul]
    rw [hrat, nearest_eq_self 0 (by simp)] at hread
    exact hpos.ne hread
  obtain ⟨m, e, hvalue, hunsigned⟩ := Decimal.exists_unsigned?_text limits negative hdigits
  refine ⟨negative, _, rfl, Json.isUnsigned_text hdigits, ?_⟩
  rw [hunsigned, ofDecimal_eq (hvalue ▸ hread) hpos hbound]

theorem spells_zero (limits : Json.Limits) (negative : Bool) :
    Json.Spells limits (.float (if negative then .negativeZero else zero))
      (Json.signText negative ++ ['0', '.', '0']) := by
  refine ⟨negative, _, rfl, ⟨List.all_eq_true.mp (by decide), '0', rfl, by decide⟩, ?_⟩
  cases negative <;> rfl

theorem spells_text (limits : Json.Limits) {x : Binary64} (h : x.IsNumber) :
    Json.Spells limits (.float x) x.text := by
  obtain ⟨hrounded, hfinite⟩ := h
  cases x with
  | finite q =>
    obtain ⟨hq, hbound⟩ := nearest_of_isRounded hrounded
    rcases lt_trichotomy q 0 with hneg | rfl | hpos
    · have hq' : nearest (-q) = -q := by rw [nearest_neg, hq]
      have hspells := spells_shortest limits (neg_pos.mpr hneg) hq'
        (abs_of_neg hneg ▸ hbound) true
      simp only [if_true, neg_neg] at hspells
      simp only [text, hneg.ne, hneg, if_true, if_false]
      exact hspells
    · exact spells_zero limits false
    · have hspells := spells_shortest limits hpos hq (abs_of_pos hpos ▸ hbound) false
      simp only [Bool.false_eq_true, if_false] at hspells
      simp only [text, hpos.ne', not_lt.mpr hpos.le, if_false]
      exact hspells
  | negativeZero => exact spells_zero limits true
  | infinite negative => simp [toRat?] at hfinite
  | nan => simp [toRat?] at hfinite

end Binary64

end LineWatch
