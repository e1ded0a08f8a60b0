import Mathlib.Data.Nat.Notation
import LineWatch.Json.Printer
import LineWatch.Json.Reader

/-!
# Texts are read back

A text is written in quotes, and each of its characters as itself, as a short escape or as the
escapes of its sixteen-bit units. Reading collects the units and joins pairs of them; no character
is half of a pair, so the characters come back one by one.
-/

namespace LineWatch.Json

/-- The sixteen-bit units of a character. -/
def unitsOf (c : Char) : List ℕ :=
  if c.toNat < 65536 then [c.toNat]
  else [55296 + (c.toNat - 65536) / 1024, 56320 + (c.toNat - 65536) % 1024]

theorem toNat_isValidChar (c : Char) :
    c.toNat < 55296 ∨ (57343 < c.toNat ∧ c.toNat < 1114112) := c.valid

theorem hexValue?_hexDigit : ∀ d < 16, hexValue? (hexDigit d) = some d := by decide

theorem readUnits_unitEscape (points units : List ℕ) {n : ℕ} (h : n < 65536)
    (rest : List CodePoint) :
    readUnits points units ((unitEscape n).map .char ++ rest) =
      readUnits points (n :: units) rest := by
  have hunit : unit? (hexDigit (n / 4096 % 16)) (hexDigit (n / 256 % 16)) (hexDigit (n / 16 % 16))
      (hexDigit (n % 16)) = some n := by
    simp only [unit?, hexValue?_hexDigit _ (Nat.mod_lt _ (by decide : 0 < 16)),
      Option.bind_eq_bind, Option.bind_some]
    congr 1
    omega
  simp only [unitEscape, List.map_cons, List.map_nil, List.cons_append, List.nil_append, readUnits,
    hunit]

theorem readUnits_plain (points units : List ℕ) {c : Char} (hquote : c ≠ '"') (hslash : c ≠ '\\')
    (h : 32 ≤ c.toNat) (rest : List CodePoint) :
    readUnits points units (.char c :: rest) = readUnits points (c.toNat :: units) rest := by
  rw [readUnits, if_neg (by omega)]
  · exact hquote
  · exact fun _ _ _ _ _ _ => hslash
  · exact fun _ _ _ => hslash
  · exact hslash

theorem readUnits_charText (points units : List ℕ) (c : Char) (rest : List CodePoint) :
    readUnits points units ((charText c).map .char ++ rest) =
      readUnits points ((unitsOf c).reverse ++ units) rest := by
  by_cases hshort : c = '"' ∨ c = '\\' ∨ c = '\n' ∨ c = '\r' ∨ c = '\t'
  · rcases hshort with rfl | rfl | rfl | rfl | rfl <;> rfl
  · simp only [not_or] at hshort
    obtain ⟨hquote, hslash, hline, hreturn, htab⟩ := hshort
    simp only [charText, hquote, hslash, hline, hreturn, htab, if_false]
    split
    · next h => simp [readUnits_unitEscape points units (n := c.toNat) (by omega), unitsOf,
        show c.toNat < 65536 by omega]
    split
    · next h => simp [readUnits_plain points units hquote hslash (by omega), unitsOf,
        show c.toNat < 65536 by omega]
    · have hvalid := toNat_isValidChar c
      rw [List.map_append, List.append_assoc, readUnits_unitEscape _ _ (by omega),
        readUnits_unitEscape _ _ (by omega)]
      simp [unitsOf, show ¬c.toNat < 65536 by omega]

theorem readUnits_text (cs : List Char) (rest : List CodePoint) (points units : List ℕ) :
    readUnits points units ((cs.flatMap charText).map .char ++ .char '"' :: rest) =
      some (points ++ joinPairs (units.reverse ++ cs.flatMap unitsOf), rest) := by
  induction cs generalizing units with
  | nil => simp [readUnits]
  | cons c cs ih =>
    rw [List.flatMap_cons, List.map_append, List.append_assoc, readUnits_charText, ih]
    simp

theorem joinPairs_cons {u : ℕ} (h : isHighUnit u = false) (rest : List ℕ) :
    joinPairs (u :: rest) = u :: joinPairs rest := by
  cases rest with
  | nil => rfl
  | cons w rest => simp [joinPairs, h]

/-- No character is half of a pair. -/
theorem isHighUnit_toNat (c : Char) : isHighUnit c.toNat = false := by
  have hvalid := toNat_isValidChar c
  simp only [isHighUnit, Bool.and_eq_false_iff, decide_eq_false_iff_not]
  omega

theorem joinPairs_unitsOf (c : Char) (rest : List ℕ) :
    joinPairs (unitsOf c ++ rest) = c.toNat :: joinPairs rest := by
  unfold unitsOf
  split
  · exact joinPairs_cons (isHighUnit_toNat c) rest
  · have hvalid := toNat_isValidChar c
    have hhigh : isHighUnit (55296 + (c.toNat - 65536) / 1024) = true := by
      simp only [isHighUnit, Bool.and_eq_true, decide_eq_true_eq]
      omega
    have hlow : isLowUnit (56320 + (c.toNat - 65536) % 1024) = true := by
      simp only [isLowUnit, Bool.and_eq_true, decide_eq_true_eq]
      omega
    have hjoined : 65536 + (55296 + (c.toNat - 65536) / 1024 - 55296) * 1024 +
        (56320 + (c.toNat - 65536) % 1024 - 56320) = c.toNat := by omega
    simp only [List.cons_append, List.nil_append, joinPairs, hhigh, hlow, Bool.and_self, if_true,
      hjoined]

theorem joinPairs_flatMap_unitsOf (cs : List Char) :
    joinPairs (cs.flatMap unitsOf) = cs.map Char.toNat := by
  induction cs with
  | nil => rfl
  | cons c cs ih => rw [List.flatMap_cons, joinPairs_unitsOf, ih, List.map_cons]

theorem all_isValidChar (cs : List Char) :
    (cs.map Char.toNat).all (·.isValidChar) = true := by
  simp only [List.all_map, List.all_eq_true, Function.comp_apply, decide_eq_true_eq]
  exact fun c _ => c.valid

theorem readString_text (halves : Bool) (s : String) (rest : List CodePoint) :
    readString halves ((s.toList.flatMap charText).map .char ++ .char '"' :: rest) =
      some (s.toList.map Char.toNat, rest) := by
  simp only [readString, readUnits_text, List.reverse_nil, List.nil_append,
    joinPairs_flatMap_unitsOf, all_isValidChar, Bool.or_true, if_true]

theorem ofPoints_toNat (s : String) : ofPoints (s.toList.map Char.toNat) = .str s := by
  have htext : textOfPoints? (s.toList.map Char.toNat) = some s := by
    rw [textOfPoints?, if_pos (all_isValidChar _), List.map_map]
    simp [Function.comp_def]
  rw [ofPoints, htext]

theorem nameOf_toNat (s : String) : nameOf (s.toList.map Char.toNat) = s := by
  have hvalid (c : Char) : c.toNat.isValidChar := c.valid
  simp [nameOf, Function.comp_def, hvalid]

end LineWatch.Json
