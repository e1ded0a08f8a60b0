import Mathlib.Data.Nat.Notation
import Mathlib.Tactic.SplitIfs
import LineWatch.Text.Encoding

/-!
# Texts are read back from UTF-8

A character is spelt with one to four bytes. The leading byte announces how many there are, and the
first of the others lies in the range that is announced, because every character is spelt as short
as it can be and is at most 1114111.
-/

namespace LineWatch

theorem pointAt?_two {a b : ℕ} (ha : 194 ≤ a ∧ a < 224) (hb : 128 ≤ b ∧ b < 192)
    (rest : List ℕ) : pointAt? a (b :: rest) = some ((a - 192) * 64 + (b - 128), 1) := by
  have hannounced : announced? a = some { count := 1, marker := 192 } := if_pos ha
  have hrange : 128 ≤ b ∧ b ≤ 191 := by omega
  rw [pointAt?, if_neg (by omega), hannounced]
  simp [show a ≠ 237 by omega, Announced.tail, Announced.point, hrange]

theorem pointAt?_three {a b c : ℕ} (ha : 224 ≤ a ∧ a < 240) (hb : 128 ≤ b ∧ b < 192)
    (hlow : a = 224 → 160 ≤ b) (hc : 128 ≤ c ∧ c < 192) (rest : List ℕ) :
    pointAt? a (b :: c :: rest) =
      some (((a - 224) * 64 + (b - 128)) * 64 + (c - 128), 2) := by
  have hcontinues : isContinuation c = true := by simpa [isContinuation] using hc
  rw [pointAt?, if_neg (by omega), announced?, if_neg (by omega)]
  by_cases hfirst : a = 224
  · have hrange : 160 ≤ b ∧ b ≤ 191 := by omega
    simp [hfirst, Announced.tail, Announced.point, hrange, hcontinues]
  · have hrange : 128 ≤ b ∧ b ≤ 191 := by omega
    rw [if_neg hfirst]
    by_cases hhalves : a = 237
    · simp [hhalves, Announced.tail, Announced.point, hrange, hcontinues]
    · rw [if_neg hhalves, if_pos (by omega)]
      simp [hhalves, Announced.tail, Announced.point, hrange, hcontinues]

theorem pointAt?_four {a b c d : ℕ} (ha : 240 ≤ a ∧ a < 245) (hb : 128 ≤ b ∧ b < 192)
    (hlow : a = 240 → 144 ≤ b) (hhigh : a = 244 → b ≤ 143) (hc : 128 ≤ c ∧ c < 192)
    (hd : 128 ≤ d ∧ d < 192) (rest : List ℕ) :
    pointAt? a (b :: c :: d :: rest) =
      some ((((a - 240) * 64 + (b - 128)) * 64 + (c - 128)) * 64 + (d - 128), 3) := by
  have hcontinues : isContinuation c = true ∧ isContinuation d = true := by
    simpa [isContinuation] using And.intro hc hd
  rw [pointAt?, if_neg (by omega), announced?, if_neg (by omega), if_neg (by omega),
    if_neg (by omega), if_neg (by omega)]
  by_cases hfirst : a = 240
  · have hrange : 144 ≤ b ∧ b ≤ 191 := by omega
    simp [hfirst, Announced.tail, Announced.point, hrange, hcontinues]
  · rw [if_neg hfirst]
    by_cases hlast : a = 244
    · have hrange : 128 ≤ b ∧ b ≤ 143 := by omega
      simp [hlast, Announced.tail, Announced.point, hrange, hcontinues]
    · have hrange : 128 ≤ b ∧ b ≤ 191 := by omega
      rw [if_neg hlast, if_pos (by omega)]
      simp [show a ≠ 237 by omega, Announced.tail, Announced.point, hrange, hcontinues]

theorem pointsOfUtf8?_skip (behind rest : List ℕ) :
    pointsOfUtf8? behind.length (behind ++ rest) = pointsOfUtf8? 0 rest := by
  induction behind with
  | nil => rfl
  | cons b behind ih => rw [List.length_cons, List.cons_append, pointsOfUtf8?, ih]

theorem pointsOfUtf8?_cons {a p : ℕ} (behind rest : List ℕ)
    (h : pointAt? a (behind ++ rest) = some (p, behind.length)) :
    pointsOfUtf8? 0 (a :: (behind ++ rest)) = (pointsOfUtf8? 0 rest).map (p :: ·) := by
  rw [pointsOfUtf8?, h]
  dsimp only
  rw [pointsOfUtf8?_skip]

/-- The bytes of a character, as numbers. -/
def utf8Bytes (v : ℕ) : List ℕ :=
  if v < 128 then [v]
  else if v < 2048 then [v / 64 + 192, v % 64 + 128]
  else if v < 65536 then [v / 4096 + 224, v / 64 % 64 + 128, v % 64 + 128]
  else [v / 262144 + 240, v / 4096 % 64 + 128, v / 64 % 64 + 128, v % 64 + 128]

theorem map_toNat_utf8EncodeChar (c : Char) :
    (String.utf8EncodeChar c).map UInt8.toNat = utf8Bytes c.toNat := by
  have hvalid : c.toNat < 55296 ∨ (57343 < c.toNat ∧ c.toNat < 1114112) := c.valid
  have hc : c.val.toNat = c.toNat := rfl
  simp only [String.utf8EncodeChar, utf8Bytes, hc]
  generalize c.toNat = v at hvalid
  split_ifs <;> simp <;> omega

/-- A character is read back, whatever is behind it. -/
theorem pointsOfUtf8?_utf8Bytes {v : ℕ} (hv : v < 1114112) (rest : List ℕ) :
    pointsOfUtf8? 0 (utf8Bytes v ++ rest) = (pointsOfUtf8? 0 rest).map (v :: ·) := by
  unfold utf8Bytes
  split_ifs with hone htwo hthree
  · exact pointsOfUtf8?_cons [] rest (by simp [pointAt?, hone])
  · have hpoint : (v / 64 + 192 - 192) * 64 + (v % 64 + 128 - 128) = v := by omega
    refine pointsOfUtf8?_cons [_] rest ?_
    rw [List.singleton_append, pointAt?_two (by omega) (by omega), hpoint, List.length_singleton]
  · have hpoint : ((v / 4096 + 224 - 224) * 64 + (v / 64 % 64 + 128 - 128)) * 64 +
        (v % 64 + 128 - 128) = v := by omega
    refine pointsOfUtf8?_cons [_, _] rest ?_
    rw [List.cons_append, List.singleton_append,
      pointAt?_three (by omega) (by omega) (by omega) (by omega), hpoint]
    rfl
  · have hpoint : (((v / 262144 + 240 - 240) * 64 + (v / 4096 % 64 + 128 - 128)) * 64 +
        (v / 64 % 64 + 128 - 128)) * 64 + (v % 64 + 128 - 128) = v := by omega
    refine pointsOfUtf8?_cons [_, _, _] rest ?_
    rw [List.cons_append, List.cons_append, List.singleton_append,
      pointAt?_four (by omega) (by omega) (by omega) (by omega) (by omega) (by omega), hpoint]
    rfl

theorem pointsOfUtf8?_flatMap (cs : List Char) :
    pointsOfUtf8? 0 ((cs.flatMap String.utf8EncodeChar).map (·.toNat)) =
      some (cs.map Char.toNat) := by
  induction cs with
  | nil => rfl
  | cons c cs ih =>
    have hvalid : c.toNat < 55296 ∨ (57343 < c.toNat ∧ c.toNat < 1114112) := c.valid
    rw [List.flatMap_cons, List.map_append, map_toNat_utf8EncodeChar,
      pointsOfUtf8?_utf8Bytes (by omega), ih]
    rfl

theorem toList_loop (bytes : ByteArray) (i : ℕ) (found : List UInt8) :
    ByteArray.toList.loop bytes i found = found.reverse ++ bytes.data.toList.drop i := by
  fun_induction ByteArray.toList.loop bytes i found with
  | case1 i found hlt ih =>
    have hlength : i < bytes.data.toList.length := hlt
    have hbyte : bytes.get! i = bytes.data.toList[i] := by
      rw [Array.getElem_toList]
      exact getElem!_pos bytes.data i hlt
    rw [ih, List.drop_eq_getElem_cons hlength, hbyte, List.reverse_cons, List.append_assoc,
      List.singleton_append]
  | case2 i found hge =>
    rw [List.drop_eq_nil_of_le (Nat.le_of_not_lt hge), List.append_nil]

theorem toList_toUTF8 (s : String) :
    s.toUTF8.toList = s.toList.flatMap String.utf8EncodeChar := by
  rw [ByteArray.toList, toList_loop, String.toUTF8, ← String.utf8Encode_toList, List.utf8Encode,
    List.toList_data_toByteArray]
  rfl

/-- A text is read back from its bytes, unless they show another encoding. -/
theorem textOfBytes?_toUTF8 {s : String}
    (h : TextEncoding.detect s.toUTF8.toList = (.bytes, s.toUTF8.toList)) :
    textOfBytes? s.toUTF8.toList = some (codePoints s) := by
  have hchar (c : Char) : CodePoint.ofNat c.toNat = .char c := by
    have hvalid : c.toNat.isValidChar := c.valid
    rw [CodePoint.ofNat, if_pos hvalid, Char.ofNat_toNat]
  have hpoints := pointsOfUtf8?_flatMap s.toList
  rw [← toList_toUTF8] at hpoints
  simp only [textOfBytes?, h, TextEncoding.points?, hpoints, Option.map_some, List.map_map,
    Function.comp_def, hchar, codePoints]

end LineWatch
