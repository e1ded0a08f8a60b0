import LineWatch.Text.Numeral
import LineWatch.Text.Utf8

/-!
# Percent escapes

An escape stands for a byte, and the bytes are read as UTF-8. Bytes that spell no character are
shown as U+FFFD, one for each character that breaks off and each byte that can start none.
-/

namespace LineWatch

def unescapedBytes : List Char → List Nat
  | [] => []
  | '%' :: a :: b :: rest =>
    match hexValue? a, hexValue? b with
    | some x, some y => (x * 16 + y) :: unescapedBytes rest
    | _, _ => 37 :: unescapedBytes (a :: b :: rest)
  | c :: rest => (String.singleton c).toUTF8.toList.map (·.toNat) ++ unescapedBytes rest

def replacement : Char := Char.ofNat 0xFFFD

/-- The character that starts with byte `a`, and how many of the bytes behind belong to it. A
character that breaks off is replaced as far as it goes. -/
def charAt (a : Nat) (behind : List Nat) : Char × Nat :=
  if a < 128 then (Char.ofNat a, 0)
  else
    match announced? a with
    | none => (replacement, 0)
    | some n =>
      let tail := n.tail behind
      if tail.length = n.count then
        (Char.ofNat (n.point a tail), n.count)
      else (replacement, tail.length)

/-- The characters of bytes, of which the first `skip` have been read. -/
def charsOfBytes : (skip : Nat) → List Nat → List Char
  | _, [] => []
  | skip + 1, _ :: rest => charsOfBytes skip rest
  | 0, a :: rest =>
    let (c, n) := charAt a rest
    c :: charsOfBytes n rest

def unescape (s : String) : String := String.ofList (charsOfBytes 0 (unescapedBytes s.toList))

example : unescape "a%20b%2Fc" = "a b/c" := by decide +kernel
example : unescape "%C3%A9%zz" = "é%zz" := by decide +kernel

example : unescape "%E2%82%41%F0%9F%98%80%ED%A0%80" = "\ufffdA😀\ufffd\ufffd\ufffd" := by
  decide +kernel

end LineWatch
