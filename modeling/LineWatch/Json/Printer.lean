import LineWatch.Json.Value
import LineWatch.Text.Numeral

/-!
# Writing JSON

The text is compact and pure ASCII: a character beyond ASCII is written as one or two escapes
of a sixteen-bit unit each.
-/

namespace LineWatch.Json

def hexDigit (n : Nat) : Char :=
  if n < 10 then Char.ofNat (48 + n) else Char.ofNat (87 + n)

def unitEscape (n : Nat) : List Char :=
  ['\\', 'u', hexDigit (n / 4096 % 16), hexDigit (n / 256 % 16), hexDigit (n / 16 % 16),
    hexDigit (n % 16)]

def charText (c : Char) : List Char :=
  if c = '"' then ['\\', '"']
  else if c = '\\' then ['\\', '\\']
  else if c = '\n' then ['\\', 'n']
  else if c = '\r' then ['\\', 'r']
  else if c = '\t' then ['\\', 't']
  else
    let n := c.toNat
    if n < 32 ∨ (126 < n ∧ n < 65536) then unitEscape n
    else if n < 127 then [c]
    else
      let m := n - 65536
      unitEscape (55296 + m / 1024) ++ unitEscape (56320 + m % 1024)

def stringText (s : String) : List Char :=
  '"' :: (s.toList.flatMap charText ++ ['"'])

def pointText (n : Nat) : List Char :=
  if n.isValidChar then charText (Char.ofNat n) else unitEscape n

mutual

def text : Json → List Char
  | .null => ['n', 'u', 'l', 'l']
  | .bool true => ['t', 'r', 'u', 'e']
  | .bool false => ['f', 'a', 'l', 's', 'e']
  | .int i => intText i
  | .float x => x.text
  | .str s => stringText s
  | .broken points => '"' :: (points.flatMap pointText ++ ['"'])
  | .arr items => '[' :: itemsText items
  | .obj fields => '{' :: fieldsText fields

def itemsText : List Json → List Char
  | [] => [']']
  | [v] => text v ++ [']']
  | v :: rest => text v ++ ',' :: itemsText rest

def fieldsText : List (String × Json) → List Char
  | [] => ['}']
  | [(k, v)] => stringText k ++ ':' :: (text v ++ ['}'])
  | (k, v) :: rest => stringText k ++ ':' :: (text v ++ ',' :: fieldsText rest)

end

def render (v : Json) : String := String.ofList v.text

end LineWatch.Json
