/-!
# Request targets

What a request asks for is a path and perhaps a query, joined to the path of a base address. A
character that may not stand in a path or a query is written as the escapes of its bytes;
escapes that are there already stay.
-/

namespace LineWatch

namespace Target

def hexDigit (n : Nat) : Char := if n < 10 then Char.ofNat (48 + n) else Char.ofNat (55 + n)

def escapedByte (b : UInt8) : List Char :=
  ['%', hexDigit (b.toNat / 16), hexDigit (b.toNat % 16)]

def escapedChar (c : Char) : List Char :=
  (String.singleton c).toUTF8.toList.flatMap escapedByte

/-- The characters that stand for themselves in a query. -/
def isQueryChar (c : Char) : Bool :=
  32 < c.toNat && c.toNat < 127 && c != '"' && c != '#' && c != '<' && c != '>'

/-- The characters that stand for themselves in a path. -/
def isPathChar (c : Char) : Bool :=
  isQueryChar c && c != '?' && c != '\x60' && c != '\x7b' && c != '\x7d'

def escape (isPlain : Char → Bool) (cs : List Char) : List Char :=
  cs.flatMap fun c => if isPlain c then [c] else escapedChar c

/-- The parts of a text between occurrences of `sep`. -/
def splitAt (sep : Char) : List Char → List (List Char)
  | [] => [[]]
  | c :: rest =>
    if c = sep then [] :: splitAt sep rest
    else
      match splitAt sep rest with
      | [] => [[c]]
      | part :: parts => (c :: part) :: parts

/-- Takes a path one step further; the kept steps are given last one first. -/
def walk (steps : List (List Char)) : List (List Char) → List (List Char)
  | [] => steps.reverse
  | ['.'] :: rest => walk steps rest
  | ['.', '.'] :: rest =>
    match steps with
    | [] => walk [] rest
    | [[]] => walk [[]] rest
    | _ :: steps => walk steps rest
  | step :: rest => walk (step :: steps) rest

/-- Leaves out the steps `.` and `..`. -/
def withoutDots (path : List Char) : List Char :=
  ['/'].intercalate (walk [] (splitAt '/' path))

/-- Path and query of a reference, without what follows a `#`. -/
def parts (cs : List Char) : List Char × Option (List Char) :=
  let cs := cs.takeWhile (· != '#')
  match cs.dropWhile (· != '?') with
  | [] => (cs, none)
  | _ :: query => (cs.takeWhile (· != '?'), some query)

/-- The path of an absolute address: what follows the host. -/
def basePath (address : String) : List Char :=
  match address.toList.dropWhile (· != ':') with
  | ':' :: '/' :: '/' :: rest => (parts (rest.dropWhile (· != '/'))).1
  | _ => []

/-- The target of `reference` below a base address; a given query replaces its own. -/
def of (base : String) (reference : String) (query : Option String) : String :=
  let (path, own) := parts reference.toList
  let root := basePath base
  let root := if root.getLast? = some '/' then root else root ++ ['/']
  let path := withoutDots (root ++ path.dropWhile (· == '/'))
  let query := match query with
    | some q => some q.toList
    | none => own
  String.ofList (escape isPathChar path ++ match query with
    | some q => '?' :: escape isQueryChar q
    | none => [])

example : of "http://h/api" "/lines/a b" none = "/api/lines/a%20b" := by decide +kernel
example : of "http://h" "/lines/a?x#y" (some "limit=5") = "/lines/a?limit=5" := by decide +kernel

end Target

end LineWatch
