import LineWatch.EventStream.Frame

/-!
# The stream behind a request

A stream is asked for with headers of its own, which given ones replace. Any answer outside the
two hundreds is a failure. Lines end at every line boundary of Unicode, and what is left at the
end of the body is a line of its own.
-/

namespace LineWatch

def isLineBreak (c : Char) : Bool :=
  let n := c.toNat
  (10 ≤ n && n ≤ 13) || (28 ≤ n && n ≤ 30) || n == 0x85 || n == 0x2028 || n == 0x2029

/-- Cuts a text into lines; `acc` holds the line so far, last character first. A carriage return
and the line feed behind it are one break. -/
def linesFrom (acc : List Char) : List Char → List (List Char)
  | [] => if acc.isEmpty then [] else [acc.reverse]
  | '\r' :: '\n' :: rest => acc.reverse :: linesFrom [] rest
  | c :: rest =>
    if isLineBreak c then acc.reverse :: linesFrom [] rest else linesFrom (c :: acc) rest

def linesOf (text : List Char) : List (List Char) := linesFrom [] text

namespace EventStream

abbrev Headers := List (String × String)

/-- Replaces the value of the header of exactly that name, or adds it. -/
def setHeader (headers : Headers) (name value : String) : Headers :=
  if headers.any (·.1 == name) then
    headers.map fun h => if h.1 == name then (name, value) else h
  else headers ++ [(name, value)]

def requestHeaders (given : Headers) : Headers :=
  given.foldl (fun headers h => setHeader headers h.1 h.2)
    [("Accept", "text/event-stream"), ("Cache-Control", "no-cache")]

/-- The values of a header, whatever the case of its name, as one list. -/
def header? (headers : Headers) (name : String) : Option String :=
  match headers.filter (·.1.toLower == name) with
  | [] => none
  | found => some (", ".intercalate (found.map (·.2)))

structure Response where
  status : Int := 200
  chunks : List String := []
  deriving DecidableEq, Repr

inductive Failure where
  | status (code : Int)
  | retry (error : RetryError)
  deriving DecidableEq, Repr

/-- The frames of a response, up to the failure if there is one. -/
def Response.frames (r : Response) : List Frame × Option Failure :=
  if r.status < 200 ∨ 299 < r.status then ([], some (.status r.status))
  else
    let (frames, failure) := FrameDecoder.frames {} (linesOf (r.chunks.flatMap String.toList))
    (frames, failure.map .retry)

end EventStream

end LineWatch
