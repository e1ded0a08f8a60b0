import LineWatch.Decode.Scalar
import LineWatch.Text.Digit

/-!
# Frames of an event stream

A server sends events as lines `field: value`, and a blank line ends a frame. The decoder is
fed one line at a time, without the end of the line. A frame without event and data is no
frame, and a field that cannot be read leaves the decoder as it was.
-/

namespace LineWatch

structure Frame where
  event : String := "message"
  data : String := ""
  id : Option String := none
  retry : Option Int := none
  deriving DecidableEq, Repr

namespace Frame

def toJson (f : Frame) : Json := .obj [
  ("event", .str f.event),
  ("data", .str f.data),
  ("id", Json.ofOption .str f.id),
  ("retry", Json.ofOption .int f.retry)]

def decode : Decoder Frame := Decoder.object fun o =>
  Frame.mk <$> Decoder.defaulted "event" "message" Decoder.text o
    <*> Decoder.defaulted "data" "" Decoder.text o
    <*> Decoder.defaulted "id" none (Decoder.optional Decoder.text) o
    <*> Decoder.defaulted "retry" none (Decoder.optional Decoder.int) o

end Frame

/-- Why the digits of a reconnection time are no integer. -/
inductive RetryError where
  | notDecimal (text : String)
  | tooLong (digits : Nat)
  deriving DecidableEq, Repr

namespace RetryError

/-- The offending text is quoted and cut after 200 characters, the opening quote included. -/
def message : RetryError → String
  | .notDecimal text =>
    "invalid literal for int() with base 10: " ++
      String.ofList (('\'' :: (text.toList ++ ['\''])).take 200)
  | .tooLong digits =>
    "Exceeds the limit (4300 digits) for integer string conversion: value has " ++
      String.ofList (Nat.toDigits 10 digits) ++
      " digits; use sys.set_int_max_str_digits() to increase the limit"

end RetryError

/-- The integer spelt by digits of any script; at most 4300 of them may be decimal. -/
def retryOfDigits (cs : List Char) : Except RetryError Nat :=
  let values := (cs.takeWhile fun c => (decimalValue? c).isSome).filterMap decimalValue?
  if 4300 < values.length then .error (.tooLong values.length)
  else if values.length < cs.length then .error (.notDecimal (String.ofList cs))
  else .ok (values.foldl (fun n d => n * 10 + d) 0)

/-- What a decoder has read of the frame it is in. The lines of data are kept last one first. -/
structure FrameDecoder where
  event : String := ""
  data : List String := []
  id : Option String := none
  retry : Option Int := none
  deriving DecidableEq, Repr

namespace FrameDecoder

/-- The frame read so far, if there is one. -/
def frame? (d : FrameDecoder) : Option Frame :=
  if d.data.isEmpty && d.event == "" then none
  else some {
    event := if d.event == "" then "message" else d.event
    data := "\n".intercalate d.data.reverse
    id := d.id
    retry := d.retry }

/-- Field and value of a line: the value starts after the first colon and one blank. -/
def split (cs : List Char) : List Char × List Char :=
  let field := cs.takeWhile (· != ':')
  match (cs.dropWhile (· != ':')).drop 1 with
  | ' ' :: value => (field, value)
  | value => (field, value)

def setField (d : FrameDecoder) (field value : List Char) : Except RetryError FrameDecoder :=
  if field = "event".toList then .ok { d with event := String.ofList value }
  else if field = "data".toList then .ok { d with data := String.ofList value :: d.data }
  else if field = "id".toList then
    .ok (if value.contains (Char.ofNat 0) then d else { d with id := some (String.ofList value) })
  else if field = "retry".toList then
    if value.isEmpty || !value.all isDigitChar then .ok d
    else
      match retryOfDigits value with
      | .ok n => .ok { d with retry := some n }
      | .error e => .error e
  else .ok d

/-- Reads one line; a blank one yields the frame and starts a new one. -/
def feed (d : FrameDecoder) (line : List Char) :
    Except RetryError (FrameDecoder × Option Frame) :=
  match line with
  | [] => .ok ({}, d.frame?)
  | ':' :: _ => .ok (d, none)
  | cs =>
    let (field, value) := split cs
    (d.setField field value).map (·, none)

/-- What the lines yield one by one. -/
def run (d : FrameDecoder) : List String → List (Except RetryError (Option Frame))
  | [] => []
  | line :: rest =>
    match d.feed line.toList with
    | .ok (d, frame) => .ok frame :: run d rest
    | .error e => .error e :: run d rest

/-- The frames of a stream of lines, up to the first line that cannot be read. Carriage returns
at the end of a line do not count. -/
def frames (d : FrameDecoder) : List (List Char) → List Frame × Option RetryError
  | [] => ([], none)
  | line :: rest =>
    match d.feed (line.reverse.dropWhile (· == '\r')).reverse with
    | .error e => ([], some e)
    | .ok (d, none) => frames d rest
    | .ok (d, some frame) =>
      let (later, failure) := frames d rest
      (frame :: later, failure)

end FrameDecoder

end LineWatch
