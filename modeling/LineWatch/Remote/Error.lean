import LineWatch.Decode.Basic
import LineWatch.Journal

/-!
# Failed requests

A request fails with an error of the remote side, which tells as much as is known of it, or
with a fault that is not meant to happen and is passed on as it is.
-/

namespace LineWatch

/-- The remote side could not be reached, or refused, or sent what cannot be read. Message, code
and details are passed on as they came. -/
structure RemoteError where
  message : Json
  status : Option Int := none
  code : Json := .null
  details : Json := .null
  deriving Repr

namespace RemoteError

def ofText (message : String) (status : Option Int := none) (details : Json := .null) :
    RemoteError := { message := .str message, status := status, details := details }

end RemoteError

inductive FetchError where
  | remote (error : RemoteError)
  /-- The error part of a refusal is no object, but a value of this type. -/
  | brokenEnvelope (type : String)
  /-- The stack did not take this list or object within all others that were open in a body. -/
  | tooDeep (container : Json.Container)
  | outOfRange
  | raised (name message : String)
  deriving Repr

namespace FetchError

def text : FetchError → Json
  | .remote e => e.message
  | .brokenEnvelope type => .str ("'" ++ type ++ "' object has no attribute 'get'")
  | .tooDeep container =>
    .str ("maximum recursion depth exceeded while decoding a JSON " ++ container.name ++
      " from a unicode string")
  | .outOfRange => .str "date value out of range"
  | .raised _ message => .str message

end FetchError

end LineWatch
