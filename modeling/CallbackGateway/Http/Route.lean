import CallbackGateway.Http.Form

/-!
# Routes

The address of the callbacks of an app ends in one segment that names the app; four further
addresses serve operation. Addresses are compared as they are written, and only the segment that
names the app is decoded.
-/

namespace CallbackGateway.Http

/-- What an address leads to. -/
inductive Route
  /-- The callbacks of the app in a segment. -/
  | portal (segment : List Char)
  | health
  | ping
  | ready
  | metrics
  deriving DecidableEq, Repr

/-- Where a path leads. -/
def Route.ofPath? (path : List Char) : Option Route :=
  match (splitAt '/' path).map String.ofList with
  | ["", "v1", "portal", segment] => if segment = "" then none else some (.portal segment.toList)
  | ["", "healthz"] => some .health
  | ["", "ping"] => some .ping
  | ["", "readyz"] => some .ready
  | ["", "metrics"] => some .metrics
  | _ => none

/-- The app that a segment names, if it is a text. -/
def segmentText? (segment : List Char) : Option String :=
  (Text.Utf8.decode? (percentDecode (Text.Utf8.encode segment))).map String.ofList

end CallbackGateway.Http
