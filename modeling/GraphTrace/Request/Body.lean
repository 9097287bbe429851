import GraphTrace.Json.Mismatch
import GraphTrace.Json.Reader
import GraphTrace.Request.Basic

/-!
# Bodies of GraphQL requests

A body is one request, written as a JSON object, or a batch of them, written as a JSON array of
objects.  A body is read as a whole: one bad member of a batch, the first, rejects all of it.
Members of a request are checked in the order in which they stand; null counts as absent, and
members of other names are ignored.
-/

namespace GraphTrace

/-- The body of a GraphQL request. -/
inductive Body where
  | single (request : Request)
  | batch (requests : List Request)

namespace Body

/-- Why bytes are no body. -/
inductive Error where
  /-- They are no JSON. -/
  | unreadable (fault : Json.Fault)
  /-- Something stands in place of something else. -/
  | mismatch (found expected : String)
  /-- They are a batch of no requests. -/
  | emptyBatch
deriving DecidableEq, Repr

namespace Error

/-- What happened, without the details. -/
def headline : Error → String
  | .unreadable _ | .mismatch _ _ => "request body was malformed"
  | .emptyBatch                   => "batch request did not contain any request"

/-- What happened, and the details. Where the bytes are no JSON these are left to the JSON reader. -/
def message : Error → String
  | .mismatch found expected =>
    (Error.mismatch found expected).headline ++ ": " ++ Json.mismatch found expected
  | error => error.headline

end Error

/-- A text or null. -/
def optionalText : Json → Except Error (Option String)
  | .null        => .ok none
  | .string text => .ok (some text)
  | found        => .error (.mismatch found.described "a string")

/-- An object or null. -/
def optionalObject : Json → Except Error Members
  | .null           => .ok []
  | .object members => .ok members
  | found           => .error (.mismatch found.described "a map")

/-- A request with one member of its object taken in. -/
def readMember (r : Request) (member : String × Json) : Except Error Request :=
  match member.1 with
  | "query"         => (optionalText member.2).map fun text => { r with query := text }
  | "operationName" => (optionalText member.2).map fun text => { r with operationName := text }
  | "variables"     => (optionalObject member.2).map fun ms => { r with variableValues := ms }
  | "extensions"    => (optionalObject member.2).map fun ms => { r with extensions := ms }
  | _               => .ok r

/-- A value named as it is where a request should stand. -/
def describedAsRequest : Json → String
  | .number _ => "number"
  | found     => found.described

/-- The request a JSON value stands for. -/
def readRequest : Json → Except Error Request
  | .object members => members.foldlM readMember {}
  | found => .error (.mismatch (describedAsRequest found) "a GraphQL request object")

/-- The body a JSON value stands for. -/
def ofJson : Json → Except Error Body
  | .array []    => .error .emptyBatch
  | .array items => (items.mapM readRequest).map .batch
  | value        => (readRequest value).map .single

/-- The body that bytes write. -/
def ofBytes (bytes : ByteArray) : Except Error Body :=
  match Json.ofBytes bytes with
  | .ok value    => ofJson value
  | .error fault => .error (.unreadable fault)

/-- The body as JSON. -/
def toJson : Body → Json
  | .single request => request.toJson
  | .batch requests => .array (requests.map Request.toJson)

/-- Whether the body is a batch. -/
def isBatch : Body → Bool
  | .single _ => false
  | .batch _  => true

/-- The requests of the body, in order. -/
def requests : Body → List Request
  | .single request => [request]
  | .batch requests => requests

end Body

end GraphTrace
