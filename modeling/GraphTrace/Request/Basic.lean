import GraphTrace.Json.Value

/-!
# GraphQL requests

A request as it stands in the body of an HTTP request: the text of a document, the name of the
operation to select, variables and extensions.  A request by hash alone has no text.  Members that
are absent or empty are not written.
-/

namespace GraphTrace

/-- The members of a JSON object, in order. -/
abbrev Members : Type := List (String × Json)

/-- A GraphQL request. -/
structure Request where
  query : Option String := none
  operationName : Option String := none
  variableValues : Members := []
  extensions : Members := []

namespace Request

/-- A text member, if it is present. -/
def textMember (key : String) (text? : Option String) : Members :=
  text?.toList.map fun text => (key, .string text)

/-- An object member, unless it is empty. -/
def objectMember (key : String) (members : Members) : Members :=
  if members.isEmpty then [] else [(key, .object members)]

/-- The request as JSON. -/
def toJson (r : Request) : Json :=
  .object (textMember "query" r.query ++ textMember "operationName" r.operationName
    ++ objectMember "variables" r.variableValues ++ objectMember "extensions" r.extensions)

end Request

end GraphTrace
