import GraphTrace.Naming.Identifier

/-!
# Names of requests

A request is reported under its route prefix and the identifiers of its operations: the identifier
itself for one operation, `batch/` and all of them for several, and `*` when no operation is named.
-/

namespace GraphTrace.Naming

/-- Opens the combined name of a batch. -/
def batchMarker : String := "batch"

/-- The combined name of a batch: `batch/first/second/…`. -/
def combined (identifiers : List Identifier) : String :=
  "/".intercalate (batchMarker :: identifiers.map (·.text))

/-- The name a request is reported under. `named` tells whether any operation has a name. -/
def transactionName (route : String) (identifiers : List Identifier) (named : Bool) : String :=
  if named then
    match identifiers with
    | []      => route ++ "//" ++ wildcard
    | [one]   => route ++ "//" ++ one.text
    | several => route ++ "//" ++ combined several
  else route ++ "//" ++ wildcard

end GraphTrace.Naming
