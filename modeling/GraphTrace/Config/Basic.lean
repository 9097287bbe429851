import GraphTrace.Document.Name
import GraphTrace.Naming.Reserved

/-!
# Configuration

Whether leaf fields get segments, and which field names are reserved in addition to `id`.  A
configuration is valid when those names are GraphQL names; the first that is not is reported.
-/

namespace GraphTrace

/-- The configuration of tracing. -/
structure Config where
  captureScalars : Bool := false
  reservedFields : List String := []
deriving DecidableEq, Repr

namespace Config

/-- Why a configuration is not valid: a reserved name is no GraphQL name. -/
structure Error where
  name : String
deriving DecidableEq, Repr

/-- The wording of an error. -/
def Error.message (e : Error) : String :=
  "reserved field names must be valid GraphQL names: `" ++ e.name ++ "` is not a GraphQL name"

/-- The configuration itself, if it is valid. -/
def validate (c : Config) : Except Error Config :=
  match c.reservedFields.find? (! Name.isValid ·) with
  | some name => .error ⟨name⟩
  | none      => .ok c

/-- The reserved names under this configuration. -/
def reserved (c : Config) : Naming.Reserved := .withNames c.reservedFields

/-- Whether nothing is set. -/
def isDefault (c : Config) : Bool := c == {}

end Config

end GraphTrace
