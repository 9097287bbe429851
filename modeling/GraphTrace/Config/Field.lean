import GraphTrace.Config.Basic
import GraphTrace.Json.Value

/-!
# The fields of a written configuration

A configuration is written as a mapping from field names, or as a sequence of the fields in order.
Both forms may leave fields out, which then have their defaults; neither may give a field twice.
-/

namespace GraphTrace.Config

/-- A field of the configuration. -/
inductive Field where
  | captureScalars
  | reservedFields
deriving DecidableEq, Repr

namespace Field

/-- The name a field is written under. -/
def key : Field → String
  | .captureScalars => "capture_scalars"
  | .reservedFields => "reserved_fields"

/-- The fields, in order. -/
def all : List Field := [.captureScalars, .reservedFields]

/-- The field of this name. -/
def ofKey? (name : String) : Option Field := all.find? (·.key == name)

end Field

/-- The fields read so far. -/
structure Draft where
  captureScalars : Option Bool := none
  reservedFields : Option (List String) := none
deriving DecidableEq, Repr

namespace Draft

/-- Whether a field was read. -/
def has (p : Draft) : Field → Bool
  | .captureScalars => p.captureScalars.isSome
  | .reservedFields => p.reservedFields.isSome

/-- The next field of a sequence: the first that was not read. -/
def next? (p : Draft) : Option Field := Field.all.find? (! p.has ·)

/-- The configuration, with defaults for the fields that were not read. -/
def config (p : Draft) : Config := ⟨p.captureScalars.getD false, p.reservedFields.getD []⟩

end Draft

/-- The configuration as JSON. -/
def toJson (c : Config) : Json :=
  .object [(Field.captureScalars.key, .boolean c.captureScalars),
    (Field.reservedFields.key, .array (c.reservedFields.map .string))]

end GraphTrace.Config
