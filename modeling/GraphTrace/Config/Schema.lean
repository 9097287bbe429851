import GraphTrace.Config.Field

/-!
# The schema of a configuration

A description of valid configurations for editors, as a JSON schema.
-/

namespace GraphTrace.Config

/-- What the configuration is. -/
def description : String :=
  "Operation tracing configuration.\n\nCan be created through `serde::Deserialize` from various "
    ++ "formats, or with [`Config::from_yaml`]."

namespace Field

/-- What a field means. -/
def description : Field → String
  | .captureScalars =>
    "Record a segment for the resolvers of leaf (scalar and enum) fields. Off by default, as leaf "
      ++ "resolvers usually dominate the number of segments."
  | .reservedFields =>
    "Field names that never deepen an operation's name, in addition to `id`."

/-- What a field may hold. -/
def type : Field → List (String × Json)
  | .captureScalars => [("default", .boolean false), ("type", .string "boolean")]
  | .reservedFields =>
    [("default", .array []), ("type", .string "array"),
      ("items", .object [("type", .string "string")])]

/-- The entry of a field in the schema. -/
def schema (f : Field) : String × Json :=
  (f.key, .object (("description", .string f.description) :: f.type))

end Field

/-- The schema of a configuration. -/
def schema : Json :=
  .object
    [("$schema", .string "http://json-schema.org/draft-07/schema#"),
      ("title", .string "Config"),
      ("description", .string description),
      ("type", .string "object"),
      ("properties", .object (Field.all.map Field.schema)),
      ("additionalProperties", .boolean false)]

end GraphTrace.Config
