import GraphTrace.Json.Printer
import GraphTrace.Text.Quoted

/-!
# What stands where something else should

The text of a mismatch names the value that was found and what was expected in its place.
-/

namespace GraphTrace.Json

/-- A value as it is named in a mismatch. Containers are named by their kind alone. -/
def described : Json → String
  | .null                => "null"
  | .boolean b           => "boolean `" ++ (Token.boolean b).text ++ "`"
  | .number (.integer n) => "integer `" ++ (Number.integer n).text ++ "`"
  | .number (.double d)  => "floating point `" ++ (Number.double d).text ++ "`"
  | .string s            => "string " ++ Text.quoted s
  | .array _             => "sequence"
  | .object _            => "map"

/-- The value that starts with a lexeme, as it is named in a mismatch. -/
def Token.described? : Token → Option String
  | .null       => some Json.null.described
  | .boolean b  => some (Json.boolean b).described
  | .number n   => some (Json.number n).described
  | .string s   => some (Json.string s).described
  | .arrayOpen  => some (Json.array []).described
  | .objectOpen => some (Json.object []).described
  | _           => none

/-- The message of a mismatch. -/
def mismatch (found expected : String) : String :=
  "invalid type: " ++ found ++ ", expected " ++ expected

end GraphTrace.Json
