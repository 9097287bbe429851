import GraphTrace.Config.Field
import GraphTrace.Yaml.Node
import GraphTrace.Yaml.Stream

/-!
# Configurations in YAML

A text that is no configuration is refused as a whole, and nothing is said about the place.  Names
are the texts of scalars, however they are written; a boolean has to be written plainly or tagged
as one.
-/

namespace GraphTrace.Config.Yaml

open GraphTrace.Yaml (Node Scalar Tag)

/-- Why a text is no configuration. -/
inductive Error where
  | unreadable
deriving DecidableEq, Repr

/-- The wording of an error. -/
def Error.message : Error → String
  | .unreadable => "could not deserialize configuration"

/-- The tag of booleans. -/
def booleanTag : Tag := ⟨"!!", "bool"⟩

/-- The boolean a scalar writes. -/
def boolean? (s : Scalar) : Option Bool :=
  if (s.plain && s.tag?.isNone) || s.tag? = some booleanTag then
    match s.text with
    | "true"  => some true
    | "false" => some false
    | _       => none
  else none

/-- The name a node writes. -/
def name? : Node → Option String
  | .scalar s => some s.text
  | _         => none

/-- The fields read with this one, whose value is a node. -/
def withField (read : Draft) : Field → Node → Option Draft
  | .captureScalars, .scalar s   => (boolean? s).map ({ read with captureScalars := · })
  | .reservedFields, .list items => (items.mapM name?).map ({ read with reservedFields := · })
  | _, _                         => none

/-- The fields read with a member of a mapping. -/
def withMember (read : Draft) (member : Node × Node) : Option Draft := do
  let field ← Field.ofKey? (← name? member.1)
  if read.has field then none else withField read field member.2

/-- The fields read with the next item of a list. -/
def withItem (read : Draft) (item : Node) : Option Draft := do
  withField read (← read.next?) item

/-- The configuration a node writes. -/
def ofNode? : Node → Option Config
  | .mapping members => (members.foldlM withMember {}).map Draft.config
  | .list items      => (items.foldlM withItem {}).map Draft.config
  | _                => none

/-- The configuration a YAML text writes. -/
def read (text : String) : Except Error Config :=
  match (GraphTrace.Yaml.tokens? text).bind Node.ofTokens? |>.bind ofNode? with
  | some config => .ok config
  | none        => .error .unreadable

end GraphTrace.Config.Yaml
