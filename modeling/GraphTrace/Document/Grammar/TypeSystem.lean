import GraphTrace.Document.Grammar.Value

/-!
# Definitions and extensions of the type system

These are read for their form only, and their directives are constant.  A body (fields, values,
members, root types) may be missing from a definition but not be empty; an extension adds at least
one thing.
-/

namespace GraphTrace.Document.Grammar

open Reader

/-- An argument or input field: a name, a type, a default value, directives. -/
def inputValue (depth : Nat) : Reader Unit := do
  discard description
  discard name
  punctuator ':'
  typeReference depth
  defaultValue depth
  discard (directives true depth)

/-- A field of an object or interface. -/
def fieldDefinition (depth : Nat) : Reader Unit := do
  discard description
  discard name
  discard (enclosed? '(' ')' (inputValue depth))
  punctuator ':'
  typeReference depth
  discard (directives true depth)

/-- A value of an enumeration. -/
def enumValue (depth : Nat) : Reader Unit := do
  discard description
  if isValueWord (← name) then failure
  discard (directives true depth)

/-- The type at the root of one kind of operation; its name may be left out. -/
def rootType : Reader Unit := do
  if (OperationKind.ofKeyword? (← name)).isNone then failure
  punctuator ':'
  discard name?

/-- Where a directive may stand. -/
def directiveLocations : List String :=
  ["QUERY", "MUTATION", "SUBSCRIPTION", "FIELD", "FRAGMENT_DEFINITION", "FRAGMENT_SPREAD",
    "INLINE_FRAGMENT", "VARIABLE_DEFINITION", "SCHEMA", "SCALAR", "OBJECT", "FIELD_DEFINITION",
    "ARGUMENT_DEFINITION", "INTERFACE", "UNION", "ENUM", "ENUM_VALUE", "INPUT_OBJECT",
    "INPUT_FIELD_DEFINITION"]

/-- A place where a directive may stand. -/
def directiveLocation : Reader Unit := do
  unless directiveLocations.contains (← name) do failure

/-- A directive's definition after its keyword. -/
def directiveDefinition (depth : Nat) : Reader Unit := do
  punctuator '@'
  discard name
  discard (enclosed? '(' ')' (inputValue depth))
  discard <| takeIf (.name "repeatable")
  take (.name "on")
  discard (separated '|' directiveLocation)

/-- Implemented interfaces; says whether there are any. -/
def interfaces : Reader Bool := do
  if ← takeIf (.name "implements") then
    discard (separated '&' name)
    return true
  else return false

/-- Members of a union; says whether there are any. -/
def unionMembers : Reader Bool := do
  if ← takeIf (.punctuator '=') then
    discard (separated '|' name)
    return true
  else return false

/-- A body in braces, if there is one; says whether there is. -/
def body (item : Reader Unit) : Reader Bool := do
  return !(← enclosed? '{' '}' item).isEmpty

/-- Directives; says whether there are any. -/
def anyDirectives (depth : Nat) : Reader Bool := do return !(← directives true depth).isEmpty

/-- What an extension adds to the root types, if it has braces for them; says whether it adds any.
The braces may be empty. -/
def addedRootTypes : Reader Bool := do
  if ← takeIf (.punctuator '{') then
    let added ← many (· != .punctuator '}') rootType
    punctuator '}'
    return !added.isEmpty
  else return false

/-- What follows the keyword and the name of a type, part by part; says which parts are there.
There is no type under any other keyword. -/
def typeParts (keyword : String) (depth : Nat) : Reader (List Bool) :=
  match keyword with
  | "scalar" => do return [← anyDirectives depth]
  | "type" | "interface" => do
    return [← interfaces, ← anyDirectives depth, ← body (fieldDefinition depth)]
  | "union" => do return [← anyDirectives depth, ← unionMembers]
  | "enum" => do return [← anyDirectives depth, ← body (enumValue depth)]
  | "input" => do return [← anyDirectives depth, ← body (inputValue depth)]
  | _ => failure

/-- A definition after its keyword. -/
def typeSystemDefinition (keyword : String) (depth : Nat) : Reader Unit :=
  match keyword with
  | "directive" => directiveDefinition depth
  | "schema" => do
    discard (directives true depth)
    discard (body rootType)
  | keyword => do
    discard name
    discard (typeParts keyword depth)

/-- An extension after `extend` and its keyword. It adds at least one thing. -/
def typeSystemExtension (keyword : String) (depth : Nat) : Reader Unit := do
  let parts ←
    if keyword == "schema" then do pure [← anyDirectives depth, ← addedRootTypes]
    else do
      discard name
      typeParts keyword depth
  unless parts.any id do failure

end GraphTrace.Document.Grammar
