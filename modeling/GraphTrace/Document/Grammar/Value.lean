import GraphTrace.Document.Basic
import GraphTrace.Document.Reader

/-!
# Values, directives and types

The parts of the grammar that definitions of both sorts share.  `depth` is how many levels of
nesting are left; it is one counter for selection sets, list items, values of object fields and
list types, and a level below the last is an error.
-/

namespace GraphTrace.Document.Grammar

open Reader

/-- Names that stand for values of their own and so name no value of an enumeration. -/
def isValueWord (word : String) : Bool := word == "true" || word == "false" || word == "null"

/-- A field of an object value; its value may be left out. -/
def objectField (item? : Option (Reader Value)) : Reader (String × Option Value) := do
  let name ← Reader.name
  if ← takeIf (.punctuator ':') then
    return (name, some (← item?.getD failure))
  else return (name, none)

/-- A value whose parts are read by `item?`, or which may have no parts if there is none.
A constant value holds no variable. -/
def valueOver (constant : Bool) (item? : Option (Reader Value)) : Reader Value := do
  match ← lexeme with
  | .number text     => return .number text
  | .string text     => return .string text
  | .name "true"     => return .boolean true
  | .name "false"    => return .boolean false
  | .name "null"     => return .null
  | .name word       => return .enum word
  | .punctuator '$'  => if constant then failure else return .variable (← name)
  | .punctuator '['  =>
    let items ← many (· != .punctuator ']') (item?.getD failure)
    punctuator ']'
    return .list items
  | .punctuator '{' =>
    let fields ← many (· != .punctuator '}') (objectField item?)
    punctuator '}'
    return .object fields
  | _ => failure

/-- A value. -/
def value (constant : Bool) : (depth : Nat) → Reader Value
  | 0         => valueOver constant none
  | depth + 1 => valueOver constant (some (value constant depth))

/-- An argument; its value may be left out. -/
def argument (constant : Bool) (depth : Nat) : Reader Argument := do
  let name ← Reader.name
  if ← takeIf (.punctuator ':') then
    return ⟨name, some (← value constant depth)⟩
  else return ⟨name, none⟩

/-- Arguments, if there are any. -/
def arguments (constant : Bool) (depth : Nat) : Reader (List Argument) :=
  enclosed? '(' ')' (argument constant depth)

/-- A directive. -/
def directive (constant : Bool) (depth : Nat) : Reader Directive := do
  punctuator '@'
  let name ← Reader.name
  return ⟨name, ← arguments constant depth⟩

/-- Directives, as many as there are. -/
def directives (constant : Bool) (depth : Nat) : Reader (List Directive) :=
  many (· == .punctuator '@') (directive constant depth)

/-- A named type or, if `element?` reads its elements, a list type. -/
def typeOver (element? : Option (Reader Unit)) : Reader Unit := do
  match ← lexeme with
  | .name _         => pure ()
  | .punctuator '[' =>
    element?.getD failure
    punctuator ']'
  | _ => failure
  discard <| takeIf (.punctuator '!')

/-- A type with at most one `!` at each level. -/
def typeReference : (depth : Nat) → Reader Unit
  | 0         => typeOver none
  | depth + 1 => typeOver (some (typeReference depth))

/-- A default value, if there is one. It is constant. -/
def defaultValue (depth : Nat) : Reader Unit := do
  if ← takeIf (.punctuator '=') then discard (value true depth)

end GraphTrace.Document.Grammar
