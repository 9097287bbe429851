import GraphTrace.Document.Grammar.Value

/-!
# Operations and fragments

Variables of an operation are read for their form only.  After `...`, and between a field's
alias and its colon, a comma is not ignored.
-/

namespace GraphTrace.Document.Grammar

open Reader

/-- A variable of an operation. Its default value and its directives are constant. -/
def variableDefinition (depth : Nat) : Reader Unit := do
  punctuator '$'
  discard name
  punctuator ':'
  typeReference depth
  defaultValue depth
  discard (directives true depth)

/-- `on Type`. -/
def typeCondition : Reader String := do
  take (.name "on")
  name

/-- What follows `...`: the name of a fragment other than `on`, or an inline fragment. -/
def fragmentSelection (depth : Nat) (sub : Reader (List Selection)) : Reader Selection := do
  let some next ← peek? | failure
  if next.afterComma then failure
  match next.lexeme with
  | .name "on" =>
    let condition ← typeCondition
    return .inline (some condition) (← directives false depth) (← sub)
  | .name _ => return .spread (← name) (← directives false depth)
  | .punctuator '@' | .punctuator '{' =>
    return .inline none (← directives false depth) (← sub)
  | _ => failure

/-- A field. The name before a colon is its alias. -/
def field (depth : Nat) (sub : Reader (List Selection)) : Reader Selection := do
  let first ← name
  let renamed := (← peek?).any fun next => next.lexeme == .punctuator ':' && !next.afterComma
  let (alias?, name) ←
    if renamed then do
      punctuator ':'
      pure (some first, ← Reader.name)
    else pure (none, first)
  let arguments ← arguments false depth
  let directives ← directives false depth
  if ← nextIs (· == .punctuator '{') then
    return .field alias? name arguments directives (← sub)
  else return .field alias? name arguments directives []

/-- A selection; `sub` reads the set below it. -/
def selection (depth : Nat) (sub : Reader (List Selection)) : Reader Selection := do
  if ← takeIf .ellipsis then fragmentSelection depth sub else field depth sub

/-- A selection set. Each open one takes up a level. -/
def selectionSet : (depth : Nat) → Reader (List Selection)
  | 0         => failure
  | depth + 1 => enclosed '{' '}' (selection depth (selectionSet depth))

/-- An operation after its keyword. -/
def operation (kind : OperationKind) (depth : Nat) : Reader Operation := do
  let name? ← name?
  discard (enclosed? '(' ')' (variableDefinition depth))
  discard (directives false depth)
  return ⟨kind, name?, ← selectionSet depth⟩

/-- A fragment after its name. -/
def fragmentNamed (name : String) (depth : Nat) : Reader Fragment := do
  let condition ← typeCondition
  discard (directives false depth)
  return ⟨name, condition, ← selectionSet depth⟩

/-- A fragment after its keyword. It may not be named `on`. -/
def fragment (depth : Nat) : Reader Fragment := do
  let name ← name
  if name == "on" then failure
  fragmentNamed name depth

end GraphTrace.Document.Grammar
