import GraphTrace.Document.Grammar.Executable
import GraphTrace.Document.Grammar.TypeSystem

/-!
# The document a text writes

`Document.parse?` reads a whole text.  A document has at least one definition, and a text with any
error has no document.

A description may stand before a definition of the type system.  It may also stand in place of the
keyword of a fragment, which then has the name `fragment`.  Between a description and what it
describes, and between `extend` and what that extends, a comma is not ignored.
-/

namespace GraphTrace.Document

open Reader

/-- How many levels a document may nest. -/
def nestingLimit : Nat := 500

namespace Grammar

/-- Takes a keyword that no comma keeps from the lexeme before it. -/
def adjacentKeyword : Reader String := do
  if (← peek?).any (·.afterComma) then failure
  name

/-- What a description describes, after its first word. -/
def described (word : String) (depth : Nat) : Reader Definition := do
  if word == "fragment" then return .fragment (← fragmentNamed word depth)
  typeSystemDefinition word depth
  return .typeSystem

/-- A definition without a description, after its keyword. -/
def undescribed (keyword : String) (depth : Nat) : Reader Definition := do
  match keyword, OperationKind.ofKeyword? keyword with
  | _, some kind => return .operation (← operation kind depth)
  | "fragment", _ => return .fragment (← fragment depth)
  | "extend", _ =>
    typeSystemExtension (← adjacentKeyword) depth
    return .typeSystem
  | _, _ =>
    typeSystemDefinition keyword depth
    return .typeSystem

/-- A definition. A selection set alone is an anonymous query. -/
def definition (depth : Nat) : Reader Definition := do
  if ← nextIs (· == .punctuator '{') then
    return .operation ⟨.query, none, ← selectionSet depth⟩
  if ← description then described (← adjacentKeyword) depth else undescribed (← name) depth

end Grammar

/-- The document a text writes, if it writes one. -/
def parse? (text : String) : Option Document := do
  let tokens ← Token.scan text
  let (definitions, rest) ← (many1 (fun _ => true) (Grammar.definition nestingLimit)).run tokens
  if rest.isEmpty then some ⟨definitions⟩ else none

end GraphTrace.Document
