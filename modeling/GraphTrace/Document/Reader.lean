import GraphTrace.Document.Token

/-!
# Reading lexemes in order

A reader takes lexemes from the front of a list of tokens or fails; there is no other outcome,
since a document with any error is unavailable as a whole.  Repetition is bounded by the number of
tokens, because every item of a repetition takes at least one.
-/

namespace GraphTrace.Document

/-- A reader of tokens. -/
abbrev Reader (α : Type) : Type := StateT (List Token) Option α

namespace Reader

/-- The next token, left in place. -/
def peek? : Reader (Option Token) := do return (← get).head?

/-- Whether the next lexeme passes the test. -/
def nextIs (test : Lexeme → Bool) : Reader Bool := do
  return (← peek?).any (test ·.lexeme)

/-- Takes the next lexeme, whatever it is. -/
def lexeme : Reader Lexeme := do
  match ← get with
  | [] => failure
  | token :: rest =>
    set rest
    return token.lexeme

/-- Takes this lexeme. -/
def take (expected : Lexeme) : Reader Unit := do
  unless (← lexeme) = expected do failure

/-- Takes this lexeme if it is next; says whether it was. -/
def takeIf (wanted : Lexeme) : Reader Bool := do
  if ← nextIs (· == wanted) then
    take wanted
    return true
  else return false

/-- Takes this punctuator. -/
def punctuator (c : Char) : Reader Unit := take (.punctuator c)

/-- Takes a name. -/
def name : Reader String := do
  match ← lexeme with
  | .name text => return text
  | _          => failure

/-- Takes a name if one is next. -/
def name? : Reader (Option String) := do
  if ← nextIs (fun | .name _ => true | _ => false) then some <$> name else return none

/-- Takes the string before a definition, if there is one; says whether there was. -/
def description : Reader Bool := do
  if ← nextIs (fun | .string _ => true | _ => false) then
    discard lexeme
    return true
  else return false

/-- At most `bound` items, as long as one starts. -/
def upTo {α : Type} (starts : Lexeme → Bool) (item : Reader α) : (bound : Nat) → Reader (List α)
  | 0         => return []
  | bound + 1 => do
    if ← nextIs starts then
      let first ← item
      return first :: (← upTo starts item bound)
    else return []

/-- Items as long as one starts. -/
def many {α : Type} (starts : Lexeme → Bool) (item : Reader α) : Reader (List α) := do
  upTo starts item (← get).length

/-- Items as long as one starts, and at least one. -/
def many1 {α : Type} (starts : Lexeme → Bool) (item : Reader α) : Reader (List α) := do
  let first ← item
  return first :: (← many starts item)

/-- Items between punctuators, at least one. -/
def enclosed {α : Type} (opening closing : Char) (item : Reader α) : Reader (List α) := do
  punctuator opening
  let items ← many1 (· != .punctuator closing) item
  punctuator closing
  return items

/-- The same, or nothing where the opening punctuator is missing. -/
def enclosed? {α : Type} (opening closing : Char) (item : Reader α) : Reader (List α) := do
  if ← nextIs (· == .punctuator opening) then enclosed opening closing item else return []

/-- Items with a punctuator between them, which may also stand before the first. -/
def separated {α : Type} (separator : Char) (item : Reader α) : Reader (List α) := do
  discard <| takeIf (.punctuator separator)
  let first ← item
  let others ← many (· == .punctuator separator) do
    punctuator separator
    item
  return first :: others

end Reader

end GraphTrace.Document
