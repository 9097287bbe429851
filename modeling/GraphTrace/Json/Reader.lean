import GraphTrace.Json.Token

/-!
# Reading a JSON value

A machine that goes over the lexemes once, with a stack of the arrays and objects around the place
it is at.  A value with its surroundings closed leaves exactly one state (`State.done`); a text
that stops in any other state is unfinished, and a lexeme that fits no state is malformed.
-/

namespace GraphTrace.Json

/-- A container around the value being read: an array with the items before it, or an object with
the members before it and its key. -/
inductive Frame where
  | array (items : List Json)
  | object (members : List (String × Json)) (key : String)

/-- What may come next. -/
inductive State where
  /-- A value. -/
  | value
  /-- The first item of an array, or its end. -/
  | firstItem
  /-- A comma after an item, or the end of the array. -/
  | afterItem (items : List Json)
  /-- The first key of an object, or its end. -/
  | firstKey
  /-- A key after a comma. -/
  | key (members : List (String × Json))
  /-- The colon after a key. -/
  | colon (members : List (String × Json)) (key : String)
  /-- A comma after a member, or the end of the object. -/
  | afterMember (members : List (String × Json))
  /-- Nothing. -/
  | done (value : Json)

namespace State

/-- The state after a whole value in its surroundings. A repeated key keeps its first place and
takes the last value. -/
def after (v : Json) : List Frame → State × List Frame
  | []                       => (.done v, [])
  | .array items :: stack    => (.afterItem (items ++ [v]), stack)
  | .object members k :: stack => (.afterMember (setMember k v members), stack)

/-- Reads a token where a value stands, inside at most `limit` containers. -/
def value? (limit : Nat) (stack : List Frame) (token : Token) :
    Except Fault (State × List Frame) :=
  match token with
  | .null      => .ok (after .null stack)
  | .boolean b => .ok (after (.boolean b) stack)
  | .number n  => .ok (after (.number n) stack)
  | .string s  => .ok (after (.string s) stack)
  | .arrayOpen  => if stack.length < limit then .ok (.firstItem, stack) else .error .malformed
  | .objectOpen => if stack.length < limit then .ok (.firstKey, stack) else .error .malformed
  | _ => .error .malformed

/-- Reads one token. -/
def step (limit : Nat) : State × List Frame → Token → Except Fault (State × List Frame)
  | (.value, stack), token                    => value? limit stack token
  | (.firstItem, stack), .arrayClose          => .ok (after (.array []) stack)
  | (.firstItem, stack), token                => value? limit (.array [] :: stack) token
  | (.afterItem items, stack), .comma         => .ok (.value, .array items :: stack)
  | (.afterItem items, stack), .arrayClose    => .ok (after (.array items) stack)
  | (.firstKey, stack), .objectClose          => .ok (after (.object []) stack)
  | (.firstKey, stack), .string k             => .ok (.colon [] k, stack)
  | (.key members, stack), .string k          => .ok (.colon members k, stack)
  | (.colon members k, stack), .colon         => .ok (.value, .object members k :: stack)
  | (.afterMember members, stack), .comma     => .ok (.key members, stack)
  | (.afterMember members, stack), .objectClose => .ok (after (.object members) stack)
  | _, _                                      => .error .malformed

/-- The outcome where the lexemes end. A faulty lexeme counts as such only where its kind may
stand. -/
def finish : State → Ending → Except Fault Json
  | .done v, .complete                 => .ok v
  | .done _, .faulty _ _               => .error .malformed
  | _, .complete                       => .error .unfinished
  | .value, .faulty _ fault            => .error fault
  | .firstItem, .faulty _ fault        => .error fault
  | .firstKey, .faulty true fault      => .error fault
  | .key _, .faulty true fault         => .error fault
  | _, .faulty _ _                     => .error .malformed

end State

/-- The value that a sequence of lexemes writes. -/
def ofTokens (limit : Nat) (tokens : List Token) (ending : Ending) : Except Fault Json := do
  let (state, _) ← tokens.foldlM (State.step limit) (.value, [])
  state.finish ending

/-- How many arrays and objects may stand inside one another. -/
def nestingLimit : Nat := 127

/-- The value that symbols write. -/
def ofSymbols (limit : Nat) (symbols : List Symbol) : Except Fault Json :=
  ofTokens limit (Token.scan symbols).1 (Token.scan symbols).2

/-- The value that bytes write. -/
def ofBytes (bytes : ByteArray) : Except Fault Json :=
  ofSymbols nestingLimit (Symbol.decode bytes)

end GraphTrace.Json
