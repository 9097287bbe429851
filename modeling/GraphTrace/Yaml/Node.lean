import GraphTrace.Yaml.Token

/-!
# Nodes of a document

The tree that a document writes.  A reference to an anchored scalar stands for that scalar; one to
an anchored collection is kept as a reference, as the collection may be around it.
-/

namespace GraphTrace.Yaml

/-- A scalar: its text, whether it is written plainly, and its tag. -/
structure Scalar where
  text : String
  plain : Bool := true
  tag? : Option Tag := none
deriving DecidableEq, Repr

/-- A node. -/
inductive Node where
  | scalar (scalar : Scalar)
  | list (items : List Node)
  | mapping (members : List (Node × Node))
  | reference (name : String)
deriving Repr

namespace Node

/-- The node of a place where nothing is written. -/
def blank : Node := .scalar { text := "~" }

/-- What is left to read: the tokens, and the anchors so far, the last first; a scalar comes with
its anchor. -/
structure Source where
  tokens : List Token
  anchors : List (String × Option Scalar) := []
deriving Repr

/-- A reader of tokens. There is no other error than that a document cannot be read. -/
abbrev Reader (α : Type) : Type := StateT Source Option α

namespace Reader

/-- The next token, left in place. -/
def peek? : Reader (Option Token) := do return (← get).tokens.head?

/-- Passes the next token. -/
def pass : Reader Unit := modify fun s => { s with tokens := s.tokens.drop 1 }

/-- Passes this token if it is next; says whether it was. -/
def passIf (token : Token) : Reader Bool := do
  if (← peek?) = some token then
    pass
    return true
  else return false

/-- Passes this token, which has to be next. -/
def take (token : Token) : Reader Unit := do
  unless ← passIf token do failure

/-- Notes an anchor, if there is one. -/
def note (anchor? : Option String) (scalar? : Option Scalar) : Reader Unit :=
  match anchor? with
  | none        => pure ()
  | some anchor => modify fun s => { s with anchors := (anchor, scalar?) :: s.anchors }

/-- Passes the anchor that comes next, if there is one. -/
def anchor? : Reader (Option String) := do
  match ← peek? with
  | some (.anchor name) =>
    pass
    return some name
  | _ => return none

/-- Passes the tag that comes next, if there is one. -/
def tag? : Reader (Option Tag) := do
  match ← peek? with
  | some (.tag tag) =>
    pass
    return some tag
  | _ => return none

/-- Passes the anchor and the tag of a node, in either order. -/
def properties : Reader (Option String × Option Tag) := do
  match ← anchor? with
  | some anchor => return (some anchor, ← tag?)
  | none =>
    match ← tag? with
    | none     => return (none, none)
    | some tag => return (← anchor?, some tag)

/-- At most `bound` items, each after this token. -/
def eachAfter (token : Token) (item : Reader Node) : (bound : Nat) → Reader (List Node)
  | 0         => return []
  | bound + 1 => do
    if ← passIf token then
      let first ← item
      return first :: (← eachAfter token item bound)
    else return []

/-- At most `bound` items up to this token, with nothing between them. -/
def upTo {α : Type} (closing : Token) (item : Reader α) : (bound : Nat) → Reader (List α)
  | 0         => failure
  | bound + 1 => do
    if ← passIf closing then return []
    let first ← item
    return first :: (← upTo closing item bound)

/-- At most `bound` items up to this token, with commas between them; a comma may follow the last
as well. -/
def separated {α : Type} (closing : Token) (item : Reader α) : (bound : Nat) → Reader (List α)
  | 0         => failure
  | bound + 1 => do
    if ← passIf closing then return []
    let first ← item
    if ← passIf .comma then return first :: (← separated closing item bound)
    take closing
    return [first]

/-- How many tokens are left, which bounds every repetition: an item takes at least one. -/
def left : Reader Nat := do return (← get).tokens.length

end Reader

open Reader

/-- Where a node stands. -/
inductive Place where
  /-- Inside brackets. -/
  | flow
  /-- As a document or as an item of a list written by indentation. -/
  | item
  /-- As a key or value of a mapping written by indentation. Here a list may stand without any
  indentation of its own. -/
  | member
deriving DecidableEq, Repr

/-- A node, or nothing before one of these tokens. -/
def orBlank (stops : List Token) (node : Reader Node) : Reader Node := do
  if (← peek?).any stops.contains then return blank else node

/-- A value after its mark, or nothing where there is no mark. -/
def valueOrBlank (stops : List Token) (node : Reader Node) : Reader Node := do
  if ← passIf .value then orBlank stops node else return blank

/-- A key and its value, in a mapping written by indentation. The key may be missing. -/
def blockMember (node : Reader Node) : Reader (Node × Node) := do
  let stops : List Token := [.key, .value, .indentEnd]
  let key ←
    if ← passIf .key then orBlank stops node
    else if (← peek?) = some .value then pure blank
    else failure
  return (key, ← valueOrBlank stops node)

/-- A key and its value, in a mapping inside brackets. A key without its mark has no value. -/
def flowMember (node : Reader Node) : Reader (Node × Node) := do
  let stops : List Token := [.comma, .braceClose]
  if ← passIf .key then
    let key ← orBlank (.value :: stops) node
    return (key, ← valueOrBlank stops node)
  else if (← peek?) = some .value then return (blank, ← valueOrBlank stops node)
  else return (← node, blank)

/-- The scalar or collection that comes next, whose parts are read by `node`. There may be none
after an anchor or a tag. -/
def content (node : Place → Reader Node) (place : Place) (anchor? : Option String)
    (tag? : Option Tag) : Reader Node := do
  let bound ← left
  match ← peek?, place with
  | some (Token.scalar text plain), _ =>
    pass
    note anchor? (some { text, plain, tag? })
    return .scalar { text, plain, tag? }
  | some .bracketOpen, _ =>
    pass
    note anchor? none
    return .list (← separated .bracketClose (node .flow) bound)
  | some .braceOpen, _ =>
    pass
    note anchor? none
    return .mapping (← separated .braceClose (flowMember (node .flow)) bound)
  | some .item, .member =>
    note anchor? none
    let stops : List Token := [.item, .key, .value, .indentEnd]
    return .list (← eachAfter .item (orBlank stops (node .item)) bound)
  | some .listStart, .item | some .listStart, .member =>
    pass
    note anchor? none
    let items ← eachAfter .item (orBlank [.item, .indentEnd] (node .item)) bound
    take .indentEnd
    return .list items
  | some .mappingStart, .item | some .mappingStart, .member =>
    pass
    note anchor? none
    return .mapping (← upTo .indentEnd (blockMember (node .member)) bound)
  | _, _ =>
    if anchor?.isNone && tag?.isNone then failure
    note anchor? (some { text := "", tag? })
    return .scalar { text := "", tag? }

/-- The node that a reference to an anchor is read as. The last anchor of the name counts. -/
def referenced (name : String) : Reader Node := do
  match (← get).anchors.lookup name with
  | none             => failure
  | some none        => return .reference name
  | some (some s)    => return .scalar s

/-- A node of at most this depth. -/
def read : (depth : Nat) → Place → Reader Node
  | 0, _             => failure
  | depth + 1, place => do
    match ← peek? with
    | some (.reference name) =>
      pass
      referenced name
    | _ =>
      let (anchor?, tag?) ← properties
      content (read depth) place anchor? tag?

/-- The only document of a stream. Directives need a marker after them. -/
def document : Reader Node := do
  let bound ← left
  let directives ← eachAfter .directive (pure blank) bound
  if directives.isEmpty then discard (passIf .documentStart) else take .documentStart
  let node ← read bound .item
  discard (eachAfter .documentEnd (pure blank) bound)
  if (← left) = 0 then return node else failure

/-- The node of the only document that tokens write. -/
def ofTokens? (tokens : List Token) : Option Node :=
  (document.run { tokens }).map (·.1)

end Node

end GraphTrace.Yaml
