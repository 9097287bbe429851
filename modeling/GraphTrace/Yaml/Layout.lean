import GraphTrace.Yaml.Glyph
import GraphTrace.Yaml.Token

/-!
# The layout around a place in a text

Indentation opens and closes collections, and a key is known as one only when the colon after it is
read.  A layout holds what that takes: the columns of the collections that are open, and for each
pair of brackets the place where a key may have started.

Main operations: `Layout.openAt` and `Layout.closeWhile` follow the indentation, `Layout.startKey`
notes a place for a key, and `Layout.endKey` makes it one.
-/

namespace GraphTrace.Yaml

/-- A place where a key may have started. -/
structure KeyStart where
  /-- How many tokens stand before it. -/
  number : Nat
  place : Glyph
  /-- Whether nothing but a key may stand there: the place is inside brackets, at the column of the
  block around them. -/
  required : Bool
deriving DecidableEq, Repr

/-- Whether a place is too far from its colon, if that comes no earlier than `g`: a key takes up
one line and at most 1024 characters. -/
def KeyStart.isStale (key : KeyStart) (g : Glyph) : Bool :=
  key.place.line < g.line || key.place.index + 1024 < g.index

/-- The layout around a place. -/
structure Layout where
  /-- The tokens before this place. -/
  tokens : Array Token := #[]
  /-- Whether a key may start here. -/
  keyAllowed : Bool := true
  /-- Where one may have started inside the innermost brackets. -/
  key? : Option KeyStart := none
  /-- The same around each pair of brackets. -/
  outer : List (Option KeyStart) := []
  /-- The columns of the open collections that are written by indentation. -/
  indents : List Nat := []
  /-- The index right after the last quoted scalar. -/
  quoteEnd : Option Nat := none
deriving Repr

namespace Layout

/-- Whether this place is inside brackets. -/
def inFlow (l : Layout) : Bool := ! l.outer.isEmpty

/-- The first column inside the innermost collection. -/
def inner (l : Layout) : Nat := l.indents.head?.elim 0 (· + 1)

/-- Adds a token. -/
def emit (token : Token) (l : Layout) : Layout := { l with tokens := l.tokens.push token }

/-- Says whether a key may start next. -/
def allowKey (allowed : Bool) (l : Layout) : Layout := { l with keyAllowed := allowed }

/-! ### Keys -/

/-- Gives up the place where a key may have started. -/
def dropKey (l : Layout) : Option Layout :=
  if l.key?.any (·.required) then none else some { l with key? := none }

/-- Notes that a key may start at a glyph. Inside brackets there has to be one at the column of the
block around them. -/
def startKey (g : Glyph) (l : Layout) : Option Layout :=
  if l.keyAllowed then do
    let required := l.inFlow && l.indents.head? == some g.column
    return { ← l.dropKey with key? := some ⟨l.tokens.size, g, required⟩ }
  else some l

/-- A place for a key, unless it is stale. -/
def refreshed (g : Glyph) : Option KeyStart → Option (Option KeyStart)
  | none     => some none
  | some key =>
    if ! key.isStale g then some (some key) else if key.required then none else some none

/-- Gives up the places for keys that are stale. -/
def refreshKeys (g : Glyph) (l : Layout) : Option Layout := do
  return { l with key? := ← refreshed g l.key?, outer := ← l.outer.mapM (refreshed g) }

/-! ### Collections written by indentation -/

/-- Opens a collection at a column, if it is further in, before the token of this number. Inside
brackets indentation means nothing. -/
def openAt (column number : Nat) (start : Token) (l : Layout) : Layout :=
  if l.inFlow || l.indents.head?.any (column ≤ ·) then l
  else
    { l with
      indents := column :: l.indents
      tokens := l.tokens.insertIdxIfInBounds number start }

/-- Closes the innermost collections whose columns pass the test. -/
def closeWhile (test : Nat → Bool) (l : Layout) : Layout :=
  if l.inFlow then l
  else
    { l with
      indents := l.indents.dropWhile test
      tokens := l.tokens ++ (l.indents.takeWhile test).map fun _ => Token.indentEnd }

/-- Closes all collections. -/
def closeAll (l : Layout) : Option Layout := (l.closeWhile fun _ => true).dropKey

/-! ### Marks -/

/-- Reads an opening bracket. It may start a key. -/
def openFlow (g : Glyph) (token : Token) (l : Layout) : Option Layout := do
  let l ← l.startKey g
  return emit token { l with outer := l.key? :: l.outer, key? := none, keyAllowed := true }

/-- Reads a closing bracket. -/
def closeFlow (token : Token) (l : Layout) : Option Layout := do
  let l ← l.dropKey
  let l := match l.outer with
    | []            => l
    | key? :: outer => { l with key?, outer }
  return emit token (l.allowKey false)

/-- Reads a comma. -/
def comma (l : Layout) : Option Layout := do return emit .comma ((← l.dropKey).allowKey true)

/-- Reads the mark of a list item at this column. -/
def item (column : Nat) (l : Layout) : Option Layout := do
  if l.inFlow || ! l.keyAllowed then none
  else return emit .item ((← (l.openAt column l.tokens.size .listStart).dropKey).allowKey true)

/-- Opens the mapping of a key mark or a lone colon at this column. -/
def openPair (column : Nat) (l : Layout) : Option Layout :=
  if l.inFlow then some l
  else if l.keyAllowed then some (l.openAt column l.tokens.size .mappingStart)
  else none

/-- Reads the mark of a key at this column. -/
def key (column : Nat) (l : Layout) : Option Layout := do
  let l ← (← l.openPair column).dropKey
  return emit .key (l.allowKey (! l.inFlow))

/-- Makes a place a key. -/
def endKey (key : KeyStart) (l : Layout) : Layout :=
  openAt key.place.column key.number .mappingStart
    { l with
      tokens := l.tokens.insertIdxIfInBounds key.number .key
      key? := none
      keyAllowed := false }

/-- Reads a colon at this column. -/
def value (column : Nat) (l : Layout) : Option Layout := do
  match l.key? with
  | some key => return emit .value (l.endKey key)
  | none =>
    let l ← l.openPair column
    return emit .value (l.allowKey (! l.inFlow))

/-- Reads a token that may be a key or start one, at a glyph. -/
def word (g : Glyph) (token : Token) (l : Layout) : Option Layout := do
  return emit token ((← l.startKey g).allowKey false)

/-- Reads a marker between documents or a directive. -/
def boundary (token : Token) (l : Layout) : Option Layout := do
  return emit token ((← l.closeAll).allowKey false)

end Layout

end GraphTrace.Yaml
