import GraphTrace.Yaml.Block
import GraphTrace.Yaml.Layout
import GraphTrace.Yaml.Plain
import GraphTrace.Yaml.Quoted
import GraphTrace.Yaml.Tag

/-!
# The tokens of a text

`tokens?` gives the tokens of a text, or none if some part of it is no token where it stands.
-/

namespace GraphTrace.Yaml

/-- What follows blanks, comments and breaks, and whether a key may start there, which after a
break it may. Tabs are no blanks where a key may start. -/
def skipSpacing (flow comment keyAllowed : Bool) : List Glyph → Bool × List Glyph
  | [] => (keyAllowed, [])
  | g :: rest =>
    if g.isBreak then skipSpacing flow false (keyAllowed || ! flow) rest
    else if comment || g.char == ' ' || (g.char == '\t' && (flow || ! keyAllowed)) then
      skipSpacing flow comment keyAllowed rest
    else if g.char == '#' then skipSpacing flow true keyAllowed rest
    else (keyAllowed, g :: rest)

namespace Layout

/-- Whether a colon marks a value. Inside brackets it may do so without a space after it, if a
bracket or comma follows it or if it follows a quoted scalar. -/
def isValueMark (l : Layout) (g : Glyph) (rest : List Glyph) : Bool :=
  g.char == ':' && (atWordEnd rest ||
    (l.inFlow && (rest.head?.any Glyph.isFlowMark || l.quoteEnd == some g.index)))

/-- Reads a quoted scalar that starts at a glyph. -/
def quoted (g : Glyph) (rest : List Glyph) (l : Layout) : Option (Layout × List Glyph) := do
  let (text, rest) ← Quoted.read (g.char == '"') rest
  let l ← l.word g (.scalar text false)
  return ({ l with quoteEnd := rest.head?.map (·.index) }, rest)

/-- Reads a block scalar that starts at a glyph. A key may follow it. -/
def block (g : Glyph) (rest : List Glyph) (l : Layout) : Option (Layout × List Glyph) := do
  let (text, rest) ← Block.read (g.char == '>') l.indents.head? rest
  return ((← l.word g (.scalar text false)).allowKey true, rest)

/-- Reads a plain scalar that starts at a glyph. A key may follow it in a later line. -/
def plain (g : Glyph) (rest : List Glyph) (l : Layout) : Option (Layout × List Glyph) := do
  let (text, lineEnds, rest) ← Plain.read l.inFlow l.inner (g :: rest)
  return ((← l.word g (.scalar text true)).allowKey lineEnds, rest)

/-- Reads a token that starts at a glyph with none of the marks that are always special. -/
def scalar (g : Glyph) (rest : List Glyph) (l : Layout) : Option (Layout × List Glyph) := do
  if g.char == '-' && atWordEnd rest then return (← l.item g.column, rest)
  else if g.char == '?' && atWordEnd rest then return (← l.key g.column, rest)
  else if l.isValueMark g rest then return (← l.value g.column, rest)
  else if (g.char == '|' || g.char == '>') && ! l.inFlow then l.block g rest
  else if ['%', '@', '\x60'].contains g.char then none
  else l.plain g rest

/-- Reads the token that starts at a glyph, with what follows it. -/
def read (g : Glyph) (rest : List Glyph) (l : Layout) : Option (Layout × List Glyph) := do
  if g.column == 0 && g.char == '%' then
    return (← l.boundary .directive, ← afterDirective? rest)
  else if atMarker '-' (g :: rest) then return (← l.boundary .documentStart, rest.drop 2)
  else if atMarker '.' (g :: rest) then return (← l.boundary .documentEnd, rest.drop 2)
  else
    match g.char with
    | '[' => return (← l.openFlow g .bracketOpen, rest)
    | '{' => return (← l.openFlow g .braceOpen, rest)
    | ']' => return (← l.closeFlow .bracketClose, rest)
    | '}' => return (← l.closeFlow .braceClose, rest)
    | ',' => return (← l.comma, rest)
    | '&' =>
      let (name, rest) ← readAnchor rest
      return (← l.word g (.anchor name), rest)
    | '*' =>
      let (name, rest) ← readAnchor rest
      return (← l.word g (.reference name), rest)
    | '!' =>
      let (tag, rest) ← readTag rest
      return (← l.word g (.tag tag), rest)
    | '\'' => l.quoted g rest
    | '"'  => l.quoted g rest
    | _    => l.scalar g rest

/-- Reads at most `bound` tokens, up to the end of the text. -/
def readAll : (bound : Nat) → Layout → List Glyph → Option Layout
  | 0, _, _ => none
  | bound + 1, l, gs => do
    let (keyAllowed, gs) := skipSpacing l.inFlow false l.keyAllowed gs
    let l := l.allowKey keyAllowed
    match gs with
    | [] => l.closeAll
    | g :: rest =>
      let (l, rest) ← ((← l.refreshKeys g).closeWhile (g.column < ·)).read g rest
      readAll bound l rest

end Layout

/-- The tokens of a text. -/
def tokens? (text : String) : Option (List Token) := do
  let gs := Glyph.place text
  return (← Layout.readAll (gs.length + 1) {} gs).tokens.toList

end GraphTrace.Yaml
