/-!
# Characters with their places

YAML reads indentation, so each character comes with the line and column it stands at.  A line
feed, a carriage return and the pair of them each are one break, but a carriage return alone does
not start a new line: places after it count on in the same line.  A text ends at its first NUL.
-/

namespace GraphTrace.Yaml

/-- A character and its place. Breaks are all written as a line feed. -/
structure Glyph where
  char : Char
  index : Nat
  line : Nat
  column : Nat
deriving DecidableEq, Repr

namespace Glyph

/-- The glyphs of a text whose first character has this place. -/
def placeFrom (index line column : Nat) : List Char → List Glyph
  | [] => []
  | '\r' :: '\n' :: cs => ⟨'\n', index, line, column⟩ :: placeFrom (index + 2) (line + 1) 0 cs
  | '\n' :: cs => ⟨'\n', index, line, column⟩ :: placeFrom (index + 1) (line + 1) 0 cs
  | '\r' :: cs => ⟨'\n', index, line, column⟩ :: placeFrom (index + 1) line (column + 1) cs
  | c :: cs => ⟨c, index, line, column⟩ :: placeFrom (index + 1) line (column + 1) cs

/-- The glyphs of a text. -/
def place (text : String) : List Glyph :=
  placeFrom 0 0 0 (text.toList.takeWhile (· != '\x00'))

/-- A space or a tab. -/
def isBlank (g : Glyph) : Bool := g.char == ' ' || g.char == '\t'

/-- The end of a line. -/
def isBreak (g : Glyph) : Bool := g.char == '\n'

/-- What may stand between words. -/
def isSpacing (g : Glyph) : Bool := g.isBlank || g.isBreak

/-- What may stand in names of anchors and directives. -/
def isNamePart (g : Glyph) : Bool := g.char.isAlphanum || g.char == '_' || g.char == '-'

/-- What ends a word inside brackets. -/
def isFlowMark (g : Glyph) : Bool := [',', '[', ']', '{', '}'].contains g.char

end Glyph

/-- Whether a word ends here: spacing comes next, or the end of the text. -/
def atWordEnd (gs : List Glyph) : Bool := gs.head?.all Glyph.isSpacing

/-- Whether a line starts here with three of this character, as a word. -/
def atMarker (c : Char) : List Glyph → Bool
  | g₁ :: g₂ :: g₃ :: rest =>
    g₁.column == 0 && g₁.char == c && g₂.char == c && g₃.char == c && atWordEnd rest
  | _ => false

/-- Whether a marker between documents comes next. -/
def atBoundary (gs : List Glyph) : Bool := atMarker '-' gs || atMarker '.' gs

/-- The characters up to the end of the line, and the glyphs from there. -/
def splitLine (gs : List Glyph) : List Char × List Glyph :=
  ((gs.takeWhile (! ·.isBreak)).map (·.char), gs.dropWhile (! ·.isBreak))

/-- The glyphs after the blanks here. -/
def afterBlanks (gs : List Glyph) : List Glyph := gs.dropWhile Glyph.isBlank

/-- The glyphs after this line, on which only blanks and a comment may be left. -/
def afterLine? (gs : List Glyph) : Option (List Glyph) :=
  match afterBlanks gs with
  | []        => some []
  | g :: rest =>
    if g.isBreak then some rest
    else if g.char == '#' then some ((splitLine rest).2.drop 1)
    else none

/-- The name that comes next, which may be empty, and what follows it. -/
def splitName (gs : List Glyph) : List Char × List Glyph :=
  ((gs.takeWhile Glyph.isNamePart).map (·.char), gs.dropWhile Glyph.isNamePart)

end GraphTrace.Yaml
