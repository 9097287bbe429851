import GraphTrace.Yaml.Gap

/-!
# Plain scalars

A scalar without quotes ends where a key, a comment, a document or a bracket does, and outside of
brackets where the indentation falls back.
-/

namespace GraphTrace.Yaml.Plain

/-- Whether a plain scalar ends before these glyphs. -/
def endsBefore (flow : Bool) (indent : Nat) (gap : Gap) : List Glyph → Bool
  | [] => true
  | g :: rest =>
    let afterGap := gap != .none &&
      ((! flow && g.column < indent) || g.char == '#' || atBoundary (g :: rest))
    let afterKey := g.char == ':' &&
      (atWordEnd rest || (flow && rest.head?.any Glyph.isFlowMark))
    afterGap || afterKey || (flow && g.isFlowMark)

/-- Reads on in a plain scalar after a gap: the text, the gap after the last word, and the rest.
No tab may stand before the indentation of a later line. -/
def readFrom (flow : Bool) (indent : Nat) (gap : Gap) :
    List Glyph → Option (List Char × Gap × List Glyph)
  | [] => some ([], gap, [])
  | g :: rest =>
    if g.isSpacing then
      if g.char == '\t' && gap.isBroken && g.column < indent then none
      else readFrom flow indent (gap.add g) rest
    else if endsBefore flow indent gap (g :: rest) then some ([], gap, g :: rest)
    else
      (readFrom flow indent .none rest).map fun (text, last, after) =>
        (gap.text ++ g.char :: text, last, after)

/-- Reads a plain scalar: the text, whether a line ends after it, and the rest. -/
def read (flow : Bool) (indent : Nat) (gs : List Glyph) :
    Option (String × Bool × List Glyph) :=
  (readFrom flow indent .none gs).map fun (text, last, rest) =>
    (String.ofList text, last.isBroken, rest)

end GraphTrace.Yaml.Plain
