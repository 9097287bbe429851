import GraphTrace.Text.Hexadecimal
import GraphTrace.Yaml.Gap

/-!
# Quoted scalars

Between single quotes only the quote itself is special, and is written twice.  Between double
quotes a backslash starts an escape, or takes away the break after it.  A scalar that is not closed
before the document ends is an error.
-/

namespace GraphTrace.Yaml.Quoted

/-- The character that a backslash and this one stand for. -/
def escape? : Char → Option Char
  | '0'  => some '\x00'
  | 'a'  => some '\x07'
  | 'b'  => some '\x08'
  | 't'  => some '\t'
  | '\t' => some '\t'
  | 'n'  => some '\n'
  | 'v'  => some '\x0b'
  | 'f'  => some '\x0c'
  | 'r'  => some '\r'
  | 'e'  => some '\x1b'
  | ' '  => some ' '
  | '"'  => some '"'
  | '\'' => some '\''
  | '\\' => some '\\'
  | 'N'  => some '\u0085'
  | '_'  => some '\u00a0'
  | 'L'  => some '\u2028'
  | 'P'  => some '\u2029'
  | _    => none

/-- How many digits of a code point follow a backslash and this character. -/
def digits? : Char → Option Nat
  | 'x' => some 2
  | 'u' => some 4
  | 'U' => some 8
  | _   => none

/-- The character that a backslash and these glyphs write, and how many of them that takes. -/
def escaped? (gs : List Glyph) : Option (Char × Nat) := do
  let letter ← gs.head?
  match escape? letter.char with
  | some c => return (c, 1)
  | none =>
    let count ← digits? letter.char
    let digits := (gs.drop 1).take count
    let code ← Text.hexNumber? (digits.map (·.char))
    if digits.length = count ∧ code.isValidChar then return (Char.ofNat code, count + 1) else none

/-- Reads on between single quotes after a gap: the text, and what follows the closing quote. -/
def readSingle (gap : Gap) : List Glyph → Option (List Char × List Glyph)
  | [] => none
  | g :: rest =>
    if g.isSpacing then readSingle (gap.add g) rest
    else if atBoundary (g :: rest) then none
    else if g.char == '\'' then
      match rest with
      | [] => some (gap.text, [])
      | next :: after =>
        if next.char == '\'' then
          (readSingle .none after).map fun (text, last) => (gap.text ++ '\'' :: text, last)
        else some (gap.text, next :: after)
    else (readSingle .none rest).map fun (text, last) => (gap.text ++ g.char :: text, last)

/-- Reads on between double quotes after a gap: the text, and what follows the closing quote. -/
def readDouble (gap : Gap) : List Glyph → Option (List Char × List Glyph)
  | [] => none
  | g :: rest =>
    if g.isSpacing then readDouble (gap.add g) rest
    else if atBoundary (g :: rest) then none
    else if g.char == '"' then some (gap.text, rest)
    else if g.char == '\\' then
      if rest.head?.any Glyph.isBreak then
        (readDouble (.escaped 0) (rest.drop 1)).map fun (text, last) => (gap.text ++ text, last)
      else
        match escaped? rest with
        | none => none
        | some (c, taken) =>
          (readDouble .none (rest.drop taken)).map fun (text, last) =>
            (gap.text ++ c :: text, last)
    else (readDouble .none rest).map fun (text, last) => (gap.text ++ g.char :: text, last)
termination_by gs => gs.length
decreasing_by all_goals simp only [List.length_drop, List.length_cons]; omega

/-- Reads a scalar after its opening quote. -/
def read (double : Bool) (gs : List Glyph) : Option (String × List Glyph) := do
  let (text, rest) ← if double then readDouble .none gs else readSingle .none gs
  return (String.ofList text, rest)

end GraphTrace.Yaml.Quoted
