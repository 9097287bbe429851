import GraphTrace.Yaml.Glyph

/-!
# Block scalars

A scalar of whole lines, which stand at one indentation.  In the literal form lines stay apart; in
the folded form a line is joined to the one before it unless one of the two starts with a blank.
-/

namespace GraphTrace.Yaml.Block

/-- What becomes of the breaks after the last line. -/
inductive Chomping where
  /-- One stays. -/
  | clip
  /-- None stays. -/
  | strip
  /-- All stay. -/
  | keep
deriving DecidableEq, Repr

/-- How the lines of a block scalar are read. -/
structure Form where
  folded : Bool
  chomping : Chomping := .clip
  /-- How much deeper than its surroundings the scalar stands, where that is written. -/
  increment : Option Nat := none
deriving DecidableEq, Repr

/-- The sign for a chomping. -/
def chomping? : Char → Option Chomping
  | '+' => some .keep
  | '-' => some .strip
  | _   => none

/-- Reads a sign for a chomping, if there is one. -/
def readChomping (form : Form) : List Glyph → Form × List Glyph
  | [] => (form, [])
  | g :: rest =>
    match chomping? g.char with
    | some chomping => ({ form with chomping }, rest)
    | none          => (form, g :: rest)

/-- Reads a digit for the increment, if there is one. It is not zero. -/
def readIncrement (form : Form) : List Glyph → Option (Form × List Glyph)
  | [] => some (form, [])
  | g :: rest =>
    if g.char == '0' then none
    else if g.char.isDigit then some ({ form with increment := g.char.toNat - '0'.toNat }, rest)
    else some (form, g :: rest)

/-- Reads the signs of a header, in either order. -/
def readForm (form : Form) (gs : List Glyph) : Option (Form × List Glyph) := do
  let (form, afterSign) := readChomping form gs
  let signed := afterSign.length < gs.length
  let (form, rest) ← readIncrement form afterSign
  return if signed then (form, rest) else readChomping form rest

/-- The first place at or after these glyphs that is neither a space within the indentation nor a
break, and how many breaks are passed. No tab may stand within the indentation. -/
def afterIndent (within : Nat → Bool) : List Glyph → Option (Nat × List Glyph)
  | [] => some (0, [])
  | g :: rest =>
    if g.char == ' ' && within g.column then afterIndent within rest
    else if g.char == '\t' && within g.column then none
    else if g.isBreak then (afterIndent within rest).map fun (breaks, after) => (breaks + 1, after)
    else some (0, g :: rest)

/-- The furthest column that spaces reach, in the first line that is not empty or before it. -/
def reach : List Glyph → Nat
  | [] => 0
  | g :: rest => if g.char == ' ' || g.isBreak then max g.column (reach rest) else g.column

/-- What stands between a line and the line before it, if there is one, with so many empty lines
between them. A line is given by whether it starts with a blank. -/
def joint (folded : Bool) (before : Option Bool) (empty : Nat) (blank : Bool) : List Char :=
  match before with
  | none => List.replicate empty '\n'
  | some blankBefore =>
    if folded && ! blankBefore && ! blank then
      if empty = 0 then [' '] else List.replicate empty '\n'
    else List.replicate (empty + 1) '\n'

/-- What stands after the last line, if there is one. -/
def tail (chomping : Chomping) (before : Option Bool) (empty : Nat) : List Char :=
  match chomping, before with
  | .strip, _      => []
  | .clip, none    => []
  | .clip, some _  => ['\n']
  | .keep, none    => List.replicate empty '\n'
  | .keep, some _  => List.replicate (empty + 1) '\n'

/-- Reads at most `bound` lines: the text, and the rest. `before` and `empty` tell what was read
just before: a line that ended, if there was one, and empty lines. -/
def readLines (form : Form) (indent : Nat) :
    (bound : Nat) → Option Bool → Nat → List Glyph → Option (List Char × List Glyph)
  | 0, _, _, _ => none
  | _ + 1, before, empty, [] => some (tail form.chomping before empty, [])
  | bound + 1, before, empty, g :: rest => do
    if g.column ≠ indent then return (tail form.chomping before empty, g :: rest)
    let (line, ending) := splitLine (g :: rest)
    let start := joint form.folded before empty g.isBlank ++ line
    match ending with
    | [] => return (start, [])
    | _ :: next =>
      let (empty, next) ← afterIndent (· < indent) next
      let (text, after) ← readLines form indent bound (some g.isBlank) empty next
      return (start ++ text, after)

/-- Reads a block scalar after its indicator. `base` is the column that its surroundings stand at,
if they are indented at all. -/
def read (folded : Bool) (base : Option Nat) (gs : List Glyph) : Option (String × List Glyph) := do
  let (form, rest) ← readForm { folded } gs
  let body ← afterLine? rest
  let indent := match form.increment with
    | some increment => base.getD 0 + increment
    | none           => max (reach body) (max 1 (base.elim 0 (· + 1)))
  let (empty, lines) ← afterIndent (fun column => form.increment.isNone || column < indent) body
  let (text, after) ← readLines form indent (lines.length + 1) none empty lines
  return (String.ofList text, after)

end GraphTrace.Yaml.Block
