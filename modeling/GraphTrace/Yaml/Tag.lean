import GraphTrace.Text.Hexadecimal
import GraphTrace.Yaml.Glyph
import GraphTrace.Yaml.Token

/-!
# Tags, anchors and directives

A tag is a handle and a suffix; what handles stand for is left to the reader of the tag.  A
directive is only checked for its form.
-/

namespace GraphTrace.Yaml

/-- The characters of a tag that stand for themselves. -/
def isTagPart (g : Glyph) : Bool :=
  g.isNamePart || [';', '/', '?', ':', '@', '&', '=', '+', '$', ',', '.', '!', '~', '*', '\'',
    '(', ')', '[', ']'].contains g.char

/-- The octet that a percent sign and two digits write. -/
def octet? : List Glyph → Option Nat
  | g₁ :: g₂ :: g₃ :: _ => if g₁.char == '%' then Text.hexNumber? [g₂.char, g₃.char] else none
  | _                   => none

/-- The character that octets write, and how many glyphs that takes. An octet below 128 is a
character of its own; two octets that lead and trail in UTF-8 are one number. -/
def octetsChar? (gs : List Glyph) : Option (Char × Nat) := do
  let lead ← octet? gs
  if lead < 0x80 then return (Char.ofNat lead, 3)
  let trail ← octet? (gs.drop 3)
  let code := lead * 256 + trail
  if 0xC0 ≤ lead ∧ lead < 0xE0 ∧ 0x80 ≤ trail ∧ trail < 0xC0 ∧ code.isValidChar then
    return (Char.ofNat code, 6)
  else none

/-- The rest of a tag, which may be empty, and what follows it. -/
def readTagParts (gs : List Glyph) : Option (List Char × List Glyph) :=
  match gs with
  | [] => some ([], [])
  | g :: rest =>
    if isTagPart g then (readTagParts rest).map fun (text, after) => (g.char :: text, after)
    else if g.char == '%' then
      match octetsChar? (g :: rest) with
      | none => none
      | some (c, taken) =>
        (readTagParts (rest.drop (taken - 1))).map fun (text, after) => (c :: text, after)
    else some ([], g :: rest)
termination_by gs.length
decreasing_by all_goals simp only [List.length_drop, List.length_cons]; omega

/-- The same, and not empty. -/
def readTagParts1 (gs : List Glyph) : Option (List Char × List Glyph) := do
  let (text, rest) ← readTagParts gs
  if text.isEmpty then none else return (text, rest)

/-- A handle after its first exclamation mark: the name in it, whether it is closed by another
mark, and the rest. -/
def readHandle (gs : List Glyph) : List Char × Bool × List Glyph :=
  match splitName gs with
  | (name, [])        => (name, false, [])
  | (name, g :: rest) => if g.char == '!' then (name, true, rest) else (name, false, g :: rest)

/-- A tag after its exclamation mark, whatever follows it: verbatim between angle brackets, with a
handle of its own, or with the handle of one mark. The mark alone is a tag without a handle. -/
def readTagForm (gs : List Glyph) : Option (Tag × List Glyph) := do
  if gs.head?.any (·.char == '<') then
    let (suffix, rest) ← readTagParts1 (gs.drop 1)
    if rest.head?.any (·.char == '>') then return (⟨"", String.ofList suffix⟩, rest.drop 1)
    else none
  else
    match readHandle gs with
    | (name, true, rest) =>
      let (suffix, rest) ← readTagParts1 rest
      return (⟨String.ofList ('!' :: name ++ ['!']), String.ofList suffix⟩, rest)
    | (name, false, rest) =>
      let (text, rest) ← readTagParts rest
      let suffix := name ++ text
      return if suffix.isEmpty then (⟨"", "!"⟩, rest) else (⟨"!", String.ofList suffix⟩, rest)

/-- A tag after its exclamation mark. It is a word of its own. -/
def readTag (gs : List Glyph) : Option (Tag × List Glyph) := do
  let (tag, rest) ← readTagForm gs
  if atWordEnd rest then return (tag, rest) else none

/-- The name of an anchor, which is not empty, and what follows it. -/
def readAnchor (gs : List Glyph) : Option (String × List Glyph) :=
  let (name, rest) := splitName gs
  let ended := atWordEnd rest
    || rest.head?.any (['?', ':', ',', ']', '}', '%', '@', '\x60'].contains ·.char)
  if name.isEmpty || ! ended then none else some (String.ofList name, rest)

/-- What follows a number of at most nine digits. -/
def afterNumber? (gs : List Glyph) : Option (List Glyph) :=
  let digits := gs.takeWhile (·.char.isDigit)
  if digits.isEmpty || 9 < digits.length then none else some (gs.drop digits.length)

/-- What follows a version: two numbers with a point between them. -/
def afterVersion? (gs : List Glyph) : Option (List Glyph) := do
  let rest ← afterNumber? (afterBlanks gs)
  if rest.head?.any (·.char == '.') then afterNumber? (rest.drop 1) else none

/-- What follows the declaration of a handle: the handle and the start of the tags it stands for. -/
def afterHandle? (gs : List Glyph) : Option (List Glyph) := do
  match afterBlanks gs with
  | [] => none
  | g :: rest =>
    let (name, closed, rest) := readHandle rest
    if g.char != '!' || (! closed && ! name.isEmpty) then none
    else
      let (_, rest) ← readTagParts1 (afterBlanks rest)
      if atWordEnd rest then return rest else none

/-- What follows the line of a directive, whose percent sign is read. -/
def afterDirective? (gs : List Glyph) : Option (List Glyph) := do
  let (name, rest) := splitName gs
  if name.isEmpty || ! atWordEnd rest then none
  else
    let last ← match String.ofList name with
      | "YAML" => afterVersion? rest
      | "TAG"  => afterHandle? rest
      | _      => some (splitLine rest).2
    afterLine? last

end GraphTrace.Yaml
