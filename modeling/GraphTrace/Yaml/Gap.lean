import GraphTrace.Yaml.Glyph

/-!
# Gaps in a scalar

Words of a plain or quoted scalar are joined by what the spacing between them means: blanks stand
for themselves, one break is a space, and of several breaks the first is dropped.
-/

namespace GraphTrace.Yaml

/-- The spacing between two words. -/
inductive Gap where
  | blanks (cs : List Char)
  /-- A break and this many more. -/
  | broken (more : Nat)
  /-- A break that a backslash takes away, and this many more. -/
  | escaped (more : Nat)
deriving DecidableEq, Repr

namespace Gap

/-- No spacing at all. -/
def none : Gap := .blanks []

/-- Whether there is a break in it that counts. -/
def isBroken : Gap → Bool
  | .broken _ => true
  | _         => false

/-- The gap with one more glyph of spacing. Blanks around a break mean nothing. -/
def add (gap : Gap) (g : Glyph) : Gap :=
  match gap, g.isBreak with
  | .blanks cs, false  => .blanks (cs ++ [g.char])
  | .blanks _, true    => .broken 0
  | .broken more, brk  => .broken (if brk then more + 1 else more)
  | .escaped more, brk => .escaped (if brk then more + 1 else more)

/-- What a gap stands for. -/
def text : Gap → List Char
  | .blanks cs         => cs
  | .broken 0          => [' ']
  | .broken (more + 1) => List.replicate (more + 1) '\n'
  | .escaped more      => List.replicate more '\n'

end Gap

end GraphTrace.Yaml
