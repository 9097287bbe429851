import GraphTrace.Log
import GraphTrace.Naming.Shape

/-!
# The deepest unique path

From a selection set the walk goes down as long as there is one way to go.  It is kept as a list
of steps; the path is their text (`pathText`).  A field that is not reserved and a fragment that is
declared are segments joined by points, a type condition is written `<Type>` behind what precedes
it.  A spread ends the walk, with a segment only if its fragment is declared: what the fragment
selects never matters.
-/

namespace GraphTrace.Naming

/-- One step of a walk. -/
inductive Step where
  | field (name : String)
  | fragment (name : String)
  | condition (type : String)
deriving DecidableEq, Repr

namespace Step

/-- A path with a segment behind it. -/
def join (path segment : String) : String :=
  if path.isEmpty then segment else path ++ "." ++ segment

/-- A path with a step behind it. -/
def extend (path : String) : Step → String
  | .field name | .fragment name => join path name
  | .condition type              => path ++ "<" ++ type ++ ">"

end Step

/-- The text of a sequence of steps. -/
def pathText (steps : List Step) : String := steps.foldl Step.extend ""

/-- The steps of a walk, and the name of the spread that ended it if that fragment is declared
nowhere. -/
structure Walk where
  steps : List Step
  undeclared : Option String := none
deriving DecidableEq, Repr

namespace Walk

/-- A walk that goes nowhere. -/
def here : Walk := ⟨[], none⟩

/-- A walk behind a step. -/
def after (w : Walk) (step : Step) : Walk := { w with steps := step :: w.steps }

/-- The path walked. -/
def text (w : Walk) : String := pathText w.steps

/-- What a walk has to report. -/
def events (w : Walk) : List Log.Event :=
  match w.undeclared with
  | none => []
  | some name =>
    [⟨.debug, "spread of an undeclared fragment, path stops before it", [("fragment.name", name)]⟩]

end Walk

/-- The walk from a selection set. `declared` tells which fragments the document declares. -/
def walk (reserved : Reserved) (declared : String → Bool) (selections : List Selection) : Walk :=
  match _h : shape reserved selections with
  | .empty | .branching => .here
  | .single (.field _ name _ _ below) =>
    if reserved.contains name then .here
    else (walk reserved declared below).after (.field name)
  | .single (.spread name _) =>
    if declared name then ⟨[.fragment name], none⟩ else ⟨[], some name⟩
  | .single (.inline (some type) _ below) =>
    (walk reserved declared below).after (.condition type)
  | .single (.inline none _ below) => walk reserved declared below
termination_by sizeOf selections
decreasing_by
  all_goals
    have := sizeOf_lt_of_single _h
    simp at this; omega

end GraphTrace.Naming
