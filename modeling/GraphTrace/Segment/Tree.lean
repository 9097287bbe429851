import GraphTrace.Log
import GraphTrace.Response.Path
import GraphTrace.Segment.Node

/-!
# Segment trees

The segments of one operation's execution, built from the resolution events that the host reports
in any order.  A resolution becomes a segment labelled with its dotted path, below the segment of
the level above it; levels that were not reported are created and may be reported later.  Nested
work hangs below a resolver or below other nested work.

A tree has its segments in the order in which they came, each with the place of the segment above
it, so a segment never moves.  Instants are nanoseconds on the host's clock and belong to the
calls.  The root is no segment of the list: it starts with the earliest work and is labelled when
the tree is finished, after which every call is refused.

How a tree is kept, with child lists and a map of its levels, is said by `Arena`, which goes as the
tree does.
-/

namespace GraphTrace.Segment

/-- When work started last, and how long it took if it ended. -/
structure Clock where
  started : Int
  took : Option Nat
deriving DecidableEq, Repr

namespace Clock

/-- The time between two instants, or none if the second is earlier. -/
def span (start stop : Int) : Nat := (stop - start).toNat

/-- The clock once the work ended. -/
def ended (c : Clock) (now : Int) : Clock := { c with took := some (span c.started now) }

end Clock

/-- What a segment stands for, with its timing. -/
inductive Work where
  /-- A level of the response whose resolution was not reported. -/
  | level
  | resolver (clock : Clock)
  | nested (clock : Clock)
deriving DecidableEq, Repr

namespace Work

/-- The clock of the work, if it was started. -/
def clock? : Work → Option Clock
  | .level                    => none
  | .resolver c | .nested c   => some c

/-- The work once its resolution started; an earlier duration stays. -/
def resolving (now : Int) : Work → Work
  | .level      => .resolver ⟨now, none⟩
  | .resolver c => .resolver { c with started := now }
  | .nested c   => .nested c

/-- The work once it ended. What never started does not end. -/
def ended (now : Int) : Work → Work
  | .level      => .level
  | .resolver c => .resolver (c.ended now)
  | .nested c   => .nested (c.ended now)

/-- The kind a segment of this work has. -/
def kind : Work → Kind
  | .level      => .synthetic
  | .resolver _ => .resolver
  | .nested _   => .nested

end Work

/-- A segment below the root, and the place of the one above it; none is the root. -/
structure Entry where
  label : String
  parent : Option Nat
  work : Work
deriving DecidableEq, Repr

/-- Whether a segment stands for the level of the response that is shown as `text`. -/
def Entry.isLevel (s : Entry) (text : String) : Bool := s.work.kind != .nested && s.label == text

/-- A handle on a segment. Only the tree that returned it knows it. -/
structure Handle where
  tree : Nat
  place : Nat
deriving DecidableEq, Repr

/-- The segments of one operation. -/
structure Tree where
  id : Nat
  capturesScalars : Bool
  closed : Bool := false
  /-- When the earliest work below the root started. -/
  started : Option Int := none
  segments : List Entry := []
deriving DecidableEq, Repr

/-- What a call leaves: the tree after it, its answer, and the events it logs. -/
structure Outcome (α : Type) where
  tree : Tree
  answer : α
  events : List Log.Event := []

namespace Tree

/-! ### Places -/

/-- The place of the segment for a level of the response. -/
def place? (t : Tree) (text : String) : Option Nat := t.segments.findIdx? (·.isLevel text)

/-- The place a handle stands for in this tree. -/
def placeOf? (t : Tree) (h : Handle) : Option Nat := if h.tree = t.id then some h.place else none

/-- The handle on a place. -/
def handle (t : Tree) (place : Nat) : Handle := ⟨t.id, place⟩

/-- The place of the deepest level of a path that has a segment; none is the root. -/
def closest? (t : Tree) (path : Response.Path) : Option Nat :=
  path.levels.reverse.findSome? t.place?

/-! ### Changes -/

/-- The tree with a segment behind the others. -/
def push (t : Tree) (s : Entry) : Tree := { t with segments := t.segments ++ [s] }

/-- The tree once work started: the root starts with the earliest. -/
def noteStart (t : Tree) (now : Int) : Tree :=
  { t with started := some (t.started.elim now (min now)) }

/-- The tree with the work at one place changed. -/
def modify (t : Tree) (place : Nat) (f : Work → Work) : Tree :=
  { t with segments := t.segments.modify place fun s => { s with work := f s.work } }

/-- The place of a level, which is created below `parent` if it is missing. -/
def ensure (t : Tree) (parent : Option Nat) (text : String) : Nat × Tree :=
  match t.place? text with
  | some place => (place, t)
  | none       => (t.segments.length, t.push ⟨text, parent, .level⟩)

/-- The place of the last of several levels, each below the one before it. -/
def ensureAll (t : Tree) (parent : Option Nat) : List String → Option Nat × Tree
  | []           => (parent, t)
  | text :: rest =>
    let (place, t) := t.ensure parent text
    t.ensureAll (some place) rest

/-- The place of a resolver whose resolution started, below the levels above it. -/
def resolving (t : Tree) (above : List String) (own : String) (now : Int) : Nat × Tree :=
  let (parent, t) := t.ensureAll none above
  let (place, t) := t.ensure parent own
  (place, (t.noteStart now).modify place (.resolving now))

/-- Starts nested work below a place. -/
def startNested (t : Tree) (parent : Option Nat) (label : String) (now : Int) :
    Outcome (Option Handle) :=
  ⟨(t.noteStart now).push ⟨label, parent, .nested ⟨now, none⟩⟩, some (t.handle t.segments.length),
    []⟩

/-! ### Calls -/

/-- An event about a path. -/
def eventAt (level : Log.Level) (message : String) (path : Response.Path) : Log.Event :=
  ⟨level, message, [("graphql.path", path.text)]⟩

/-- A call that changes nothing. -/
def refuse {α : Type} (t : Tree) (answer : α) (events : List Log.Event) : Outcome α :=
  ⟨t, answer, events⟩

/-- The field at a path started to resolve. A leaf is recorded only by a tree that captures
scalars. -/
def start (t : Tree) (path : Response.Path) (leaf : Bool) (now : Int) : Outcome (Option Handle) :=
  if leaf && !t.capturesScalars then t.refuse none []
  else
    match path.levels.getLast? with
    | none => t.refuse none [⟨.debug, "ignoring resolution without a path", []⟩]
    | some own =>
      if t.closed then
        t.refuse none [eventAt .debug "resolution started after the operation finished" path]
      else
        let (place, after) := t.resolving path.levels.dropLast own now
        ⟨after, some (t.handle place), [eventAt .trace "resolution started" path]⟩

/-- The field at a path finished resolving. -/
def stop (t : Tree) (path : Response.Path) (now : Int) : Outcome Unit :=
  if t.closed then
    t.refuse () [eventAt .debug "resolution ended after the operation finished" path]
  else
    match t.place? path.text with
    | some place => ⟨t.modify place (.ended now), (), []⟩
    | none       => t.refuse () [eventAt .trace "no segment recorded for resolution" path]

/-- The work behind a handle ended. -/
def close (t : Tree) (h : Handle) (now : Int) : Outcome Unit :=
  match t.placeOf? h with
  | none => t.refuse () [⟨.debug, "ignoring a segment handle of another operation", []⟩]
  | some place => if t.closed then t.refuse () [] else ⟨t.modify place (.ended now), (), []⟩

/-- A resolution whose start and end are both known. -/
def record (t : Tree) (path : Response.Path) (leaf : Bool) (start stop : Int) :
    Outcome (Option Handle) :=
  let started := t.start path leaf start
  match started.answer with
  | none   => started
  | some h =>
    let ended := started.tree.close h stop
    ⟨ended.tree, some h, started.events ++ ended.events⟩

/-- Work started in the resolver at a path. It hangs below the deepest level of the path that has a
segment. -/
def nested (t : Tree) (owner : Response.Path) (label : String) (now : Int) :
    Outcome (Option Handle) :=
  if t.closed then
    t.refuse none [eventAt .debug "nested work started after the operation finished" owner]
  else t.startNested (t.closest? owner) label now

/-- Work started inside the work behind a handle. -/
def nestedIn (t : Tree) (h : Handle) (label : String) (now : Int) : Outcome (Option Handle) :=
  match t.placeOf? h with
  | none => t.refuse none []
  | some place =>
    if t.closed || t.segments.length ≤ place then t.refuse none []
    else t.startNested (some place) label now

/-! ### The finished tree -/

/-- The finished segments from place `i` on, each with the place of the one above it, without those
that hang below one of them. -/
def assemble (i : Nat) : List Entry → List (Option Nat × Node)
  | [] => []
  | s :: rest =>
    let later := assemble (i + 1) rest
    let children := (later.filter (·.1 == some i)).map (·.2)
    (s.parent, ⟨s.label, s.work.kind, s.work.clock?.bind (·.took), children⟩)
      :: later.filter (·.1 != some i)

/-- The finished tree at an instant. -/
def snapshot (t : Tree) (label : String) (now : Int) : Node :=
  ⟨label, .operation, t.started.map (Clock.span · now), (assemble 0 t.segments).map (·.2)⟩

/-- Closes the tree and returns it under a label; only the first call does. -/
def finish (t : Tree) (label : String) (now : Int) : Outcome (Option Node) :=
  if t.closed then t.refuse none []
  else ⟨{ t with closed := true }, some (t.snapshot label now), []⟩

end Tree

end GraphTrace.Segment
