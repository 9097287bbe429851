import GraphTrace.Segment.Call

/-!
# Arenas

A segment tree as it is kept: a row of slots, each with the indices of the slots below it, and a map
from the texts of the levels to their slots.  The first slot is that of the root.  A handle carries
the index of a slot.

What reaches for a slot that is not there has no outcome, and neither has a finished tree that goes
on without end (`none`).  That this never happens is proved of all runs, not built in.
-/

namespace GraphTrace.Segment

/-- A segment as it is kept. -/
structure Slot where
  label : String
  kind : Kind
  started : Option Int := none
  duration : Option Nat := none
  /-- The indices of the slots below it, in the order in which they came. -/
  children : List Nat := []
deriving DecidableEq, Repr

/-- The slot once its work ended. What never started does not end. -/
def Slot.ended (s : Slot) (now : Int) : Slot :=
  match s.started with
  | none         => s
  | some started => { s with duration := some (Clock.span started now) }

/-- The slots of one operation. -/
structure Arena where
  id : Nat
  capturesScalars : Bool
  closed : Bool := false
  slots : List Slot := [{ label := "", kind := .operation }]
  /-- The slots of the levels, by their texts; the latest comes first. -/
  byPath : List (String × Nat) := []
deriving DecidableEq, Repr

/-- What a call leaves: the arena after it, its answer, and the events it logs. -/
structure Arena.Outcome (α : Type) where
  arena : Arena
  answer : α
  events : List Log.Event := []

/-- The same outcome with another answer. -/
def Arena.Outcome.map {α β : Type} (f : α → β) (o : Outcome α) : Outcome β :=
  ⟨o.arena, f o.answer, o.events⟩

namespace Arena

/-! ### Slots -/

/-- The index of the root. -/
def root : Nat := 0

/-- Changes the slot at an index. -/
def update? (a : Arena) (index : Nat) (f : Slot → Slot) : Option Arena :=
  if index < a.slots.length then some { a with slots := a.slots.modify index f } else none

/-- Starts the root with the earliest work. -/
def startRoot (a : Arena) (now : Int) : Option Arena :=
  a.update? root fun s => if s.started.all (now < ·) then { s with started := some now } else s

/-- Puts a slot behind the others, as the last one below `parent`. -/
def hang (a : Arena) (parent : Nat) (s : Slot) : Option (Nat × Arena) := do
  let index := a.slots.length
  let a ← { a with slots := a.slots ++ [s] }.update? parent fun above =>
    { above with children := above.children ++ [index] }
  return (index, a)

/-- Puts a slot below `parent`; the root starts with it if it started. -/
def push (a : Arena) (parent : Nat) (s : Slot) : Option (Nat × Arena) :=
  match s.started with
  | none     => a.hang parent s
  | some now => do (← a.startRoot now).hang parent s

/-- The slot of a level, which is created below `parent` if it is missing. -/
def ensure (a : Arena) (parent : Nat) (text : String) : Option (Nat × Arena) :=
  match a.byPath.lookup text with
  | some index => some (index, a)
  | none       => do
    let (index, a) ← a.push parent { label := text, kind := .synthetic }
    return (index, { a with byPath := (text, index) :: a.byPath })

/-- The slot of the last of several levels, each below the one before it. -/
def ensureAll (a : Arena) (parent : Nat) : List String → Option (Nat × Arena)
  | []           => some (parent, a)
  | text :: rest => do
    let (index, a) ← a.ensure parent text
    a.ensureAll index rest

/-- The slot of a resolver whose resolution started; that of the root if there is no level. -/
def openResolver (a : Arena) (path : Response.Path) (now : Int) : Option (Nat × Arena) :=
  match path.levels.getLast? with
  | none     => some (root, a)
  | some own => do
    let (parent, a) ← a.ensureAll root path.levels.dropLast
    let (index, a) ← a.ensure parent own
    let a ← a.startRoot now
    let a ← a.update? index fun s => { s with kind := .resolver, started := some now }
    return (index, a)

/-- The slot of the deepest level of a path that has one, or else that of the root. -/
def closest (a : Arena) (path : Response.Path) : Nat :=
  (path.levels.reverse.findSome? (a.byPath.lookup ·)).getD root

/-- The finished segment at an index, unless it goes on below `depth` segments. -/
def node? (a : Arena) : (depth index : Nat) → Option Node
  | 0,         _     => none
  | depth + 1, index => do
    let s ← a.slots[index]?
    let children ← s.children.mapM (a.node? depth)
    return ⟨s.label, s.kind, s.duration, children⟩

/-! ### Calls -/

/-- The index of a handle that this arena gave. -/
def indexOf? (a : Arena) (h : Handle) : Option Nat := if h.tree = a.id then some h.place else none

/-- The handle on a slot. -/
def handle (a : Arena) (index : Nat) : Handle := ⟨a.id, index⟩

/-- A call that changes nothing. -/
def refuse {α : Type} (a : Arena) (answer : α) (events : List Log.Event) : Option (Outcome α) :=
  some ⟨a, answer, events⟩

/-- The field at a path started to resolve. A leaf is recorded only by an arena that captures
scalars. -/
def start (a : Arena) (path : Response.Path) (leaf : Bool) (now : Int) :
    Option (Outcome (Option Handle)) :=
  if leaf && !a.capturesScalars then a.refuse none []
  else if path.elements.isEmpty then
    a.refuse none [⟨.debug, "ignoring resolution without a path", []⟩]
  else if a.closed then
    a.refuse none [Tree.eventAt .debug "resolution started after the operation finished" path]
  else do
    let (index, after) ← a.openResolver path now
    return ⟨after, some (a.handle index), [Tree.eventAt .trace "resolution started" path]⟩

/-- The field at a path finished resolving. -/
def stop (a : Arena) (path : Response.Path) (now : Int) : Option (Outcome Unit) :=
  if a.closed then
    a.refuse () [Tree.eventAt .debug "resolution ended after the operation finished" path]
  else
    match a.byPath.lookup path.text with
    | some index => (a.update? index (·.ended now)).map (⟨·, (), []⟩)
    | none       => a.refuse () [Tree.eventAt .trace "no segment recorded for resolution" path]

/-- The work behind a handle ended. An index without a slot changes nothing. -/
def close (a : Arena) (h : Handle) (now : Int) : Option (Outcome Unit) :=
  match a.indexOf? h with
  | none => a.refuse () [⟨.debug, "ignoring a segment handle of another operation", []⟩]
  | some index =>
    if a.closed then a.refuse () []
    else some ⟨{ a with slots := a.slots.modify index (·.ended now) }, (), []⟩

/-- A resolution whose start and end are both known. -/
def record (a : Arena) (path : Response.Path) (leaf : Bool) (start stop : Int) :
    Option (Outcome (Option Handle)) := do
  let started ← a.start path leaf start
  match started.answer with
  | none   => return started
  | some h =>
    let ended ← started.arena.close h stop
    return ⟨ended.arena, some h, started.events ++ ended.events⟩

/-- Starts nested work below a slot. -/
def startNested (a : Arena) (parent : Nat) (label : String) (now : Int) :
    Option (Outcome (Option Handle)) := do
  let (index, after) ← a.push parent { label, kind := .nested, started := some now }
  return ⟨after, some (a.handle index), []⟩

/-- Work started in the resolver at a path. It hangs below the deepest level of the path that has a
slot. -/
def nested (a : Arena) (owner : Response.Path) (label : String) (now : Int) :
    Option (Outcome (Option Handle)) :=
  if a.closed then
    a.refuse none [Tree.eventAt .debug "nested work started after the operation finished" owner]
  else a.startNested (a.closest owner) label now

/-- Work started inside the work behind a handle. -/
def nestedIn (a : Arena) (h : Handle) (label : String) (now : Int) :
    Option (Outcome (Option Handle)) :=
  match a.indexOf? h with
  | none => a.refuse none []
  | some index =>
    if a.closed || a.slots.length ≤ index then a.refuse none []
    else a.startNested index label now

/-- Closes the arena and returns its tree under a label; only the first call does. -/
def finish (a : Arena) (label : String) (now : Int) : Option (Outcome (Option Node)) :=
  if a.closed then a.refuse none []
  else do
    let a ← { a with closed := true }.update? root fun s => { s with label }.ended now
    let node ← a.node? a.slots.length root
    return ⟨a, some node, []⟩

/-- Applies a call. -/
def apply (a : Arena) : Call → Option (Outcome Answer)
  | .start path leaf now         => (a.start path leaf now).map (·.map .handle)
  | .stop path now               => (a.stop path now).map (·.map fun _ => .nothing)
  | .record path leaf start stop => (a.record path leaf start stop).map (·.map .handle)
  | .nested owner label now      => (a.nested owner label now).map (·.map .handle)
  | .nestedIn parent label now   => (a.nestedIn parent label now).map (·.map .handle)
  | .close handle now            => (a.close handle now).map (·.map fun _ => .nothing)
  | .finish label now            => (a.finish label now).map (·.map .finished)

/-- The arena after a list of calls. -/
def run (a : Arena) : List Call → Option Arena
  | []           => some a
  | call :: rest => do (← a.apply call).arena.run rest

end Arena

end GraphTrace.Segment
