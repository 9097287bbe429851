import GraphTrace.Segment.Tree

/-!
# Calls on a segment tree

What a host can ask of a tree, as data: a run of a tree is then a list of calls, applied in order.
-/

namespace GraphTrace.Segment

/-- A call on a tree, with the instants it happened at. -/
inductive Call where
  | start (path : Response.Path) (leaf : Bool) (now : Int)
  | stop (path : Response.Path) (now : Int)
  | record (path : Response.Path) (leaf : Bool) (start stop : Int)
  | nested (owner : Response.Path) (label : String) (now : Int)
  | nestedIn (parent : Handle) (label : String) (now : Int)
  | close (handle : Handle) (now : Int)
  | finish (label : String) (now : Int)

/-- What a call answers: nothing, a handle or none, or the finished tree if this call closed it. -/
inductive Answer where
  | nothing
  | handle (handle : Option Handle)
  | finished (tree : Option Node)

/-- The same outcome with another answer. -/
def Outcome.map {α β : Type} (f : α → β) (o : Outcome α) : Outcome β :=
  ⟨o.tree, f o.answer, o.events⟩

namespace Tree

/-- Applies a call. -/
def apply (t : Tree) : Call → Outcome Answer
  | .start path leaf now         => (t.start path leaf now).map .handle
  | .stop path now               => (t.stop path now).map fun _ => .nothing
  | .record path leaf start stop => (t.record path leaf start stop).map .handle
  | .nested owner label now      => (t.nested owner label now).map .handle
  | .nestedIn parent label now   => (t.nestedIn parent label now).map .handle
  | .close handle now            => (t.close handle now).map fun _ => .nothing
  | .finish label now            => (t.finish label now).map .finished

/-- The tree after a list of calls. -/
def run (t : Tree) (calls : List Call) : Tree := calls.foldl (fun t call => (t.apply call).tree) t

end Tree

end GraphTrace.Segment
