import GraphTrace.Document.Basic

/-!
# Reserved field names

Names that never deepen the name of an operation, because nearly every payload has them.  The set
always holds `id` and may be extended; only membership counts, so two sets are the same when they
have the same members (`Reserved.same`).
-/

namespace GraphTrace.Naming

/-- A set of reserved field names. -/
structure Reserved where
  names : List String

namespace Reserved

/-- The set of `id` alone. -/
def standard : Reserved := ⟨["id"]⟩

/-- The standard set with further names. -/
def withNames (additional : List String) : Reserved := ⟨standard.names ++ additional⟩

/-- Whether a field name is reserved. -/
def contains (r : Reserved) (name : String) : Bool := r.names.contains name

/-- Whether two sets have the same members. -/
def same (r s : Reserved) : Bool := r.names.all s.contains && s.names.all r.contains

/-- Whether a selection is a field of a reserved name, whatever its alias. -/
def covers (r : Reserved) : Selection → Bool
  | .field _ name _ _ _ => r.contains name
  | _                   => false

end Reserved

end GraphTrace.Naming
