/-!
# Log events

What the library says while it works.  Every operation that may log returns its events, in order,
beside its answer; nothing is written anywhere.  An event's fields are texts under names.
-/

namespace GraphTrace.Log

/-- How much an event matters. -/
inductive Level where
  | trace
  | debug
  | info
deriving DecidableEq, Repr

/-- One event: its level, its fixed message and its named fields. -/
structure Event where
  level : Level
  message : String
  fields : List (String × String) := []
deriving DecidableEq, Repr

end GraphTrace.Log
