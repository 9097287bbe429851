import GraphTrace.Naming.Walk

/-!
# Identifiers of operations

`kind/name/path`, with `<anonymous>` in place of a missing name.  An identifier is a text, to be
used as a grouping key: it depends on the shape of the operation and on which fragment names the
document declares, and on nothing else.
-/

namespace GraphTrace.Naming

/-- What stands in place of the name of an operation that has none. -/
def anonymous : String := "<anonymous>"

/-- What stands for an operation that could not be named, and for a request without operations. -/
def wildcard : String := "*"

/-- The identifier of an operation. -/
structure Identifier where
  text : String
deriving DecidableEq, Repr

namespace Identifier

/-- The identifier made of a kind, a name and a path. -/
def ofParts (kind : OperationKind) (name : Option String) (path : String) : Identifier :=
  ⟨kind.keyword ++ "/" ++ name.getD anonymous ++ "/" ++ path⟩

/-- Holds the place of an operation that could not be named. -/
def unavailable : Identifier := ⟨wildcard⟩

end Identifier

/-- An identifier, and what naming the operation had to report. -/
structure Named where
  identifier : Identifier
  events : List Log.Event
deriving DecidableEq, Repr

end GraphTrace.Naming

namespace GraphTrace.Document

open Naming

/-- The walk from the selections of an operation, with the fragments this document declares. -/
def walkOf (d : Document) (reserved : Reserved) (o : Operation) : Walk :=
  walk reserved d.declares o.selections

/-- The identifier of an operation in this document. -/
def identifier (d : Document) (reserved : Reserved) (o : Operation) : Identifier :=
  .ofParts o.kind o.name (d.walkOf reserved o).text

/-- Names an operation in this document. -/
def nameOperation (d : Document) (reserved : Reserved) (o : Operation) : Named :=
  ⟨d.identifier reserved o, (d.walkOf reserved o).events⟩

/-- Names the operation that a request selects, if the document has it. -/
def nameSelected (d : Document) (reserved : Reserved) (wanted : Option String) : Option Named :=
  (d.select? wanted).map (d.nameOperation reserved)

end GraphTrace.Document
