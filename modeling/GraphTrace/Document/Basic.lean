/-!
# GraphQL documents

The part of a document that naming looks at: its operations and its named fragments, each with the
selections below it.  Definitions of the type system are kept only as places in the list, since an
operation is named from the shape of its selections alone.

Two fragments may share a name; the later definition then counts (`Document.fragment?`).
-/

namespace GraphTrace

/-- The kind of an operation. -/
inductive OperationKind where
  | query
  | mutation
  | subscription
deriving DecidableEq, Repr

namespace OperationKind

/-- The keyword that opens an operation of this kind. -/
def keyword : OperationKind → String
  | .query        => "query"
  | .mutation     => "mutation"
  | .subscription => "subscription"

/-- All kinds, in the order of the grammar. -/
def all : List OperationKind := [.query, .mutation, .subscription]

/-- The kind a keyword stands for. -/
def ofKeyword? (word : String) : Option OperationKind := all.find? (·.keyword == word)

end OperationKind

/-- A literal value, numbers and strings as they are written. -/
inductive Value where
  | variable (name : String)
  | number (text : String)
  | string (text : String)
  | boolean (value : Bool)
  | null
  | enum (name : String)
  | list (items : List Value)
  | object (fields : List (String × Option Value))

/-- An argument. The value may be left out. -/
structure Argument where
  name : String
  value : Option Value

/-- A directive, as in `@include(if: $x)`. -/
structure Directive where
  name : String
  arguments : List Argument

/-- One entry of a selection set. -/
inductive Selection where
  /-- A field; a leaf selects nothing below it. -/
  | field (alias? : Option String) (name : String) (arguments : List Argument)
      (directives : List Directive) (selections : List Selection)
  /-- `...Name`. -/
  | spread (name : String) (directives : List Directive)
  /-- `... on Type { }`, or without a type condition `... { }`. -/
  | inline (condition : Option String) (directives : List Directive)
      (selections : List Selection)

/-- A query, mutation or subscription. -/
structure Operation where
  kind : OperationKind
  name : Option String
  selections : List Selection

/-- A named fragment. -/
structure Fragment where
  name : String
  condition : String
  selections : List Selection

/-- One definition of a document. -/
inductive Definition where
  | operation (operation : Operation)
  | fragment (fragment : Fragment)
  | typeSystem

/-- A document: its definitions in order. -/
structure Document where
  definitions : List Definition

namespace Definition

/-- The operation this definition is, if it is one. -/
def operation? : Definition → Option Operation
  | .operation o => some o
  | _            => none

/-- The fragment this definition is, if it is one. -/
def fragment? : Definition → Option Fragment
  | .fragment f => some f
  | _           => none

end Definition

namespace Document

/-- The operations, in document order. -/
def operations (d : Document) : List Operation := d.definitions.filterMap (·.operation?)

/-- The fragment definitions, in document order. -/
def fragments (d : Document) : List Fragment := d.definitions.filterMap (·.fragment?)

/-- The fragment a spread of `name` stands for: the last one declared under that name. -/
def fragment? (d : Document) (name : String) : Option Fragment :=
  d.fragments.reverse.find? (·.name == name)

/-- Whether a fragment of this name is declared. -/
def declares (d : Document) (name : String) : Bool := d.fragments.any (·.name == name)

/-- The distinct names of the declared fragments. -/
def fragmentNames (d : Document) : List String := (d.fragments.map (·.name)).eraseDups

/-- The operation a request selects: the first that carries the wanted name, or without one the
first of the document. -/
def select? (d : Document) : (wanted : Option String) → Option Operation
  | some name => d.operations.find? (·.name == some name)
  | none      => d.operations.head?

end Document

end GraphTrace
