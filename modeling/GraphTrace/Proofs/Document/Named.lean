import GraphTrace.Document.Basic
import GraphTrace.Document.Name

/-!
# Documents of GraphQL names

The names of operations, fields, fragments and type conditions are the ones that reach the name of
an operation.  A selection, an operation or a document is `Named` when all of them are GraphQL
names.  Aliases, arguments and directives may be called anything.
-/

namespace GraphTrace

mutual

/-- A selection whose names are GraphQL names. -/
def Selection.Named : Selection → Prop
  | .field _ name _ _ below          => Name.isValid name ∧ NamedSelections below
  | .spread name _                   => Name.isValid name
  | .inline none _ below             => NamedSelections below
  | .inline (some condition) _ below => Name.isValid condition ∧ NamedSelections below

/-- Several such selections. -/
def NamedSelections : List Selection → Prop
  | []        => True
  | s :: rest => s.Named ∧ NamedSelections rest

end

/-- Selections are named if each of them is. -/
theorem namedSelections_iff {selections : List Selection} :
    NamedSelections selections ↔ ∀ s ∈ selections, s.Named := by
  induction selections with
  | nil => simp [NamedSelections]
  | cons s rest ih => simp [NamedSelections, ih]

theorem namedSelections_append {a b : List Selection} :
    NamedSelections (a ++ b) ↔ NamedSelections a ∧ NamedSelections b := by
  simp only [namedSelections_iff, List.forall_mem_append]

/-- An operation whose names are GraphQL names. -/
structure Operation.Named (o : Operation) : Prop where
  name : ∀ name ∈ o.name, Name.isValid name
  selections : NamedSelections o.selections

/-- A definition that is such an operation if it is an operation. -/
def Definition.Named (d : Definition) : Prop := ∀ o ∈ d.operation?, o.Named

/-- A document whose operations are so. -/
def Document.Named (d : Document) : Prop := ∀ o ∈ d.operations, o.Named

end GraphTrace
