import GraphTrace.Naming.Reserved

/-!
# The shape of a selection set

What a set of selections says about the name of its operation.  Its *effective* selections are
those left when every untyped inline fragment is replaced by its contents, at any depth, and every
`__typename` field is dropped.  A set with one effective selection has one way down; a set with
several branches, unless they are all reserved fields, which count as nothing at all.

An effective selection is smaller than the set it comes from (`sizeOf_lt_of_mem_effective`), so a
walk down the single selections ends.
-/

namespace GraphTrace

/-- The field every object type carries. It never counts as a branch. -/
def typenameField : String := "__typename"

mutual

/-- What a selection counts for. -/
def Selection.effective : Selection → List Selection
  | .inline none _ selections => effectiveSelections selections
  | .field alias? name arguments directives selections =>
    if name == typenameField then [] else [.field alias? name arguments directives selections]
  | selection => [selection]

/-- The effective selections of a set, in order. -/
def effectiveSelections : List Selection → List Selection
  | []        => []
  | s :: rest => s.effective ++ effectiveSelections rest

end

mutual

/-- What counts of a selection is no larger than the selection. -/
theorem Selection.sizeOf_le_of_mem_effective {s : Selection} :
    ∀ t : Selection, s ∈ t.effective → sizeOf s ≤ sizeOf t
  | .inline none _ selections, h => by
      have := sizeOf_lt_of_mem_effective selections (by simpa [Selection.effective] using h)
      simp; omega
  | .inline (some _) _ _, h | .spread _ _, h => by
      simp [Selection.effective] at h; simp [h]
  | .field _ name _ _ _, h => by
      unfold Selection.effective at h
      split at h
      · contradiction
      · simp at h; simp [h]

/-- An effective selection is smaller than its set. -/
theorem sizeOf_lt_of_mem_effective {s : Selection} :
    ∀ selections : List Selection, s ∈ effectiveSelections selections →
      sizeOf s < sizeOf selections
  | [], h => by simp [effectiveSelections] at h
  | t :: rest, h => by
      simp only [effectiveSelections, List.mem_append] at h
      rcases h with h | h
      · have := Selection.sizeOf_le_of_mem_effective t h; simp; omega
      · have := sizeOf_lt_of_mem_effective rest h; simp; omega

end

namespace Naming

/-- How a selection set constrains the name of its operation. -/
inductive Shape where
  /-- Nothing that can deepen the path. -/
  | empty
  /-- One effective selection, reserved or not. -/
  | single (selection : Selection)
  /-- Several effective selections, not all of them reserved fields. -/
  | branching

/-- The shape of a selection set. -/
def shape (reserved : Reserved) (selections : List Selection) : Shape :=
  match effectiveSelections selections with
  | []      => .empty
  | [s]     => .single s
  | several => if several.all reserved.covers then .empty else .branching

theorem effectiveSelections_of_single {reserved : Reserved} {selections : List Selection}
    {s : Selection} (h : shape reserved selections = .single s) :
    effectiveSelections selections = [s] := by
  unfold shape at h
  split at h
  · contradiction
  · simp_all
  · split at h <;> contradiction

/-- That selection is smaller than the set, so a walk ends. -/
theorem sizeOf_lt_of_single {reserved : Reserved} {selections : List Selection} {s : Selection}
    (h : shape reserved selections = .single s) : sizeOf s < sizeOf selections :=
  sizeOf_lt_of_mem_effective selections (by simp [effectiveSelections_of_single h])

end Naming

end GraphTrace
