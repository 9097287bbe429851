import GraphTrace.Naming.Walk

/-!
# The ways down from a selection set

Every effective selection of a set is a way down, with a walk of its own (`through`).  The walk from
a set follows the way down if there is one, and otherwise goes nowhere (`walk_eq_only`): whether a
set without a single way is empty, branches or holds reserved fields makes no difference.

So a walk is known from the list of ways, and that list is put together selection by selection
(`ways_cons`, `ways_append`).
-/

namespace GraphTrace

theorem effectiveSelections_append (a b : List Selection) :
    effectiveSelections (a ++ b) = effectiveSelections a ++ effectiveSelections b := by
  induction a with
  | nil => rfl
  | cons s rest ih => rw [List.cons_append, effectiveSelections, ih, effectiveSelections,
      List.append_assoc]

namespace Naming

/-! ### Ways -/

/-- The walk through a selection, where it is the way down. -/
def through (reserved : Reserved) (declared : String → Bool) : Selection → Walk
  | .field _ name _ _ below =>
    if reserved.contains name then .here
    else (walk reserved declared below).after (.field name)
  | .spread name _ => if declared name then ⟨[.fragment name], none⟩ else ⟨[], some name⟩
  | .inline (some type) _ below => (walk reserved declared below).after (.condition type)
  | .inline none _ below => walk reserved declared below

/-- The walks through the effective selections of a set, in order. -/
def ways (reserved : Reserved) (declared : String → Bool) (selections : List Selection) :
    List Walk :=
  (effectiveSelections selections).map (through reserved declared)

/-- The only one of several walks; where there is no such one, the walk that goes nowhere. -/
def only : List Walk → Walk
  | [w] => w
  | _   => .here

/-- The order of the ways does not matter for the only one. -/
theorem only_perm {ws ws' : List Walk} (h : ws.Perm ws') : only ws = only ws' := by
  cases ws with
  | nil => rw [h.nil_eq]
  | cons w rest =>
      cases rest with
      | nil => rw [h.singleton_eq]
      | cons w' rest =>
          have hlen := h.length_eq
          match ws', hlen with
          | _ :: _ :: _, _ => rfl

section

variable (reserved : Reserved) (declared : String → Bool)

/-- A set that is not single has no way down or several of them. -/
theorem only_ways_of_ne_single {selections : List Selection}
    (h : ∀ s, shape reserved selections ≠ .single s) :
    only (ways reserved declared selections) = .here := by
  unfold ways
  cases e : effectiveSelections selections with
  | nil => rfl
  | cons s rest =>
      cases rest with
      | nil => exact absurd (by rw [shape, e]) (h s)
      | cons s' rest => rfl

/-- **A walk follows the only way down**, if there is one. -/
theorem walk_eq_only (selections : List Selection) :
    walk reserved declared selections = only (ways reserved declared selections) := by
  have single : ∀ {s : Selection}, shape reserved selections = .single s →
      only (ways reserved declared selections) = through reserved declared s := fun h => by
    rw [ways, effectiveSelections_of_single h]
    rfl
  -- The walk asks for the shape of the set: empty, branching, or single in four ways.
  rw [walk]
  split
  case h_1 h => exact (only_ways_of_ne_single reserved declared (by simp [h])).symm
  case h_2 h => exact (only_ways_of_ne_single reserved declared (by simp [h])).symm
  case h_3 h => exact (single h).symm
  case h_4 h => exact (single h).symm
  case h_5 h => exact (single h).symm
  case h_6 h => exact (single h).symm

/-- Each selection has its own ways. -/
theorem ways_append (a b : List Selection) :
    ways reserved declared (a ++ b) = ways reserved declared a ++ ways reserved declared b := by
  rw [ways, effectiveSelections_append, List.map_append, ways, ways]

theorem ways_cons (s : Selection) (rest : List Selection) :
    ways reserved declared (s :: rest)
      = ways reserved declared [s] ++ ways reserved declared rest :=
  ways_append reserved declared [s] rest

/-- A field is one way on, unless it is a type name or reserved. -/
theorem ways_field (alias? : Option String) (name : String) (arguments : List Argument)
    (directives : List Directive) (below : List Selection) :
    ways reserved declared [.field alias? name arguments directives below]
      = if name = typenameField then []
        else if reserved.contains name then [.here]
        else [(walk reserved declared below).after (.field name)] := by
  by_cases h : name = typenameField
  · simp [ways, effectiveSelections, Selection.effective, h]
  · by_cases hr : reserved.contains name
    · simp [ways, effectiveSelections, Selection.effective, h, through, hr]
    · simp [ways, effectiveSelections, Selection.effective, h, through, hr]

/-- An untyped inline fragment stands for what is in it. -/
theorem ways_inline_none (directives : List Directive) (selections : List Selection) :
    ways reserved declared [.inline none directives selections]
      = ways reserved declared selections := by
  simp [ways, effectiveSelections, Selection.effective]

/-- A type condition is one way on. -/
theorem ways_inline_some (type : String) (directives : List Directive)
    (below : List Selection) : ways reserved declared [.inline (some type) directives below]
      = [(walk reserved declared below).after (.condition type)] := by
  simp [ways, effectiveSelections, Selection.effective, through]

theorem ways_eq_flatMap (selections : List Selection) :
    ways reserved declared selections = selections.flatMap fun s => ways reserved declared [s] := by
  induction selections with
  | nil => rfl
  | cons s rest ih => rw [ways_cons, ih, List.flatMap_cons]

/-- The ways down from a permuted set are permuted. -/
theorem ways_perm {a b : List Selection} (h : a.Perm b) :
    (ways reserved declared a).Perm (ways reserved declared b) := by
  rw [ways_eq_flatMap, ways_eq_flatMap reserved declared b]
  exact h.flatMap_right _

/-- Where the ways through a part of a set are permuted, those through the set are. -/
theorem ways_perm_within {before after a b : List Selection}
    (h : (ways reserved declared a).Perm (ways reserved declared b)) :
    (ways reserved declared (before ++ (a ++ after))).Perm
      (ways reserved declared (before ++ (b ++ after))) := by
  rw [ways_append, ways_append, ways_append, ways_append]
  exact (h.append_right _).append_left _

end

end Naming

end GraphTrace
