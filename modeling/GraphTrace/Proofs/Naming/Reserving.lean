import Mathlib.Data.List.TakeWhile
import GraphTrace.Config.Basic
import GraphTrace.Proofs.Naming.Chain

/-!
# Reserving more names

Reserved names act in two places: a reserved field that is the only way down ends the walk, and
several reserved fields together count as nothing.  The second makes no difference to a walk, which
goes no further from several selections in any case.  So what more reserved names do is only to end
a walk sooner.

* `walk_eq_cut`: a walk with more reserved names is the walk cut before the first field that is
  reserved then, and the same walk where there is none.
* `segments_cut`, `continues_cut`: the cut falls between two segments of the path.
* `notMem_of_field_mem_walk`: no field of a walk is reserved.
* `nameOperation_eq_of_same`: only the members of a reserved set count, not how it was written.
-/

namespace GraphTrace.Naming

/-- Whether all names of one set are in another. -/
def Reserved.Within (reserved more : Reserved) : Prop :=
  ∀ name ∈ reserved.names, name ∈ more.names

/-- Whether a step is a field of a reserved name. -/
def Step.isReserved (reserved : Reserved) : Step → Bool
  | .field name                => reserved.contains name
  | .fragment _ | .condition _ => false

/-- The steps before the first field of a reserved name. -/
def cutSteps (reserved : Reserved) (steps : List Step) : List Step :=
  steps.takeWhile (! ·.isReserved reserved)

/-- A walk that ends before the first field of a reserved name. -/
def Walk.cut (reserved : Reserved) (w : Walk) : Walk :=
  if w.steps.any (·.isReserved reserved) then ⟨cutSteps reserved w.steps, none⟩ else w

/-- Whether a text goes on behind a path with whole segments, if it goes on at all. -/
def Continues (text path : String) : Prop :=
  text = path ∨ path = "" ∨ ∃ more, text = path ++ "." ++ more

/-! ### Cutting a walk -/

section

variable {reserved more : Reserved} {declared : String → Bool}

theorem Step.isReserved_field {name : String} :
    (field name).isReserved reserved = true ↔ name ∈ reserved.names := contains_iff

theorem Walk.steps_cut (w : Walk) : (w.cut reserved).steps = cutSteps reserved w.steps := by
  unfold cut
  split
  · rfl
  case isFalse h =>
    refine (List.takeWhile_eq_self_iff.mpr fun step hs => ?_).symm
    rw [Bool.not_eq_true, List.any_eq_false] at h
    simpa using h step hs

/-- A walk that starts with a reserved step is cut to nothing. -/
theorem Walk.cut_after (w : Walk) (step : Step) :
    (w.after step).cut reserved
      = if step.isReserved reserved then .here else (w.cut reserved).after step := by
  by_cases h : step.isReserved reserved
  · simp [cut, cutSteps, after, here, h]
  · cases hw : w.steps.any (·.isReserved reserved) with
    | true => simp [cut, cutSteps, after, h, hw]
    | false => simp [cut, after, h, hw]

/-- **More reserved names cut the walk** and change nothing else about it. -/
theorem walk_eq_cut (h : reserved.Within more) (selections : List Selection) :
    walk more declared selections = (walk reserved declared selections).cut more := by
  induction selections using effective_induction with
  | stop he hn =>
      rw [walk_of_length_ne_one he hn, walk_of_length_ne_one he hn]
      rfl
  | @field _ _ name _ _ _ he ih =>
      by_cases hr : name ∈ reserved.names
      · rw [walk_of_reserved he hr, walk_of_reserved he (h name hr)]
        rfl
      by_cases hm : name ∈ more.names
      · rw [walk_of_field he hr, walk_of_reserved he hm, Walk.cut_after,
          if_pos (Step.isReserved_field.mpr hm)]
      · rw [walk_of_field he hr, walk_of_field he hm, Walk.cut_after,
          if_neg fun e => hm (Step.isReserved_field.mp e), ih]
  | spread he =>
      rw [walk_of_effective he, walk_of_effective he, through, through]
      split <;> rfl
  | condition he ih =>
      rw [walk_of_condition he, walk_of_condition he, Walk.cut_after, ih]
      rfl

/-- No field of a walk is reserved. -/
theorem notMem_of_field_mem_walk {selections : List Selection} {name : String}
    (h : .field name ∈ (walk reserved declared selections).steps) : name ∉ reserved.names := by
  -- Cutting the walk once more leaves it as it is.
  have hcut : (walk reserved declared selections).steps
      = cutSteps reserved (walk reserved declared selections).steps := by
    rw [← Walk.steps_cut, ← walk_eq_cut fun _ hn => hn]
  have hno := List.takeWhile_eq_self_iff.mp hcut.symm _ h
  intro hmem
  simp [Step.isReserved_field.mpr hmem] at hno

/-! ### Segments and texts -/

/-- A cut leaves the steps, or ends before a field. -/
theorem cutSteps_eq_self_or (reserved : Reserved) (steps : List Step) :
    cutSteps reserved steps = steps ∨
      ∃ name rest, steps = cutSteps reserved steps ++ .field name :: rest := by
  induction steps with
  | nil => exact .inl rfl
  | cons step rest ih =>
      rw [cutSteps, List.takeWhile_cons]
      cases h : step.isReserved reserved with
      | true =>
          cases step with
          | field name => exact .inr ⟨name, rest, rfl⟩
          | fragment | condition => contradiction
      | false =>
          rcases ih with e | ⟨name, later, e⟩
          · exact .inl (congrArg (step :: ·) e)
          · exact .inr ⟨name, later, congrArg (step :: ·) e⟩

/-- A field starts a new segment. -/
theorem segmentsFrom_append_field (segment : String) (before : List Step) (name : String)
    (rest : List Step) : segmentsFrom segment (before ++ .field name :: rest)
      = segmentsFrom segment before ++ segmentsFrom name rest := by
  induction before generalizing segment with
  | nil => rfl
  | cons step before ih =>
      cases step with
      | field own | fragment own => exact congrArg (segment :: ·) (ih own)
      | condition type => exact ih _

/-- **The segments of a cut walk** are the first segments of the walk. -/
theorem segments_cut (reserved : Reserved) (steps : List Step) :
    segments (cutSteps reserved steps) <+: segments steps := by
  rcases cutSteps_eq_self_or reserved steps with e | ⟨name, rest, e⟩
  · exact ⟨[], by rw [e, List.append_nil]⟩
  · conv_rhs => rw [e]
    cases cutSteps reserved steps with
    | nil => exact List.nil_prefix
    | cons step before =>
        cases step with
        | field own | fragment own | condition own =>
            exact ⟨_, (segmentsFrom_append_field _ before name rest).symm⟩

/-- **The text of a cut walk** ends where a segment of the path ends. -/
theorem continues_cut (reserved : Reserved) (steps : List Step) :
    Continues (pathText steps) (pathText (cutSteps reserved steps)) := by
  rcases cutSteps_eq_self_or reserved steps with e | ⟨name, rest, e⟩
  · exact .inl (by rw [e])
  · by_cases hp : pathText (cutSteps reserved steps) = ""
    · exact .inr (.inl hp)
    · refine .inr (.inr ⟨".".intercalate (segmentsFrom name rest), ?_⟩)
      conv_lhs =>
        rw [e, pathText, List.foldl_append, ← pathText, List.foldl_cons, Step.extend,
          join_of_ne_empty hp]
      exact foldl_extend _ name rest (by simp)

end

/-! ### The same names reserved -/

/-- A walk that no reserved field is on is not cut. -/
theorem Walk.cut_eq_self {reserved : Reserved} {w : Walk}
    (h : ∀ name, .field name ∈ w.steps → name ∉ reserved.names) : w.cut reserved = w := by
  refine if_neg ?_
  rw [List.any_eq_true]
  rintro ⟨step, hs, hr⟩
  cases step with
  | field name => exact h name hs (Step.isReserved_field.mp hr)
  | fragment | condition => contradiction

/-- Reserving the same names gives the same walk. -/
theorem walk_eq_of_within {reserved reserved' : Reserved} (h : reserved.Within reserved')
    (h' : reserved'.Within reserved) (declared : String → Bool) (selections : List Selection) :
    walk reserved declared selections = walk reserved' declared selections := by
  rw [walk_eq_cut h, Walk.cut_eq_self]
  exact fun name hs hmem => notMem_of_field_mem_walk hs (h' name hmem)

theorem within_withNames {names names' : List String} (h : ∀ name ∈ names, name ∈ names') :
    (Reserved.withNames names).Within (.withNames names') :=
  fun name hn => (List.mem_append.mp hn).elim (List.mem_append_left _)
    fun hn => List.mem_append_right _ (h name hn)

/-- Configurations that list the same reserved fields name every operation alike. -/
theorem nameOperation_eq_of_same {c c' : Config}
    (h : ∀ name, name ∈ c.reservedFields ↔ name ∈ c'.reservedFields) (d : Document)
    (o : Operation) : d.nameOperation c.reserved o = d.nameOperation c'.reserved o := by
  have hwalk : d.walkOf c.reserved o = d.walkOf c'.reserved o :=
    walk_eq_of_within (within_withNames fun name => (h name).mp)
      (within_withNames fun name => (h name).mpr) d.declares o.selections
  rw [Document.nameOperation, Document.nameOperation, Document.identifier, Document.identifier,
    hwalk]

/-! ### All together -/

/-- **Reserving more names only shortens paths.**  A walk with more reserved names is the walk cut
before its first field that is then reserved; the path ends where a segment ends.  No field of a
walk is reserved.  How the reserved names are listed makes no difference to any name. -/
theorem reserving_shortens :
    (∀ reserved more : Reserved, reserved.Within more →
      ∀ (d : Document) (selections : List Selection),
        walk more d.declares selections = (walk reserved d.declares selections).cut more ∧
          segments (walk more d.declares selections).steps
            <+: segments (walk reserved d.declares selections).steps ∧
          Continues (walk reserved d.declares selections).text
            (walk more d.declares selections).text) ∧
      (∀ (reserved : Reserved) (d : Document) (selections : List Selection) (name : String),
        .field name ∈ (walk reserved d.declares selections).steps → name ∉ reserved.names) ∧
      ∀ c c' : Config, (∀ name, name ∈ c.reservedFields ↔ name ∈ c'.reservedFields) →
        ∀ (d : Document) (o : Operation),
          d.nameOperation c.reserved o = d.nameOperation c'.reserved o := by
  refine ⟨fun reserved more h d selections => ?_, fun _ _ _ _ => notMem_of_field_mem_walk,
    fun _ _ => nameOperation_eq_of_same⟩
  have hcut : walk more d.declares selections = (walk reserved d.declares selections).cut more :=
    walk_eq_cut h selections
  have hsteps : (walk more d.declares selections).steps
      = cutSteps more (walk reserved d.declares selections).steps := by
    rw [hcut, Walk.steps_cut]
  refine ⟨hcut, ?_, ?_⟩
  · rw [hsteps]
    exact segments_cut _ _
  · rw [Walk.text, Walk.text, hsteps]
    exact continues_cut _ _

/-- Reserving one field more ends the search before it. -/
theorem reserving_shortens_search :
    Reserved.standard.Within (.withNames ["author"]) ∧
      (walk .standard cyclicFragments.declares searchSelections).text
        = "search<Book>.author.Name" ∧
      (walk (.withNames ["author"]) cyclicFragments.declares searchSelections).text
        = "search<Book>" ∧
      Continues "search<Book>.author.Name" "search<Book>" ∧
      "author" ∉ Reserved.standard.names ∧
      cyclicFragments.nameOperation (Config.reserved ⟨false, ["author", "id", "author"]⟩)
          ⟨.query, none, searchSelections⟩
        = cyclicFragments.nameOperation (Config.reserved ⟨true, ["id", "author"]⟩)
          ⟨.query, none, searchSelections⟩ := by
  obtain ⟨hcut, hfield, hsame⟩ := reserving_shortens
  have hwithin : Reserved.standard.Within (.withNames ["author"]) :=
    fun _ hn => List.mem_append_left _ hn
  have hwalk : walk .standard cyclicFragments.declares searchSelections
      = ⟨[.field "search", .condition "Book", .field "author", .fragment "Name"], none⟩ := by
    decide +kernel
  obtain ⟨hmore, -, hcontinues⟩ := hcut _ _ hwithin cyclicFragments searchSelections
  have htext : (walk .standard cyclicFragments.declares searchSelections).text
      = "search<Book>.author.Name" := by rw [hwalk]; rfl
  have hshort : (walk (.withNames ["author"]) cyclicFragments.declares searchSelections).text
      = "search<Book>" := by rw [hmore, hwalk]; decide +kernel
  exact ⟨hwithin, htext, hshort, by rwa [htext, hshort] at hcontinues,
    hfield _ cyclicFragments searchSelections _ (by rw [hwalk]; simp),
    hsame _ _ (by simp) _ _⟩

end GraphTrace.Naming
