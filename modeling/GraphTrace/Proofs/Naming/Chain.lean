import GraphTrace.Naming.Identifier
import GraphTrace.Proofs.Document.Named
import GraphTrace.Proofs.Naming.Ways
import GraphTrace.Proofs.Response.Text

/-!
# The deepest unique path, step by step

The path of an operation is specified here by two relations, which say nothing of how it is
computed.  `Effective` relates a selection set to what it counts for: untyped inline fragments are
replaced by their contents and `__typename` fields are dropped.  `Chain` goes down as long as there
is one effective selection, and counts the sets that it looks at.

The walk is that chain (`walk_follows_chain`): every set has a chain, only one, and its steps are
those of the walk.  It looks at no more sets than are nested in each other (`setNesting`), whatever
the fragments of the document spread, because it never looks into a fragment.

The text of the steps is put together from segments (`segments`).  A field or a fragment opens a
segment, a type condition belongs to the segment before it, and segments are joined by points
(`pathText_eq`).
-/

namespace GraphTrace

/-! ### Effective selections -/

/-- What a selection set counts for. -/
inductive Effective : List Selection → List Selection → Prop where
  | nil : Effective [] []
  | typename {alias? : Option String} {arguments : List Argument} {directives : List Directive}
      {below rest left : List Selection} (h : Effective rest left) :
      Effective (.field alias? typenameField arguments directives below :: rest) left
  | field {alias? : Option String} {name : String} {arguments : List Argument}
      {directives : List Directive} {below rest left : List Selection}
      (hn : name ≠ typenameField) (h : Effective rest left) :
      Effective (.field alias? name arguments directives below :: rest)
        (.field alias? name arguments directives below :: left)
  | spread {name : String} {directives : List Directive} {rest left : List Selection}
      (h : Effective rest left) :
      Effective (.spread name directives :: rest) (.spread name directives :: left)
  | typed {condition : String} {directives : List Directive} {below rest left : List Selection}
      (h : Effective rest left) :
      Effective (.inline (some condition) directives below :: rest)
        (.inline (some condition) directives below :: left)
  | untyped {directives : List Directive} {below inner rest left : List Selection}
      (hb : Effective below inner) (h : Effective rest left) :
      Effective (.inline none directives below :: rest) (inner ++ left)

mutual

/-- How deep sets are nested below a selection. A leaf has none. -/
def Selection.nesting : Selection → Nat
  | .field _ _ _ _ []           => 0
  | .field _ _ _ _ (s :: below) => setNesting (s :: below)
  | .spread _ _                 => 0
  | .inline _ _ below           => setNesting below

/-- How deep sets are nested in a set, which counts as one itself. -/
def setNesting : List Selection → Nat
  | []        => 1
  | s :: rest => max (s.nesting + 1) (setNesting rest)

end

/-- A selection set nests at least one level deep. -/
theorem setNesting_pos (selections : List Selection) : 0 < setNesting selections := by
  induction selections with
  | nil => exact Nat.one_pos
  | cons s rest ih => exact Nat.lt_of_lt_of_le ih (Nat.le_max_right _ _)

mutual

theorem Effective.cons {rest left : List Selection} (h : Effective rest left) :
    ∀ s : Selection, Effective (s :: rest) (s.effective ++ left)
  | .field alias? name arguments directives below => by
      rw [Selection.effective]
      split
      case isTrue e =>
        rw [beq_iff_eq.mp e]
        exact .typename h
      case isFalse e => exact .field (fun hn => e (beq_iff_eq.mpr hn)) h
  | .spread _ _ => .spread h
  | .inline (some _) _ _ => .typed h
  | .inline none _ below => by
      rw [Selection.effective]
      exact .untyped (effective_effectiveSelections below) h

/-- What flattening computes is what counts. -/
theorem effective_effectiveSelections :
    ∀ selections : List Selection, Effective selections (effectiveSelections selections)
  | []        => .nil
  | s :: rest => (effective_effectiveSelections rest).cons s

end

namespace Effective

variable {selections left : List Selection}

theorem eq (h : Effective selections left) : effectiveSelections selections = left := by
  induction h with
  | nil => rfl
  | typename _ ih => simp [effectiveSelections, Selection.effective, ih]
  | field hn _ ih => simp [effectiveSelections, Selection.effective, hn, ih]
  | spread _ ih => simp [effectiveSelections, Selection.effective, ih]
  | typed _ ih => simp [effectiveSelections, Selection.effective, ih]
  | untyped _ _ ihb ih => simp [effectiveSelections, Selection.effective, ihb, ih]

/-- No untyped inline fragment is left. -/
theorem ne_untyped (h : Effective selections left) {s : Selection} (hs : s ∈ left)
    (directives : List Directive) (below : List Selection) :
    s ≠ .inline none directives below := by
  rintro rfl
  induction h with
  | nil => simp at hs
  | typename _ ih => exact ih hs
  | field _ _ ih => exact ih (by simpa using hs)
  | spread _ ih => exact ih (by simpa using hs)
  | typed _ ih => exact ih (by simpa using hs)
  | untyped _ _ ihb ih => exact (List.mem_append.mp hs).elim ihb ih

/-- What is left is nested less deep than the set. -/
theorem nesting_lt (h : Effective selections left) {s : Selection} (hs : s ∈ left) :
    s.nesting < setNesting selections := by
  induction h with
  | nil => simp at hs
  | typename _ ih => exact Nat.lt_of_lt_of_le (ih hs) (Nat.le_max_right _ _)
  | field _ _ ih | spread _ ih | typed _ ih =>
      rcases List.mem_cons.mp hs with rfl | hs
      · exact Nat.lt_of_lt_of_le (Nat.lt_succ_self _) (Nat.le_max_left _ _)
      · exact Nat.lt_of_lt_of_le (ih hs) (Nat.le_max_right _ _)
  | untyped _ _ ihb ih =>
      rcases List.mem_append.mp hs with hs | hs
      · exact Nat.lt_of_lt_of_le (Nat.lt_succ_of_lt (ihb hs)) (Nat.le_max_left _ _)
      · exact Nat.lt_of_lt_of_le (ih hs) (Nat.le_max_right _ _)

theorem named (h : Effective selections left) (hn : NamedSelections selections) :
    NamedSelections left := by
  induction h with
  | nil => exact hn
  | typename _ ih => exact ih hn.2
  | field _ _ ih | spread _ ih | typed _ ih => exact ⟨hn.1, ih hn.2⟩
  | untyped _ _ ihb ih => exact namedSelections_append.mpr ⟨ihb hn.1, ih hn.2⟩

end Effective

/-- A document declares a fragment: one of its definitions is a fragment of this name. -/
def Document.Declares (d : Document) (name : String) : Prop :=
  ∃ f, .fragment f ∈ d.definitions ∧ f.name = name

/-- A name is declared just if a fragment has it. -/
theorem Document.declares_iff {d : Document} {name : String} :
    d.declares name = true ↔ d.Declares name := by
  simp only [declares, fragments, List.any_eq_true, List.mem_filterMap, beq_iff_eq]
  constructor
  · rintro ⟨f, ⟨definition, hm, hf⟩, hn⟩
    cases definition with
    | fragment g =>
        obtain rfl := Option.some.inj hf
        exact ⟨g, hm, hn⟩
    | operation | typeSystem => contradiction
  · rintro ⟨f, hm, hn⟩
    exact ⟨f, ⟨_, hm, rfl⟩, hn⟩

namespace Naming

/-! ### The chain -/

/-- The chain from a selection set: its steps, and how many sets it looks at. -/
inductive Chain (reserved : Reserved) (d : Document) : List Selection → List Step → Nat → Prop where
  /-- No effective selection, or several. -/
  | stop {selections left : List Selection} (h : Effective selections left)
      (hn : left.length ≠ 1) : Chain reserved d selections [] 1
  | reserved {selections : List Selection} {alias? : Option String} {name : String}
      {arguments : List Argument} {directives : List Directive} {below : List Selection}
      (h : Effective selections [.field alias? name arguments directives below])
      (hr : name ∈ reserved.names) : Chain reserved d selections [] 1
  | undeclared {selections : List Selection} {name : String} {directives : List Directive}
      (h : Effective selections [.spread name directives]) (hd : ¬ d.Declares name) :
      Chain reserved d selections [] 1
  | fragment {selections : List Selection} {name : String} {directives : List Directive}
      (h : Effective selections [.spread name directives]) (hd : d.Declares name) :
      Chain reserved d selections [.fragment name] 1
  /-- A field without a sub-selection. -/
  | leaf {selections : List Selection} {alias? : Option String} {name : String}
      {arguments : List Argument} {directives : List Directive}
      (h : Effective selections [.field alias? name arguments directives []])
      (hr : name ∉ reserved.names) : Chain reserved d selections [.field name] 1
  | field {selections : List Selection} {alias? : Option String} {name : String}
      {arguments : List Argument} {directives : List Directive} {below : List Selection}
      {steps : List Step} {looked : Nat}
      (h : Effective selections [.field alias? name arguments directives below])
      (hr : name ∉ reserved.names) (hb : below ≠ []) (c : Chain reserved d below steps looked) :
      Chain reserved d selections (.field name :: steps) (looked + 1)
  | condition {selections : List Selection} {type : String} {directives : List Directive}
      {below : List Selection} {steps : List Step} {looked : Nat}
      (h : Effective selections [.inline (some type) directives below])
      (c : Chain reserved d below steps looked) :
      Chain reserved d selections (.condition type :: steps) (looked + 1)

/-- A step that is called by a GraphQL name. -/
def Step.Named : Step → Prop
  | .field name | .fragment name | .condition name => Name.isValid name

section

variable {reserved : Reserved} {declared : String → Bool} {d : Document}
  {selections left : List Selection} {s : Selection} {steps : List Step} {looked : Nat}

/-- The walk from a set with one effective selection goes through it. -/
theorem walk_of_effective (h : Effective selections [s]) :
    walk reserved declared selections = through reserved declared s := by
  rw [walk_eq_only, ways, h.eq]
  rfl

/-- A walk stops where there is not exactly one way on. -/
theorem walk_of_length_ne_one (h : Effective selections left) (hn : left.length ≠ 1) :
    walk reserved declared selections = .here := by
  rw [walk_eq_only, ways, h.eq]
  cases left with
  | nil => rfl
  | cons s rest =>
      cases rest with
      | nil => exact absurd rfl hn
      | cons s' rest => rfl

theorem contains_iff {name : String} : reserved.contains name = true ↔ name ∈ reserved.names := by
  simp [Reserved.contains]

section

variable {alias? : Option String} {name type : String} {arguments : List Argument}
  {directives : List Directive} {below : List Selection}

/-- A walk stops before a reserved field. -/
theorem walk_of_reserved
    (h : Effective selections [.field alias? name arguments directives below])
    (hr : name ∈ reserved.names) : walk reserved declared selections = .here := by
  rw [walk_of_effective h, through, if_pos (contains_iff.mpr hr)]

/-- A walk goes on below any other field. -/
theorem walk_of_field
    (h : Effective selections [.field alias? name arguments directives below])
    (hr : name ∉ reserved.names) : walk reserved declared selections
      = (walk reserved declared below).after (.field name) := by
  rw [walk_of_effective h, through, if_neg fun e => hr (contains_iff.mp e)]

/-- A fragment that is not declared ends the walk and is reported. -/
theorem walk_of_undeclared (h : Effective selections [.spread name directives])
    (hd : ¬ d.Declares name) : walk reserved d.declares selections = ⟨[], some name⟩ := by
  rw [walk_of_effective h, through, if_neg fun e => hd (Document.declares_iff.mp e)]

/-- A declared fragment ends the walk with its name. -/
theorem walk_of_fragment (h : Effective selections [.spread name directives])
    (hd : d.Declares name) : walk reserved d.declares selections = ⟨[.fragment name], none⟩ := by
  rw [walk_of_effective h, through, if_pos (Document.declares_iff.mpr hd)]

/-- A walk goes on below a type condition. -/
theorem walk_of_condition (h : Effective selections [.inline (some type) directives below]) :
    walk reserved declared selections
      = (walk reserved declared below).after (.condition type) := by
  rw [walk_of_effective h, through]

end

namespace Chain

/-- The steps of a chain are those of the walk. -/
theorem steps_eq (c : Chain reserved d selections steps looked) :
    steps = (walk reserved d.declares selections).steps := by
  induction c with
  | stop h hn => rw [walk_of_length_ne_one h hn]; rfl
  | reserved h hr => rw [walk_of_reserved h hr]; rfl
  | undeclared h hd => rw [walk_of_undeclared h hd]
  | fragment h hd => rw [walk_of_fragment h hd]
  | leaf h hr => rw [walk_of_field h hr, walk_of_length_ne_one .nil (by simp)]; rfl
  | field h hr hb _ ih => rw [walk_of_field h hr, ih]; rfl
  | condition h _ ih => rw [walk_of_condition h, ih]; rfl

/-- A chain looks at no more sets than are nested. -/
theorem looked_le (c : Chain reserved d selections steps looked) :
    looked ≤ setNesting selections := by
  induction c with
  | stop | reserved | undeclared | fragment | leaf => exact setNesting_pos _
  | @field _ _ _ _ _ below _ _ h hr hb _ ih =>
      cases below with
      | nil => exact absurd rfl hb
      | cons s rest => exact Nat.lt_of_le_of_lt ih (h.nesting_lt (List.mem_singleton_self _))
  | condition h _ ih => exact Nat.lt_of_le_of_lt ih (h.nesting_lt (List.mem_singleton_self _))

/-- The steps of a chain have names of the set it starts from. -/
theorem named (c : Chain reserved d selections steps looked) (hn : NamedSelections selections) :
    ∀ step ∈ steps, step.Named := by
  induction c with
  | stop | reserved | undeclared => exact fun _ hs => nomatch hs
  | fragment h _ => exact List.forall_mem_singleton.mpr (h.named hn).1
  | leaf h _ => exact List.forall_mem_singleton.mpr (h.named hn).1.1
  | field h _ _ _ ih => exact List.forall_mem_cons.mpr ⟨(h.named hn).1.1, ih (h.named hn).1.2⟩
  | condition h _ ih => exact List.forall_mem_cons.mpr ⟨(h.named hn).1.1, ih (h.named hn).1.2⟩

end Chain

/-- **Induction down the only effective selections**: on sets with none or several of them, and from
the set below the only one to the set itself. -/
theorem effective_induction {motive : List Selection → Prop}
    (stop : ∀ {selections left : List Selection}, Effective selections left → left.length ≠ 1 →
      motive selections)
    (field : ∀ {selections : List Selection} {alias? : Option String} {name : String}
      {arguments : List Argument} {directives : List Directive} {below : List Selection},
      Effective selections [.field alias? name arguments directives below] → motive below →
      motive selections)
    (spread : ∀ {selections : List Selection} {name : String} {directives : List Directive},
      Effective selections [.spread name directives] → motive selections)
    (condition : ∀ {selections : List Selection} {type : String} {directives : List Directive}
      {below : List Selection}, Effective selections [.inline (some type) directives below] →
      motive below → motive selections)
    (selections : List Selection) : motive selections := by
  have h := effective_effectiveSelections selections
  by_cases hl : (effectiveSelections selections).length = 1
  case neg => exact stop h hl
  obtain ⟨s, hs⟩ := List.length_eq_one_iff.mp hl
  have hlt := sizeOf_lt_of_mem_effective selections (hs ▸ List.mem_singleton_self s)
  rw [hs] at h
  cases s with
  | field alias? name arguments directives below =>
      exact field h (effective_induction stop field spread condition below)
  | spread name directives => exact spread h
  | inline type? directives below =>
      cases type? with
      | none => exact absurd rfl (h.ne_untyped (List.mem_singleton_self _) directives below)
      | some type => exact condition h (effective_induction stop field spread condition below)
termination_by sizeOf selections
decreasing_by
  all_goals
    simp at hlt; omega

/-- **Every set has a chain** with the steps of the walk. -/
theorem exists_chain (reserved : Reserved) (d : Document) (selections : List Selection) :
    ∃ looked, Chain reserved d selections (walk reserved d.declares selections).steps looked := by
  induction selections using effective_induction with
  | stop h hn =>
      rw [walk_of_length_ne_one h hn]
      exact ⟨1, .stop h hn⟩
  | @field _ _ name _ _ below h ih =>
      by_cases hr : name ∈ reserved.names
      · rw [walk_of_reserved h hr]
        exact ⟨1, .reserved h hr⟩
      rw [walk_of_field h hr]
      cases below with
      | nil =>
          rw [walk_of_length_ne_one .nil (by simp)]
          exact ⟨1, .leaf h hr⟩
      | cons first rest =>
          obtain ⟨looked, c⟩ := ih
          exact ⟨looked + 1, .field h hr (List.cons_ne_nil _ _) c⟩
  | @spread _ name _ h =>
      by_cases hd : d.Declares name
      · rw [walk_of_fragment h hd]
        exact ⟨1, .fragment h hd⟩
      · rw [walk_of_undeclared h hd]
        exact ⟨1, .undeclared h hd⟩
  | condition h ih =>
      obtain ⟨looked, c⟩ := ih
      rw [walk_of_condition h]
      exact ⟨looked + 1, .condition h c⟩

/-- The names on a walk are names of the set it starts from. -/
theorem named_walk (hn : NamedSelections selections) :
    ∀ step ∈ (walk reserved d.declares selections).steps, step.Named := by
  obtain ⟨looked, c⟩ := exists_chain reserved d selections
  exact c.named hn

end

/-! ### Segments -/

/-- The segments of steps, where the first one is open already. -/
def segmentsFrom (segment : String) : List Step → List String
  | []                                         => [segment]
  | .field name :: rest | .fragment name :: rest => segment :: segmentsFrom name rest
  | .condition type :: rest                    => segmentsFrom (segment ++ "<" ++ type ++ ">") rest

/-- The segments of steps: one for each field and fragment, with the type conditions behind it.
Conditions with nothing before them make one of their own. -/
def segments : List Step → List String
  | []                                         => []
  | .field name :: rest | .fragment name :: rest => segmentsFrom name rest
  | .condition type :: rest                    => segmentsFrom ("<" ++ type ++ ">") rest

theorem segmentsFrom_ne_nil (segment : String) (steps : List Step) :
    segmentsFrom segment steps ≠ [] := by
  induction steps generalizing segment with
  | nil => simp [segmentsFrom]
  | cons step rest ih => cases step <;> simp [segmentsFrom, ih]

theorem join_of_ne_empty {path : String} (h : path ≠ "") (segment : String) :
    Step.join path segment = path ++ "." ++ segment := by
  rw [Step.join, if_neg (by simpa using h)]

/-- Steps behind a path that ends with an open segment. -/
theorem foldl_extend (before segment : String) (steps : List Step) (h : before ++ segment ≠ "") :
    steps.foldl Step.extend (before ++ segment)
      = before ++ ".".intercalate (segmentsFrom segment steps) := by
  induction steps generalizing before segment with
  | nil => simp [segmentsFrom]
  | cons step rest ih =>
      cases step with
      | field name | fragment name =>
          rw [List.foldl_cons, Step.extend, join_of_ne_empty h, ih _ _ (by simp), segmentsFrom,
            String.intercalate_cons_of_ne_nil (segmentsFrom_ne_nil name rest)]
          simp only [String.append_assoc]
      | condition type =>
          have hcondition : Step.extend (before ++ segment) (.condition type)
              = before ++ (segment ++ "<" ++ type ++ ">") := by
            simp only [Step.extend, String.append_assoc]
          rw [List.foldl_cons, hcondition, ih _ _ (by simp), segmentsFrom]

/-- **The text of a path** is its segments, joined by points. -/
theorem pathText_eq {steps : List Step} (hn : ∀ step ∈ steps, step.Named) :
    pathText steps = ".".intercalate (segments steps) := by
  -- The first step opens a segment that is not empty; the others follow it.
  cases steps with
  | nil => rfl
  | cons step rest =>
      have hstep := hn step List.mem_cons_self
      cases step with
      | field name | fragment name =>
          have h := foldl_extend "" name rest (by simpa using Name.ne_empty hstep)
          simpa [pathText, Step.extend, Step.join, segments] using h
      | condition type =>
          have h := foldl_extend "" ("<" ++ type ++ ">") rest (by simp)
          simpa [pathText, Step.extend, segments] using h

/-! ### The walk -/

/-- **The walk is the deepest unique path.**  Every set has one chain, whose steps are those of the
walk and which looks at no more sets than are nested, whatever the fragments of the document hold.
Where names are GraphQL names, the text of the walk is made of its segments. -/
theorem walk_follows_chain (reserved : Reserved) (d : Document) (selections : List Selection) :
    (∃ looked, Chain reserved d selections (walk reserved d.declares selections).steps looked) ∧
      (∀ steps looked, Chain reserved d selections steps looked →
        steps = (walk reserved d.declares selections).steps ∧ looked ≤ setNesting selections) ∧
      (NamedSelections selections → (walk reserved d.declares selections).text
        = ".".intercalate (segments (walk reserved d.declares selections).steps)) :=
  ⟨exists_chain reserved d selections, fun _ _ c => ⟨c.steps_eq, c.looked_le⟩,
    fun hn => pathText_eq (named_walk hn)⟩

/-- `{ search { __typename ... on Book { ... { author { ...Name } } } } }` -/
def searchSelections : List Selection :=
  [.field none "search" [] [] [.field none "__typename" [] [] [],
    .inline (some "Book") [] [.inline none [] [.field none "author" [] [] [.spread "Name" []]]]]]

/-- Two fragments that spread each other. -/
def cyclicFragments : Document :=
  ⟨[.fragment ⟨"Name", "Author", [.spread "Alias" []]⟩,
    .fragment ⟨"Alias", "Author", [.spread "Name" []]⟩]⟩

theorem chain_search : Chain .standard cyclicFragments searchSelections
    [.field "search", .condition "Book", .field "author", .fragment "Name"] 4 :=
  .field (.field (by decide) .nil) (by decide) (by decide) <|
    .condition (.typename (.typed .nil)) <|
    .field (.untyped (.field (by decide) .nil) .nil) (by decide) (by decide) <|
    .fragment (.spread .nil) ⟨_, List.mem_cons_self, rfl⟩

/-- The walk ends at the fragment in spite of its cycle. -/
theorem walk_search : NamedSelections searchSelections ∧
    (walk .standard cyclicFragments.declares searchSelections).text
      = "search<Book>.author.Name" := by
  have hn : NamedSelections searchSelections := by
    simp only [searchSelections, NamedSelections, Selection.Named]
    decide
  obtain ⟨-, huniq, htext⟩ := walk_follows_chain .standard cyclicFragments searchSelections
  refine ⟨hn, ?_⟩
  rw [htext hn, ← (huniq _ _ chain_search).1]
  rfl

end Naming

end GraphTrace
