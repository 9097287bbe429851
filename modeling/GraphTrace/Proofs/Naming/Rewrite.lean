import GraphTrace.Naming.Identifier
import GraphTrace.Proofs.Naming.Ways
import Mathlib.Logic.Relation

/-!
# Rewrites that keep the name

A name depends on the shape of an operation only.  `Rewrite` lists what may be changed in a
selection set, at any depth: the alias, the arguments and the directives of a field, `__typename`
fields, untyped inline fragments around a run of selections, and the order of the selections of a
set.

One rewrite permutes the ways down from the set and changes nothing else about them
(`Rewrite.ways_perm`).  So sets that are any number of rewrites apart, in either direction, have the
same walk, and operations with such sets have the same identifier (`identifier_eq_of_rewrites`).
-/

namespace GraphTrace.Naming

/-- One change that does not matter for the name. -/
inductive Rewrite : List Selection → List Selection → Prop where
  /-- Another alias, other arguments, other directives. -/
  | relabel (before after : List Selection) {alias? alias?' : Option String} {name : String}
      {arguments arguments' : List Argument} {directives directives' : List Directive}
      {below : List Selection} :
      Rewrite (before ++ .field alias? name arguments directives below :: after)
        (before ++ .field alias?' name arguments' directives' below :: after)
  /-- A `__typename` field more. -/
  | typename (before after : List Selection) {alias? : Option String} {arguments : List Argument}
      {directives : List Directive} {below : List Selection} :
      Rewrite (before ++ after)
        (before ++ .field alias? typenameField arguments directives below :: after)
  /-- An untyped inline fragment around a run of selections. -/
  | wrap (before wrapped after : List Selection) {directives : List Directive} :
      Rewrite (before ++ wrapped ++ after) (before ++ .inline none directives wrapped :: after)
  | permute {selections selections' : List Selection} (h : selections.Perm selections') :
      Rewrite selections selections'
  /-- A rewrite below a field. -/
  | field (before after : List Selection) {alias? : Option String} {name : String}
      {arguments : List Argument} {directives : List Directive} {below below' : List Selection}
      (h : Rewrite below below') :
      Rewrite (before ++ .field alias? name arguments directives below :: after)
        (before ++ .field alias? name arguments directives below' :: after)
  /-- A rewrite in an inline fragment. -/
  | inline (before after : List Selection) {condition : Option String}
      {directives : List Directive} {below below' : List Selection} (h : Rewrite below below') :
      Rewrite (before ++ .inline condition directives below :: after)
        (before ++ .inline condition directives below' :: after)

section

variable (reserved : Reserved) (declared : String → Bool)

/-- Sets with permuted ways have the same walk. -/
theorem walk_eq_of_perm {a b : List Selection}
    (h : (ways reserved declared a).Perm (ways reserved declared b)) :
    walk reserved declared a = walk reserved declared b := by
  rw [walk_eq_only, walk_eq_only, only_perm h]

/-- **A rewrite permutes the ways down.** -/
theorem Rewrite.ways_perm {a b : List Selection} (h : Rewrite a b) :
    (ways reserved declared a).Perm (ways reserved declared b) := by
  -- All but `permute` change one place of a set; `field` and `inline` go down to the walk below.
  induction h with
  | relabel =>
      refine ways_perm_within reserved declared (a := [_]) (b := [_]) ?_
      rw [ways_field, ways_field]
  | typename =>
      refine ways_perm_within reserved declared (a := []) (b := [_]) ?_
      rw [ways_field, if_pos rfl]
      exact .nil
  | wrap =>
      rw [List.append_assoc]
      refine ways_perm_within reserved declared (b := [_]) ?_
      rw [ways_inline_none]
  | permute h => exact Naming.ways_perm reserved declared h
  | field _ _ _ ih =>
      refine ways_perm_within reserved declared (a := [_]) (b := [_]) ?_
      rw [ways_field, ways_field, walk_eq_of_perm reserved declared ih]
  | @inline _ _ condition _ _ _ _ ih =>
      refine ways_perm_within reserved declared (a := [_]) (b := [_]) ?_
      cases condition with
      | none => rwa [ways_inline_none, ways_inline_none]
      | some type =>
          rw [ways_inline_some, ways_inline_some, walk_eq_of_perm reserved declared ih]

/-- Sets that are any number of rewrites apart, in either direction, have the same walk. -/
theorem walk_eq_of_rewrites {a b : List Selection} (h : Relation.EqvGen Rewrite a b) :
    walk reserved declared a = walk reserved declared b := by
  induction h with
  | rel a b h => exact walk_eq_of_perm reserved declared (h.ways_perm reserved declared)
  | refl a => rfl
  | symm a b _ ih => exact ih.symm
  | trans a b c _ _ ih ih' => exact ih.trans ih'

end

/-- **The name depends only on the shape.**  Selection sets that are any number of rewrites apart
have the same walk, with the same text; operations that differ in such sets alone have the same
identifier, in documents that declare fragments of the same names. -/
theorem identifier_eq_of_rewrites {a b : List Selection} (h : Relation.EqvGen Rewrite a b) :
    (∀ reserved declared, walk reserved declared a = walk reserved declared b) ∧
      ∀ (reserved : Reserved) (d d' : Document) (o : Operation),
        (∀ name, d.declares name = d'.declares name) →
        d.identifier reserved { o with selections := a }
          = d'.identifier reserved { o with selections := b } := by
  refine ⟨fun reserved declared => walk_eq_of_rewrites reserved declared h,
    fun reserved d d' o hd => ?_⟩
  rw [Document.identifier, Document.identifier, Document.walkOf, Document.walkOf, funext hd,
    walk_eq_of_rewrites reserved _ h]

/-- `{ ... { library { books { title } } } }` -/
def plainLibrary : List Selection :=
  [.inline none [] [.field none "library" [] [] [.field none "books" [] []
    [.field none "title" [] [] []]]]]

/-- `{ lib: library(first: 1) { books { ... @skip { } title { t: __typename } } } __typename }` -/
def decoratedLibrary : List Selection :=
  [.field (some "lib") "library" [⟨"first", some (.number "1")⟩] [] [.field none "books" [] []
      [.inline none [⟨"skip", []⟩] [], .field none "title" [] []
        [.field (some "t") "__typename" [] [] []]]],
    .field none "__typename" [] [] []]

theorem rewrites_library : Relation.EqvGen Rewrite plainLibrary decoratedLibrary := by
  have unwrap : Relation.EqvGen Rewrite plainLibrary _ := .symm _ _ (.rel _ _ (.wrap [] [_] []))
  refine unwrap.trans _ _ _ <| .trans _ _ _ (.rel _ _ (.relabel [] [])) <|
    .trans _ _ _ (.rel _ _ (.field [] [] (.field [] [] (.wrap [] [] _)))) <|
    .trans _ _ _ (.rel _ _ (.field [] [] (.field [] [] (.field [_] [] (.typename [] []))))) <|
    .trans _ _ _ (.rel _ _ (.typename [] _)) (.rel _ _ (.permute (.swap _ _ [])))

/-- A document with one operation and one fragment. -/
def libraryDocument (selections : List Selection) : Document :=
  ⟨[.operation ⟨.query, none, selections⟩, .fragment ⟨"Title", "Book", []⟩]⟩

/-- A query and its decorated form, which have the same walk and the same identifier. -/
theorem identifier_eq_library :
    Relation.EqvGen Rewrite plainLibrary decoratedLibrary ∧
      (∀ reserved declared,
        walk reserved declared plainLibrary = walk reserved declared decoratedLibrary) ∧
      (∀ name, (libraryDocument plainLibrary).declares name
        = (libraryDocument decoratedLibrary).declares name) ∧
      (libraryDocument plainLibrary).identifier .standard ⟨.query, none, plainLibrary⟩
        = (libraryDocument decoratedLibrary).identifier .standard
            ⟨.query, none, decoratedLibrary⟩ :=
  ⟨rewrites_library, (identifier_eq_of_rewrites rewrites_library).1, fun _ => rfl,
    (identifier_eq_of_rewrites rewrites_library).2 .standard (libraryDocument plainLibrary)
      (libraryDocument decoratedLibrary) ⟨.query, none, []⟩ fun _ => rfl⟩

end GraphTrace.Naming
