import GraphTrace.Proofs.Naming.Chain

/-!
# The outline of a document

Of all its definitions a document lends two things to names: its operations, in order, and the
names that its fragments are declared under (`Document.SameOutline`).  A spread looks its fragment
up, but only to see that there is one (`isSome_fragment?_iff`).  So neither the order nor the number
of fragments matters, nor what they select, nor whether they spread each other or themselves, nor
what stands between the operations.

Where no two operations share a name, a name selects the same operation in every order of the
definitions (`select?_eq_of_perm`), and the set of fragment names does not depend on the order
either.
-/

namespace GraphTrace.Document

open Naming

/-! ### Fragments -/

/-- A fragment is found under the names that are declared, whichever definition it then is. -/
theorem isSome_fragment?_iff {d : Document} {name : String} :
    (d.fragment? name).isSome ↔ d.Declares name := by
  rw [← declares_iff, fragment?, List.find?_isSome, declares, List.any_eq_true]
  simp only [List.mem_reverse]

/-- A walk asks only whether a fragment is found. -/
theorem walkOf_eq (d : Document) (reserved : Reserved) (o : Operation) :
    d.walkOf reserved o = walk reserved (fun name => (d.fragment? name).isSome) o.selections := by
  have h : d.declares = fun name => (d.fragment? name).isSome := by
    funext name
    rw [Bool.eq_iff_iff, declares_iff, isSome_fragment?_iff]
  rw [walkOf, h]

/-- Documents that declare the same fragment names name every operation alike. -/
theorem nameOperation_eq_of_declares {d d' : Document}
    (h : ∀ name, d.Declares name ↔ d'.Declares name) (reserved : Reserved) (o : Operation) :
    d.nameOperation reserved o = d'.nameOperation reserved o := by
  have hfound : ∀ name, (d.fragment? name).isSome = (d'.fragment? name).isSome := by
    intro name
    rw [Bool.eq_iff_iff, isSome_fragment?_iff, isSome_fragment?_iff, h]
  have hwalk : d.walkOf reserved o = d'.walkOf reserved o := by
    rw [walkOf_eq, walkOf_eq, funext hfound]
  rw [nameOperation, nameOperation, identifier, identifier, hwalk]

/-! ### Operations -/

/-- Where no two operations share a name, the one of a name is found wherever it stands. -/
theorem find?_name_eq_some_iff {operations : List Operation}
    (hn : (operations.filterMap (·.name)).Nodup) {name : String} {o : Operation} :
    operations.find? (·.name == some name) = some o ↔ o ∈ operations ∧ o.name = some name := by
  constructor
  · intro h
    exact ⟨List.mem_of_find?_eq_some h, by simpa using List.find?_some h⟩
  rintro ⟨hmem, hname⟩
  induction operations with
  | nil => contradiction
  | cons first rest ih =>
      rw [List.find?_cons]
      by_cases hfirst : first.name = some name
      · -- Another operation of this name would be a second one.
        rw [List.filterMap_cons_some hfirst, List.nodup_cons] at hn
        rcases List.mem_cons.mp hmem with rfl | hmem
        · simp [hname]
        · exact absurd (List.mem_filterMap.mpr ⟨o, hmem, hname⟩) hn.1
      · have hrest : o ∈ rest := by
          rcases List.mem_cons.mp hmem with rfl | hmem
          · exact absurd hname hfirst
          · exact hmem
        have hn' : (rest.filterMap (·.name)).Nodup :=
          hn.sublist ((List.sublist_cons_self first rest).filterMap _)
        rw [beq_false_of_ne hfirst]
        exact ih hn' hrest

/-- Under distinct names the order of definitions does not matter for a name. -/
theorem select?_eq_of_perm {d d' : Document} (hn : (d.operations.filterMap (·.name)).Nodup)
    (h : d.definitions.Perm d'.definitions) (name : String) :
    d.select? (some name) = d'.select? (some name) := by
  have hoperations : d.operations.Perm d'.operations := h.filterMap _
  have hn' : (d'.operations.filterMap (·.name)).Nodup :=
    (hoperations.filterMap _).nodup_iff.mp hn
  refine Option.ext fun o => ?_
  rw [select?, select?, find?_name_eq_some_iff hn, find?_name_eq_some_iff hn', hoperations.mem_iff]

/-- It never matters for what is declared. -/
theorem declares_iff_of_perm {d d' : Document} (h : d.definitions.Perm d'.definitions)
    (name : String) : d.Declares name ↔ d'.Declares name := by
  simp only [Declares, h.mem_iff]

/-! ### Outlines -/

/-- Documents with the same operations, in order, and the same fragment names. -/
structure SameOutline (d d' : Document) : Prop where
  operations : d.operations = d'.operations
  declares : ∀ name, d.Declares name ↔ d'.Declares name

/-- **Fragments reach names only through their own names.**  Documents of one outline name every
operation alike, and the operation that a request selects.  Where no two operations share a name,
the operation of a name is named alike in every order of the definitions. -/
theorem named_by_outline (d d' : Document) (reserved : Reserved) :
    (d.SameOutline d' →
      (∀ o, d.nameOperation reserved o = d'.nameOperation reserved o) ∧
        ∀ wanted, d.nameSelected reserved wanted = d'.nameSelected reserved wanted) ∧
      ((d.operations.filterMap (·.name)).Nodup → d.definitions.Perm d'.definitions →
        ∀ name, d.nameSelected reserved (some name) = d'.nameSelected reserved (some name)) := by
  constructor
  · intro h
    have hname := nameOperation_eq_of_declares h.declares reserved
    refine ⟨hname, fun wanted => ?_⟩
    have hselect : d.select? wanted = d'.select? wanted := by
      cases wanted with
      | none => rw [select?, select?, h.operations]
      | some name => rw [select?, select?, h.operations]
    rw [nameSelected, nameSelected, hselect, funext hname]
  · intro hn h name
    have hname := nameOperation_eq_of_declares (declares_iff_of_perm h) reserved
    rw [nameSelected, nameSelected, select?_eq_of_perm hn h, funext hname]

/-- `query Shelves { library { ...Shelf } }` -/
def shelvesOperation : Operation :=
  ⟨.query, some "Shelves", [.field none "library" [] [] [.spread "Shelf" []]]⟩

/-- A document with a fragment behind the operations. -/
def shelvesDocument : Document :=
  ⟨[.operation shelvesOperation, .operation ⟨.mutation, none, []⟩,
    .fragment ⟨"Shelf", "Library", [.field none "books" [] [] []]⟩]⟩

/-- The same outline, with two fragments of one name that spread it, and a type. -/
def cyclicShelvesDocument : Document :=
  ⟨[.fragment ⟨"Shelf", "Book", [.spread "Shelf" []]⟩, .operation shelvesOperation, .typeSystem,
    .fragment ⟨"Shelf", "Shelf", [.spread "Shelf" []]⟩, .operation ⟨.mutation, none, []⟩]⟩

theorem sameOutline_shelves : shelvesDocument.SameOutline cyclicShelvesDocument := by
  refine ⟨rfl, fun name => ?_⟩
  simp only [Declares, shelvesDocument, cyclicShelvesDocument, List.mem_cons, List.not_mem_nil]
  simp

/-- Two documents with one outline, of which one has a cycle, name alike. -/
theorem named_by_outline_shelves :
    shelvesDocument.SameOutline cyclicShelvesDocument ∧
      cyclicShelvesDocument.nameSelected .standard none
        = some ⟨⟨"query/Shelves/library.Shelf"⟩, []⟩ ∧
      (cyclicShelvesDocument.operations.filterMap (·.name)).Nodup ∧
      (⟨cyclicShelvesDocument.definitions.reverse⟩ : Document).nameSelected .standard
          (some "Shelves")
        = some ⟨⟨"query/Shelves/library.Shelf"⟩, []⟩ := by
  have hn : (cyclicShelvesDocument.operations.filterMap (·.name)).Nodup := by decide
  have hfirst : shelvesDocument.nameSelected .standard none
      = some ⟨⟨"query/Shelves/library.Shelf"⟩, []⟩ := by decide +kernel
  have houtline := (named_by_outline shelvesDocument cyclicShelvesDocument .standard).1
    sameOutline_shelves
  have hperm := (named_by_outline cyclicShelvesDocument
    ⟨cyclicShelvesDocument.definitions.reverse⟩ .standard).2 hn (List.reverse_perm _).symm
  refine ⟨sameOutline_shelves, (houtline.2 none).symm.trans hfirst, hn, ?_⟩
  rw [← hperm]
  decide +kernel

end GraphTrace.Document
