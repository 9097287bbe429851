import GraphTrace.Proofs.Document.Spelling
import GraphTrace.Proofs.Naming.Parts
import GraphTrace.Proofs.Trace.Precedence

/-!
# Names of requests are unambiguous

At any time after its reception a request has the name that its members make up: for each operation
the kind and the name of its origin and the path through that origin's selections
(`Endpoint.members`).  A document that was read from the text of a request has GraphQL names only,
so as soon as the documents and operations that the host forwards have no others, the name reads
back as the members (`transactionName_unambiguous`).  A single operation, a batch and a request
without a named operation are never confused.
-/

namespace GraphTrace.Trace

open Naming (Parts memberIdentifier transactionOf)

/-! ### Origins of GraphQL names -/

/-- A hook that forwards GraphQL names only. -/
def Hook.Named : Hook → Prop
  | .parsed document         => document.Named
  | .resolved _ operation    => operation.Named
  | .executed _ | .segment _ => True

namespace Origin

/-- What is selected in a document of GraphQL names has GraphQL names. -/
theorem named_of_selected? {wanted : Option String} {document : Document} (h : document.Named)
    {o : Origin} (ho : selected? wanted document = some o) : o.operation.Named := by
  obtain ⟨operation, hfirst, rfl⟩ := Option.map_eq_some_iff.mp ho
  obtain ⟨before, after, hoperations, -⟩ := firstWanted?_eq_some_iff.mp hfirst
  exact h operation (by simp [hoperations])

/-- The operation selected in a request's own text has GraphQL names, since it was read. -/
theorem named_of_dispatched? {request : GraphTrace.Request} {o : Origin}
    (ho : dispatched? request = some o) : o.operation.Named := by
  obtain ⟨document, hquery, hselected⟩ := Option.bind_eq_some_iff.mp ho
  obtain ⟨text, -, hparse⟩ := Option.bind_eq_some_iff.mp hquery
  exact named_of_selected? (Document.named_of_parse? hparse) hselected

end Origin

theorem named_of_resolved? {hook : Hook} (h : hook.Named) {o : Origin}
    (ho : hook.resolved? = some o) : o.operation.Named := by
  cases hook with
  | resolved document operation => obtain rfl := Option.some.inj ho; exact h
  | parsed | executed | segment => contradiction

theorem named_of_parsed? {hook : Hook} (h : hook.Named) {wanted : Option String} {o : Origin}
    (ho : hook.parsed? wanted = some o) : o.operation.Named := by
  cases hook with
  | parsed document => exact Origin.named_of_selected? h ho
  | resolved | executed | segment => contradiction

/-- **Origins have GraphQL names**, wherever they come from. -/
theorem named_of_origin? {request : GraphTrace.Request} {hooks : List Hook}
    (h : ∀ hook ∈ hooks, hook.Named) {o : Origin} (ho : origin? request hooks = some o) :
    o.operation.Named := by
  rcases Option.or_eq_some_iff.mp ho with hlast | ⟨-, ho⟩
  · obtain ⟨hook, hmem, hresolved⟩ := List.exists_of_findSome?_eq_some hlast
    exact named_of_resolved? (h hook (List.mem_reverse.mp hmem)) hresolved
  · rcases Option.or_eq_some_iff.mp ho with hown | ⟨-, hfirst⟩
    · exact Origin.named_of_dispatched? hown
    · obtain ⟨hook, hmem, hparsed⟩ := List.exists_of_findSome?_eq_some hfirst
      exact named_of_parsed? (h hook hmem) hparsed

/-! ### Members -/

/-- What the identifier of an origin is made of. -/
def Origin.parts (reserved : Naming.Reserved) (o : Origin) : Parts :=
  ⟨o.operation.kind, o.operation.name, (o.document.walkOf reserved o.operation).text⟩

/-- The parts of an identifier have no slash in them. -/
theorem Origin.plain_parts (reserved : Naming.Reserved) {o : Origin} (h : o.operation.Named) :
    (o.parts reserved).Plain :=
  Naming.plain_of_named o.document reserved h

/-- A request received under a route, after some hooks. -/
def Endpoint.traced (e : Endpoint) (tree : Nat) (route : String) (bytes : ByteArray)
    (hooks : List (Nat × Hook)) : Request :=
  ((e.receive tree route bytes).1.run hooks).1

/-- The members of a request after some hooks: for each operation what the identifier of its origin
is made of, if it has one. -/
def Endpoint.members (e : Endpoint) (bytes : ByteArray) (hooks : List (Nat × Hook)) :
    List (Option Parts) :=
  (Body.requestsOf bytes).mapIdx fun i request =>
    (origin? request (hooksFor hooks i)).map (·.parts e.config.reserved)

/-- The members of a request have no slash in them. -/
theorem Endpoint.plain_members (e : Endpoint) (bytes : ByteArray) {hooks : List (Nat × Hook)}
    (h : ∀ hook ∈ hooks, hook.2.Named) : Naming.PlainMembers (e.members bytes hooks) := by
  intro m hm p hp
  obtain ⟨i, hi, rfl⟩ := List.mem_mapIdx.mp hm
  obtain ⟨o, ho, rfl⟩ := Option.map_eq_some_iff.mp hp
  refine o.plain_parts _ (named_of_origin? (fun hook hhook => ?_) ho)
  obtain ⟨forwarded, hmem, rfl⟩ := List.mem_map.mp hhook
  exact h forwarded (List.mem_filter.mp hmem).1

/-- Whether none of the operations has a name. -/
def Request.Nameless (r : Request) : Prop := ∀ o ∈ r.operations, o.identifier? = none

section

variable (e : Endpoint) (tree : Nat) (route : String) (bytes : ByteArray)
  (hooks : List (Nat × Hook))

/-- The identifiers of the operations are those that the members make up. -/
theorem Endpoint.identifiers_traced : (e.traced tree route bytes hooks).operations.map
    (·.identifier?) = (e.members bytes hooks).map (Option.map Parts.identifier) := by
  rw [traced, identifiers_run]
  refine List.ext_getElem? fun i => ?_
  rw [getElem?_originNames, members, List.getElem?_map, List.getElem?_mapIdx, Option.map_map]
  refine congrArg (Option.map · _) (funext fun request => ?_)
  rw [Function.comp_apply, Option.map_map]
  rfl

theorem Endpoint.route_traced : (e.traced tree route bytes hooks).route = route := by
  rw [traced, (Request.run_fixed _ _).1]
  unfold receive
  exact congrArg Request.route (Request.reportName_spec _).1

/-- The identifiers of a request are those of its members. -/
theorem Endpoint.identifiers_eq : (e.traced tree route bytes hooks).identifiers
    = (e.members bytes hooks).map memberIdentifier := by
  have h := congrArg (List.map (Option.getD · .unavailable))
    (e.identifiers_traced tree route bytes hooks)
  rw [List.map_map, List.map_map] at h
  exact h

/-- A request has an identifier just if a member is there. -/
theorem Endpoint.any_named : (e.traced tree route bytes hooks).operations.any
    (·.identifier?.isSome) = (e.members bytes hooks).any (·.isSome) := by
  have h := congrArg (List.any · (·.isSome)) (e.identifiers_traced tree route bytes hooks)
  simpa [List.any_map, Function.comp_def] using h

/-- **The name of a request** is made of its route and its members. -/
theorem Endpoint.transactionName_traced : (e.traced tree route bytes hooks).transactionName
    = transactionOf route (e.members bytes hooks) := by
  rw [Request.transactionName, route_traced, identifiers_eq, any_named, transactionOf]

/-- A request is nameless just if no member is there. -/
theorem Endpoint.nameless_traced : (e.traced tree route bytes hooks).Nameless ↔
    (e.members bytes hooks).any (·.isSome) = false := by
  rw [← e.any_named tree route bytes hooks]
  simp [Request.Nameless]

end

/-! ### Names -/

/-- **Names are unambiguous.**  Two requests with one route, each after any hooks that forward
GraphQL names, have one name just if none of their operations has a name, or if their identifiers
are equal.  The name tells the members, which make up the identifiers: how many there are, in which
order, and of each the kind, the name and the path; or that none has a name. -/
theorem Endpoint.transactionName_unambiguous (e e' : Endpoint) (tree tree' : Nat) (route : String)
    (bytes bytes' : ByteArray) {hooks hooks' : List (Nat × Hook)}
    (h : ∀ hook ∈ hooks, hook.2.Named) (h' : ∀ hook ∈ hooks', hook.2.Named) :
    ((e.traced tree route bytes hooks).transactionName
        = (e'.traced tree' route bytes' hooks').transactionName ↔
      ((e.traced tree route bytes hooks).Nameless ∧
          (e'.traced tree' route bytes' hooks').Nameless) ∨
        (e.traced tree route bytes hooks).identifiers
          = (e'.traced tree' route bytes' hooks').identifiers) ∧
      (e.traced tree route bytes hooks).operations.map (·.identifier?)
        = (e.members bytes hooks).map (Option.map Parts.identifier) ∧
      Naming.readTransaction route (e.traced tree route bytes hooks).transactionName
        = some (if (e.members bytes hooks).any (·.isSome) then e.members bytes hooks
          else [none]) := by
  have hplain := e.plain_members bytes h
  have hplain' := e'.plain_members bytes' h'
  refine ⟨?_, e.identifiers_traced tree route bytes hooks, ?_⟩
  · simp only [nameless_traced, transactionName_traced, identifiers_eq]
    exact Naming.transactionOf_eq_iff route hplain hplain'
  · rw [transactionName_traced]
    exact Naming.readTransaction_transactionOf route hplain

/-- The engine resolves the first operation. -/
def libraryHooks : List (Nat × Hook) :=
  [(0, .resolved ⟨[.operation libraryOperation]⟩ libraryOperation)]

theorem named_libraryHooks : ∀ hook ∈ libraryHooks, hook.2.Named := by
  refine List.forall_mem_singleton.mpr ⟨?_, ?_⟩
  · simp only [libraryOperation, Option.mem_def, Option.some.injEq, forall_eq']
    decide
  · simp only [libraryOperation, NamedSelections, Selection.Named]
    decide

/-- The name of a batch of which one member is known, and that name read back. -/
theorem Endpoint.transactionName_library :
    (∀ hook ∈ libraryHooks, hook.2.Named) ∧
      (traced ⟨{}⟩ 0 "/graphql" "[{},{}]".toUTF8 libraryHooks).transactionName
        = "/graphql//batch/query/Library/books.title/*" ∧
      Naming.readTransaction "/graphql" "/graphql//batch/query/Library/books.title/*"
        = some [some ⟨.query, some "Library", "books.title"⟩, none] := by
  have hname : (traced ⟨{}⟩ 0 "/graphql" "[{},{}]".toUTF8 libraryHooks).transactionName
      = "/graphql//batch/query/Library/books.title/*" := by decide +kernel
  have hmembers : members ⟨{}⟩ "[{},{}]".toUTF8 libraryHooks
      = [some ⟨.query, some "Library", "books.title"⟩, none] := by decide +kernel
  obtain ⟨-, -, hread⟩ := transactionName_unambiguous ⟨{}⟩ ⟨{}⟩ 0 1 "/graphql" "[{},{}]".toUTF8
    "{}".toUTF8 named_libraryHooks named_libraryHooks
  rw [hname, hmembers] at hread
  exact ⟨named_libraryHooks, hname, hread⟩

end GraphTrace.Trace
