import GraphTrace.Proofs.Request.Encoding
import GraphTrace.Proofs.Trace.Unambiguous

/-!
# The members of a batch are independent

A body of several requests is traced as several bodies of one request each would be.  Hooks are
forwarded to the operations in any order, so a run of hooks is any interleaving of those for each
operation, and every moment of a trace is the end of such a run.

* Each operation is the operation of a trace of its request alone, after the hooks for it and no
  others (`Independent.whole`, `Independent.identifier`).
* The name of the request is made of the identifiers of the operations: a wildcard stands for all of
  them just if none is there, and otherwise one stands for each that is not there.

This is what holds of every body that can be read, and any other body has no operations
(`Endpoint.independent_traced`).
-/

namespace GraphTrace.Trace

open Naming (Identifier Parts)

/-! ### The name of a request -/

theorem wildcard_append (route : String) : route ++ "//" ++ Naming.wildcard = route ++ "//*" :=
  String.append_assoc

/-- The name of a request with several identifiers. -/
theorem transactionName_of_two_le (route : String) {identifiers : List Identifier}
    (h : 2 ≤ identifiers.length) : Naming.transactionName route identifiers true
      = route ++ "//batch/" ++ "/".intercalate (identifiers.map (·.text)) := by
  have htexts : identifiers.map (·.text) ≠ [] := fun e => by simp [List.map_eq_nil_iff.mp e] at h
  have hcombined : Naming.transactionName route identifiers true
      = route ++ "//" ++ Naming.combined identifiers := by
    match identifiers, h with
    | first :: second :: rest, _ => rfl
  rw [hcombined, Naming.combined, String.intercalate_cons_of_ne_nil htexts]
  simp only [String.append_assoc]
  rfl

namespace Request

variable (r : Request)

/-- Without any identifier the name is a wildcard. -/
theorem transactionName_of_nameless (h : r.Nameless) :
    r.transactionName = r.route ++ "//*" := by
  have hnamed : r.operations.any (·.identifier?.isSome) = false := by
    rw [List.any_eq_false]
    exact fun o ho => by simp [h o ho]
  rw [transactionName, hnamed, ← wildcard_append]
  rfl

/-- The name of one operation is its identifier. -/
theorem transactionName_of_single {o : Operation} {identifier : Identifier}
    (h : r.operations = [o]) (ho : o.identifier? = some identifier) :
    r.transactionName = r.route ++ "//" ++ identifier.text := by
  simp [transactionName, identifiers, Naming.transactionName, h, ho, Operation.identifier]

/-- The name of a batch lists its members, with a wildcard for each that has no identifier. -/
theorem transactionName_of_several (h : 2 ≤ r.operations.length) (hnamed : ¬ r.Nameless) :
    r.transactionName = r.route ++ "//batch/"
      ++ "/".intercalate (r.operations.map fun o => memberText o.identifier?) := by
  obtain ⟨o, ho, hne⟩ : ∃ o ∈ r.operations, o.identifier? ≠ none := by
    simpa [Nameless] using hnamed
  have hany : r.operations.any (·.identifier?.isSome) = true :=
    List.any_eq_true.mpr ⟨o, ho, Option.isSome_iff_ne_none.mpr hne⟩
  have htexts : r.identifiers.map (·.text)
      = r.operations.map fun o => memberText o.identifier? := by
    rw [identifiers, List.map_map]
    exact List.map_congr_left fun o _ => o.text_identifier
  rw [transactionName, hany, transactionName_of_two_le _ (by rwa [identifiers, List.length_map]),
    htexts]

/-- **The name is a wildcard** just if no operation has an identifier, as no identifier is one. -/
theorem transactionName_eq_wildcard_iff (h : ∀ o ∈ r.operations, ∀ identifier,
      o.identifier? = some identifier → identifier.text ≠ "*") :
    r.transactionName = r.route ++ "//*" ↔ r.Nameless := by
  refine ⟨fun e => ?_, r.transactionName_of_nameless⟩
  by_contra hnamed
  rcases hops : r.operations with _ | ⟨o, _ | ⟨o', rest⟩⟩
  · exact hnamed fun o ho => absurd ho (hops ▸ List.not_mem_nil)
  · cases ho : o.identifier? with
    | none => exact hnamed fun o' ho' => List.mem_singleton.mp (hops ▸ ho') ▸ ho
    | some identifier =>
        rw [r.transactionName_of_single hops ho, ← wildcard_append, String.append_right_inj] at e
        exact h o (hops ▸ List.mem_cons_self) identifier ho e
  · rw [r.transactionName_of_several (by simp [hops]) hnamed, String.append_assoc,
      String.append_right_inj] at e
    have hchars := congrArg String.toList e
    simp at hchars

end Request

/-! ### Operations -/

/-- The trace of one request alone, after hooks for its operation. -/
def Endpoint.alone (e : Endpoint) (tree : Nat) (route : String) (request : GraphTrace.Request)
    (hooks : List Hook) : Request :=
  e.traced tree route (Body.single request).toBytes (hooks.map (0, ·))

/-- What a request that was received under a route has to do, after some hooks, with the requests in
its body. -/
structure Independent (e : Endpoint) (tree : Nat) (route : String)
    (requests : List GraphTrace.Request) (hooks : List (Nat × Hook)) (r : Request) : Prop where
  /-- There is one operation for each request, in order. -/
  requests : r.operations.map (·.request) = requests
  /-- An operation is that of a trace of its request alone, whose tree has the same number. -/
  whole : ∀ i o, r.operations[i]? = some o → ∀ route',
    (e.alone (tree + i) route' o.request (hooksFor hooks i)).operations = [o]
  /-- Its identifier does not depend on the number of its tree either. -/
  identifier : ∀ i o, r.operations[i]? = some o → ∀ tree' route',
    (e.alone tree' route' o.request (hooksFor hooks i)).operations.map (·.identifier?)
      = [o.identifier?]
  /-- The name is a wildcard just if no operation has an identifier. -/
  nameless : r.transactionName = route ++ "//*" ↔ r.Nameless
  /-- One operation gives its identifier to the name, if it has one. -/
  single : ∀ o identifier, r.operations = [o] → o.identifier? = some identifier →
    r.transactionName = route ++ "//" ++ identifier.text
  /-- Several operations give their identifiers, with a wildcard for each that is missing. -/
  several : 2 ≤ r.operations.length → ¬ r.Nameless → r.transactionName = route ++ "//batch/"
    ++ "/".intercalate (r.operations.map fun o => memberText o.identifier?)

namespace Endpoint

variable {e : Endpoint} {tree : Nat} {route : String} {bytes : ByteArray} {body : Body}
  {hooks : List (Nat × Hook)}

/-- An operation saw its own hooks and no others. -/
theorem getElem?_traced (i : Nat) : (e.traced tree route bytes hooks).operations[i]?
    = ((Body.requestsOf bytes)[i]?).map fun request =>
      (Operation.receive e.config.reserved e.config.captureScalars (tree + i) request).1.run
        (hooksFor hooks i) :=
  e.getElem?_run_receive tree route bytes hooks i

/-- The operations of a request are those of its body, whatever the hooks. -/
theorem requests_traced : (e.traced tree route bytes hooks).operations.map (·.request)
    = Body.requestsOf bytes := by
  refine List.ext_getElem? fun i => ?_
  rw [List.getElem?_map, getElem?_traced, Option.map_map]
  refine (congrArg (Option.map · _) (funext fun request => ?_)).trans Option.map_id'
  exact (Operation.request_run _ _).1.trans (Operation.request_receive _ _ _ _).1

/-- **A request alone** has one operation, which saw all hooks. -/
theorem operations_alone {request : GraphTrace.Request}
    (h : Body.ofBytes (Body.single request).toBytes = .ok (.single request)) (hooks : List Hook) :
    (e.alone tree route request hooks).operations = [(Operation.receive e.config.reserved
      e.config.captureScalars tree request).1.run hooks] := by
  have hrequests : Body.requestsOf (Body.single request).toBytes = [request] := by
    rw [Body.requestsOf, h]
    rfl
  have hhooks : hooksFor (hooks.map (0, ·)) 0 = hooks := by
    simp [hooksFor, List.filter_map, Function.comp_def]
  refine List.ext_getElem? fun i => ?_
  rw [alone, getElem?_traced, hrequests]
  cases i with
  | zero => simp [hhooks]
  | succ i => rfl

/-- An identifier is not a wildcard. -/
theorem text_ne_wildcard {o : Operation} (ho : o ∈ (e.traced tree route bytes hooks).operations)
    {identifier : Identifier} (h : o.identifier? = some identifier) : identifier.text ≠ "*" := by
  have hmem : some identifier ∈ (e.members bytes hooks).map (Option.map Parts.identifier) := by
    rw [← e.identifiers_traced tree route bytes hooks, ← h]
    exact List.mem_map.mpr ⟨o, ho, rfl⟩
  obtain ⟨p?, -, hp⟩ := List.mem_map.mp hmem
  obtain ⟨p, -, rfl⟩ := Option.map_eq_some_iff.mp hp
  intro hwildcard
  have hslash : '/' ∈ p.identifier.text.toList := by
    simp [Parts.identifier, Identifier.ofParts]
  rw [hwildcard] at hslash
  exact absurd hslash (by decide)

/-- An operation is one of the requests in the body, after its own hooks. -/
theorem exists_of_getElem?_traced {i : Nat} {o : Operation}
    (h : (e.traced tree route bytes hooks).operations[i]? = some o) :
    o.request ∈ Body.requestsOf bytes ∧
      o = (Operation.receive e.config.reserved e.config.captureScalars (tree + i) o.request).1.run
        (hooksFor hooks i) := by
  rw [getElem?_traced] at h
  obtain ⟨request, hrequest, rfl⟩ := Option.map_eq_some_iff.mp h
  rw [(Operation.request_run _ _).1, (Operation.request_receive _ _ _ _).1]
  exact ⟨List.mem_of_getElem? hrequest, rfl⟩

/-- **The members of a batch are independent.**  After any hooks, in any order, a request whose body
was read has one operation for each request in the body, which is the operation of a trace of that
request alone after its own hooks, and the identifiers of the operations make up the name.  A
request whose body was not read has no operations. -/
theorem independent_traced (e : Endpoint) (tree : Nat) (route : String) (bytes : ByteArray)
    (hooks : List (Nat × Hook)) :
    (∀ body, Body.ofBytes bytes = .ok body →
      Independent e tree route body.requests hooks (e.traced tree route bytes hooks)) ∧
    ∀ error, Body.ofBytes bytes = .error error →
      (e.traced tree route bytes hooks).operations = [] ∧
        (e.traced tree route bytes hooks).transactionName = route ++ "//*" := by
  have hroute := e.route_traced tree route bytes hooks
  constructor
  · intro body hbody
    have hrequests : Body.requestsOf bytes = body.requests := by rw [Body.requestsOf, hbody]
    have alone : ∀ {i : Nat} {o : Operation},
        (e.traced tree route bytes hooks).operations[i]? = some o →
        Body.ofBytes (Body.single o.request).toBytes = .ok (.single o.request) := fun ho =>
      Body.ofBytes_single hbody (hrequests ▸ (exists_of_getElem?_traced ho).1)
    refine ⟨requests_traced.trans hrequests, ?_, ?_, ?_, ?_, ?_⟩
    · intro i o ho route'
      rw [operations_alone (alone ho), ← (exists_of_getElem?_traced ho).2]
    · intro i o ho tree' route'
      rw [operations_alone (alone ho), List.map_singleton, Operation.identifier?_run_receive]
      conv_rhs => rw [(exists_of_getElem?_traced ho).2, Operation.identifier?_run_receive]
    · have h := Request.transactionName_eq_wildcard_iff (e.traced tree route bytes hooks)
        fun o ho _ h => text_ne_wildcard ho h
      rwa [hroute] at h
    · intro o identifier hops ho
      have h := Request.transactionName_of_single _ hops ho
      rwa [hroute] at h
    · intro hmany hnamed
      have h := Request.transactionName_of_several _ hmany hnamed
      rwa [hroute] at h
  · intro error herror
    have hempty : (e.traced tree route bytes hooks).operations = [] := by
      have hrequests : Body.requestsOf bytes = [] := by rw [Body.requestsOf, herror]
      refine List.map_eq_nil_iff.mp (requests_traced.trans hrequests)
    have h := Request.transactionName_of_nameless (e.traced tree route bytes hooks) fun o ho =>
      absurd ho (hempty ▸ List.not_mem_nil)
    rw [hroute] at h
    exact ⟨hempty, h⟩

/-- A batch of two requests of which one is named, and an empty batch. -/
theorem independent_library :
    Body.ofBytes (Body.batch [{}, {}]).toBytes = .ok (.batch [{}, {}]) ∧
      (traced ⟨{}⟩ 0 "/graphql" (Body.batch [{}, {}]).toBytes libraryHooks).transactionName
        = "/graphql//batch/query/Library/books.title/*" ∧
      Body.ofBytes "[]".toUTF8 = .error .emptyBatch ∧
      (traced ⟨{}⟩ 0 "/graphql" "[]".toUTF8 libraryHooks).transactionName = "/graphql//*" := by
  have hempty : Json.Canonical 125 (.object []) := .object .nil (List.forall_mem_nil _)
  have hbody : Body.ofBytes (Body.batch [{}, {}]).toBytes = .ok (.batch [{}, {}]) :=
    Body.ofBytes_of_canonical (.batch (List.cons_ne_nil _ _) fun r hr => by
      obtain rfl : r = {} := by simpa using hr
      exact ⟨hempty, hempty⟩)
  have hnone : Body.ofBytes "[]".toUTF8 = .error .emptyBatch :=
    Body.ofBytes_eq_emptyBatch_iff.mpr (Json.ofBytes_toUTF8 (.array (List.forall_mem_nil _)))
  have hidentifiers : (traced ⟨{}⟩ 0 "/graphql" (Body.batch [{}, {}]).toBytes
      libraryHooks).operations.map (·.identifier?)
        = [some ⟨"query/Library/books.title"⟩, none] := by
    decide +kernel
  obtain ⟨hread, -⟩ :=
    independent_traced ⟨{}⟩ 0 "/graphql" (Body.batch [{}, {}]).toBytes libraryHooks
  obtain ⟨-, hunread⟩ := independent_traced ⟨{}⟩ 0 "/graphql" "[]".toUTF8 libraryHooks
  have hmany : 2 ≤ (traced ⟨{}⟩ 0 "/graphql" (Body.batch [{}, {}]).toBytes
      libraryHooks).operations.length := by
    rw [← List.length_map (·.identifier?), hidentifiers]
    exact le_rfl
  have hnamed : ¬ (traced ⟨{}⟩ 0 "/graphql" (Body.batch [{}, {}]).toBytes
      libraryHooks).Nameless := fun h => by
    obtain ⟨o, ho, hsome⟩ := List.mem_map.mp (hidentifiers ▸ List.mem_cons_self)
    rw [h o ho] at hsome
    contradiction
  refine ⟨hbody, ?_, hnone, (hunread _ hnone).2⟩
  rw [(hread _ hbody).several hmany hnamed, ← Function.comp_def memberText, ← List.map_map,
    hidentifiers]
  rfl

end Endpoint

end GraphTrace.Trace
