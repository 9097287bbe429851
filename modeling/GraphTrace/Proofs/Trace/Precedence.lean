import GraphTrace.Proofs.Trace.Life

/-!
# Which name counts

An operation takes its identifier from an operation of a document, its *origin*.  Three sources
offer one: the engine resolves an operation, the request's own text has the operation that the
request selects, or a document that the host parsed has it.  The state of an operation keeps the
current identifier only; `origin?` reads the origin off the whole history instead:

* the last operation that the engine resolved, if it resolved any;
* otherwise the one selected in the request's own text;
* otherwise the one selected in the first document parsed that has it.

Hooks are forwarded in any order, for any operation of the request, before its end and after.  The
identifiers are those of the origins all the way (`Endpoint.identifiers_of_origins`): an identifier
never disappears, and only a resolution replaces it.
-/

namespace GraphTrace

/-- The requests in a body, in order; none if it cannot be read. -/
def Body.requestsOf (bytes : ByteArray) : List Request :=
  match Body.ofBytes bytes with
  | .ok body => body.requests
  | .error _ => []

namespace Trace

/-! ### The operation that a request selects -/

/-- Whether a request can mean an operation: it gives no name, or this one. -/
def CanMean (wanted : Option String) (o : GraphTrace.Operation) : Prop :=
  wanted = none ∨ o.name = wanted

instance (wanted : Option String) : DecidablePred (CanMean wanted) := fun o =>
  inferInstanceAs (Decidable (wanted = none ∨ o.name = wanted))

/-- The first operation among some definitions that a request can mean. -/
def firstWanted? (wanted : Option String) : List Definition → Option GraphTrace.Operation
  | []                   => none
  | .operation o :: rest => if CanMean wanted o then some o else firstWanted? wanted rest
  | .fragment _ :: rest  => firstWanted? wanted rest
  | .typeSystem :: rest  => firstWanted? wanted rest

/-- The search among definitions is one among operations. -/
theorem firstWanted?_eq_find? (wanted : Option String) (definitions : List Definition) :
    firstWanted? wanted definitions
      = (definitions.filterMap (·.operation?)).find? (CanMean wanted ·) := by
  induction definitions with
  | nil => rfl
  | cons d rest ih =>
      cases d with
      | operation o =>
          rw [firstWanted?, ih, show (Definition.operation o :: rest).filterMap (·.operation?)
            = o :: rest.filterMap (·.operation?) from rfl, List.find?_cons]
          by_cases h : CanMean wanted o
          · simp [h]
          · simp [h]
      | fragment f => exact ih
      | typeSystem => exact ih

/-- **What a request selects in a document** is the first operation that it can mean. -/
theorem firstWanted?_eq_some_iff {wanted : Option String} {document : Document}
    {o : GraphTrace.Operation} : firstWanted? wanted document.definitions = some o ↔
      ∃ before after, document.operations = before ++ o :: after ∧ CanMean wanted o ∧
        ∀ o' ∈ before, ¬ CanMean wanted o' := by
  rw [firstWanted?_eq_find?, ← Document.operations, List.find?_eq_some_iff_append]
  simp [and_left_comm]

/-- That is how naming selects, by the name or at the head of the document. -/
theorem select?_eq_firstWanted? (document : Document) (wanted : Option String) :
    document.select? wanted = firstWanted? wanted document.definitions := by
  rw [firstWanted?_eq_find?, ← Document.operations]
  cases wanted with
  | none => cases h : document.operations <;> simp [Document.select?, CanMean, h]
  | some name => simp [Document.select?, CanMean, beq_eq_decide]

/-! ### Origins -/

/-- An operation of a document, as the origin of an identifier. -/
structure Origin where
  document : Document
  operation : GraphTrace.Operation

/-- The identifier that an origin gives. -/
def Origin.identifier (reserved : Naming.Reserved) (o : Origin) : Naming.Identifier :=
  o.document.identifier reserved o.operation

/-- The operation that a request selects in a document, if the document has it. -/
def Origin.selected? (wanted : Option String) (document : Document) : Option Origin :=
  (firstWanted? wanted document.definitions).map (⟨document, ·⟩)

/-- The operation that a request selects in the document of its own text. -/
def Origin.dispatched? (request : GraphTrace.Request) : Option Origin :=
  (request.query.bind Document.parse?).bind (selected? request.operationName)

/-- The operation that the engine resolved. -/
def Hook.resolved? : Hook → Option Origin
  | .resolved document operation => some ⟨document, operation⟩
  | _                            => none

/-- The operation that a request selects in the document that the host parsed. -/
def Hook.parsed? (wanted : Option String) : Hook → Option Origin
  | .parsed document => Origin.selected? wanted document
  | _                => none

/-- The last operation that the engine resolved. -/
def lastResolved? (hooks : List Hook) : Option Origin := hooks.reverse.findSome? Hook.resolved?

/-- The operation selected in the first parsed document that has it. -/
def firstParsed? (wanted : Option String) (hooks : List Hook) : Option Origin :=
  hooks.findSome? (Hook.parsed? wanted)

/-- The origin of an operation's identifier after some hooks. -/
def origin? (request : GraphTrace.Request) (hooks : List Hook) : Option Origin :=
  (lastResolved? hooks).or <|
    (Origin.dispatched? request).or (firstParsed? request.operationName hooks)

/-- Naming gives the identifier of the operation that a request selects. -/
theorem Origin.nameSelected_eq (document : Document) (reserved : Naming.Reserved)
    (wanted : Option String) : (document.nameSelected reserved wanted).map (·.identifier)
      = (selected? wanted document).map (·.identifier reserved) := by
  simp only [Document.nameSelected, selected?, select?_eq_firstWanted?, Option.map_map]
  rfl

theorem lastResolved?_append (earlier later : List Hook) :
    lastResolved? (earlier ++ later) = (lastResolved? later).or (lastResolved? earlier) := by
  simp only [lastResolved?, List.reverse_append, List.findSome?_append]

/-- An earlier resolution counts only if there is no later one. -/
theorem lastResolved?_cons (hook : Hook) (hooks : List Hook) :
    lastResolved? (hook :: hooks) = (lastResolved? hooks).or hook.resolved? := by
  rw [← List.singleton_append, lastResolved?_append]
  cases hook <;> rfl

/-- A later document counts only if no earlier one has the operation. -/
theorem firstParsed?_cons (wanted : Option String) (hook : Hook) (hooks : List Hook) :
    firstParsed? wanted (hook :: hooks) = (hook.parsed? wanted).or (firstParsed? wanted hooks) := by
  simp only [firstParsed?, List.findSome?_cons]
  cases hook.parsed? wanted <;> rfl

/-! ### One operation -/

namespace Operation

section

variable (o : Operation)

/-- An operation without a name takes that of the operation selected in the document. -/
theorem identifier?_nameFrom (h : o.identifier? = none) (document : Document) :
    (o.nameFrom document).1.identifier?
      = (Origin.selected? o.request.operationName document).map (·.identifier o.reserved) := by
  rw [← Origin.nameSelected_eq, nameFrom]
  split
  case h_1 named e => rw [e]; rfl
  case h_2 e => rw [e]; exact h

/-- **A hook and the identifier**: a resolution counts before the identifier there was, and a
parsed document after it. -/
theorem identifier?_apply (hook : Hook) : (o.apply hook).1.identifier?
    = (hook.resolved?.map (·.identifier o.reserved)).or (o.identifier?.or
        ((hook.parsed? o.request.operationName).map (·.identifier o.reserved))) := by
  cases hook with
  | parsed document =>
      rw [show (o.apply (.parsed document)).1 = (o.parsed document).1 from rfl]
      cases e : o.name with
      | unavailable =>
          have h : o.identifier? = none := by rw [identifier?, e]; rfl
          rw [parsed, e, h]
          exact o.identifier?_nameFrom h document
      | parsed identifier | resolved identifier =>
          rw [parsed, e, identifier?, e]
          rfl
  | resolved document operation => rfl
  | executed now => exact (Option.or_none).symm
  | segment call => exact (Option.or_none).symm

/-- Naming changes neither the request nor the reserved names. -/
theorem request_nameFrom (document : Document) : (o.nameFrom document).1.request = o.request ∧
    (o.nameFrom document).1.reserved = o.reserved := by
  unfold nameFrom
  split <;> exact ⟨rfl, rfl⟩

/-- A hook changes neither the request nor the reserved names. -/
theorem request_apply (hook : Hook) :
    (o.apply hook).1.request = o.request ∧ (o.apply hook).1.reserved = o.reserved := by
  cases hook with
  | parsed document =>
      rw [show (o.apply (.parsed document)).1 = (o.parsed document).1 from rfl, parsed]
      split
      · exact o.request_nameFrom document
      · exact ⟨rfl, rfl⟩
  | resolved | executed | segment => exact ⟨rfl, rfl⟩

end

/-- The operation after some hooks. -/
def run (o : Operation) (hooks : List Hook) : Operation :=
  hooks.foldl (fun o hook => (o.apply hook).1) o

theorem run_cons (o : Operation) (hook : Hook) (hooks : List Hook) :
    o.run (hook :: hooks) = (o.apply hook).1.run hooks := rfl

theorem run_append (o : Operation) (earlier later : List Hook) :
    o.run (earlier ++ later) = (o.run earlier).run later := List.foldl_append

/-- A run changes neither the request nor the reserved names. -/
theorem request_run (o : Operation) (hooks : List Hook) :
    (o.run hooks).request = o.request ∧ (o.run hooks).reserved = o.reserved := by
  induction hooks generalizing o with
  | nil => exact ⟨rfl, rfl⟩
  | cons hook rest ih =>
      obtain ⟨hrequest, hreserved⟩ := o.request_apply hook
      obtain ⟨hrequest', hreserved'⟩ := ih (o.apply hook).1
      exact ⟨hrequest'.trans hrequest, hreserved'.trans hreserved⟩

/-- **A run and the identifier**: the last resolution counts before the identifier there was, and
the first parsed document after it. -/
theorem identifier?_run (o : Operation) (hooks : List Hook) : (o.run hooks).identifier?
    = ((lastResolved? hooks).map (·.identifier o.reserved)).or (o.identifier?.or
        ((firstParsed? o.request.operationName hooks).map (·.identifier o.reserved))) := by
  induction hooks generalizing o with
  | nil => exact (Option.or_none).symm
  | cons hook rest ih =>
      obtain ⟨hrequest, hreserved⟩ := o.request_apply hook
      rw [run_cons, ih, hrequest, hreserved, identifier?_apply, lastResolved?_cons,
        firstParsed?_cons, Option.map_or, Option.map_or]
      simp only [Option.or_assoc]

/-- An operation just received has the identifier of the operation selected in its request's own
text. -/
theorem identifier?_receive (reserved : Naming.Reserved) (captures : Bool) (tree : Nat)
    (request : GraphTrace.Request) : (receive reserved captures tree request).1.identifier?
      = (Origin.dispatched? request).map (·.identifier reserved) := by
  unfold receive documentOf Origin.dispatched?
  cases request.query with
  | none => rfl
  | some text =>
      cases hparse : Document.parse? text with
      | none => simp [hparse, identifier?, KnownName.identifier?]
      | some document =>
          simp only [hparse, Option.bind_some]
          exact identifier?_nameFrom _ rfl document

/-- An operation keeps the request that it was received with. -/
theorem request_receive (reserved : Naming.Reserved) (captures : Bool) (tree : Nat)
    (request : GraphTrace.Request) :
    (receive reserved captures tree request).1.request = request ∧
      (receive reserved captures tree request).1.reserved = reserved := by
  unfold receive
  split
  · exact request_nameFrom _ _
  · exact ⟨rfl, rfl⟩

/-- **The identifier of a received operation** is that of its origin. -/
theorem identifier?_run_receive (reserved : Naming.Reserved) (captures : Bool) (tree : Nat)
    (request : GraphTrace.Request) (hooks : List Hook) :
    ((receive reserved captures tree request).1.run hooks).identifier?
      = (origin? request hooks).map (·.identifier reserved) := by
  obtain ⟨hrequest, hreserved⟩ := request_receive reserved captures tree request
  rw [identifier?_run, hrequest, hreserved, identifier?_receive, origin?, Option.map_or,
    Option.map_or]

end Operation

/-! ### The operations of a request -/

/-- The hooks of a run that are for operation `i`, in order. -/
def hooksFor (hooks : List (Nat × Hook)) (i : Nat) : List Hook :=
  (hooks.filter (·.1 = i)).map (·.2)

theorem hooksFor_append (earlier later : List (Nat × Hook)) (i : Nat) :
    hooksFor (earlier ++ later) i = hooksFor earlier i ++ hooksFor later i := by
  rw [hooksFor, List.filter_append, List.map_append, hooksFor, hooksFor]

namespace Request

/-- **An operation after a run** saw its own hooks and no others. -/
theorem getElem?_run (r : Request) (hooks : List (Nat × Hook)) (i : Nat) :
    (r.run hooks).1.operations[i]? = (r.operations[i]?).map (·.run (hooksFor hooks i)) := by
  induction hooks generalizing r with
  | nil => simp [run, hooksFor, Operation.run]
  | cons first rest ih =>
      obtain ⟨j, hook⟩ := first
      rw [show (r.run ((j, hook) :: rest)).1 = ((r.apply j hook).1.run rest).1 from rfl, ih,
        getElem?_apply]
      by_cases e : j = i
      · subst e
        simp [hooksFor, Operation.run, Function.comp_def]
      · simp [hooksFor, e]

/-- The end of a request is the end of execution for each of its operations. -/
theorem operations_finish (r : Request) (now : Int) :
    (r.finish now).1.operations = r.operations.map fun o => (o.apply (.executed now)).1 := by
  have hall : ∀ operations : List Operation, (reportAll now operations).1
      = operations.map fun o => (o.apply (.executed now)).1 := by
    intro operations
    induction operations with
    | nil => rfl
    | cons o rest ih => rw [List.map_cons, ← ih]; rfl
  rw [← hall, show (r.finish now).1.operations = (reportAll now r.reportName.1.operations).1
    from rfl, r.reportName_spec.1]

end Request

namespace Endpoint

/-- Each request of a body becomes an operation with a tree of its own. -/
theorem getElem?_operations (e : Endpoint) (tree : Nat) (requests : List GraphTrace.Request)
    (i : Nat) : (e.operations tree requests).1[i]? = (requests[i]?).map fun request =>
      (Operation.receive e.config.reserved e.config.captureScalars (tree + i) request).1 := by
  induction requests generalizing tree i with
  | nil => rfl
  | cons request rest ih =>
      cases i with
      | zero => rfl
      | succ i =>
          rw [List.getElem?_cons_succ, show tree + (i + 1) = tree + 1 + i by omega, ← ih]
          rfl

/-- The operations received are those of the requests in the body. -/
theorem operations_receive (e : Endpoint) (tree : Nat) (route : String) (bytes : ByteArray) :
    (e.receive tree route bytes).1.operations
      = (e.operations tree (Body.requestsOf bytes)).1 := by
  unfold receive Body.requestsOf
  cases Body.ofBytes bytes with
  | ok body => exact congrArg Request.operations (Request.reportName_spec _).1
  | error error => exact congrArg Request.operations (Request.reportName_spec _).1

/-- An operation of a received request after a run. -/
theorem getElem?_run_receive (e : Endpoint) (tree : Nat) (route : String) (bytes : ByteArray)
    (hooks : List (Nat × Hook)) (i : Nat) :
    ((e.receive tree route bytes).1.run hooks).1.operations[i]?
      = ((Body.requestsOf bytes)[i]?).map fun request =>
        (Operation.receive e.config.reserved e.config.captureScalars (tree + i) request).1.run
          (hooksFor hooks i) := by
  rw [Request.getElem?_run, operations_receive, getElem?_operations, Option.map_map]
  rfl

end Endpoint

/-- The identifiers that the origins of several operations give after some hooks, in order. -/
def originNames (reserved : Naming.Reserved) (requests : List GraphTrace.Request)
    (hooks : List (Nat × Hook)) : List (Option Naming.Identifier) :=
  requests.mapIdx fun i request =>
    (origin? request (hooksFor hooks i)).map (·.identifier reserved)

theorem getElem?_originNames (reserved : Naming.Reserved) (requests : List GraphTrace.Request)
    (hooks : List (Nat × Hook)) (i : Nat) : (originNames reserved requests hooks)[i]?
      = (requests[i]?).map fun request =>
        (origin? request (hooksFor hooks i)).map (·.identifier reserved) := by
  rw [originNames, List.getElem?_mapIdx]

/-- The end of execution is no origin. -/
theorem origin?_executed (request : GraphTrace.Request) (earlier later : List Hook) (now : Int) :
    origin? request (earlier ++ .executed now :: later) = origin? request (earlier ++ later) := by
  simp [origin?, lastResolved?, firstParsed?, List.findSome?_append, List.findSome?_cons,
    Hook.resolved?, Hook.parsed?]

section Life

variable (e : Endpoint) (tree : Nat) (route : String) (bytes : ByteArray)

/-- **The identifiers after a run** are those of the origins. -/
theorem Endpoint.identifiers_run (hooks : List (Nat × Hook)) :
    ((e.receive tree route bytes).1.run hooks).1.operations.map (·.identifier?)
      = originNames e.config.reserved (Body.requestsOf bytes) hooks := by
  refine List.ext_getElem? fun i => ?_
  rw [List.getElem?_map, getElem?_run_receive, getElem?_originNames, Option.map_map]
  exact congrArg (Option.map · _) (funext fun request => Operation.identifier?_run_receive ..)

/-- The end of the request is no origin either, so the hooks before and after it make one
history. -/
theorem Endpoint.identifiers_late (before : List (Nat × Hook)) (now : Int)
    (after : List (Nat × Hook)) :
    (e.life tree route bytes before now after).late.1.operations.map (·.identifier?)
      = originNames e.config.reserved (Body.requestsOf bytes) (before ++ after) := by
  refine List.ext_getElem? fun i => ?_
  rw [List.getElem?_map, getElem?_originNames, hooksFor_append, life, Request.getElem?_run,
    Request.operations_finish, List.getElem?_map, getElem?_run_receive]
  simp only [Option.map_map]
  refine congrArg (Option.map · _) (funext fun request => ?_)
  rw [← origin?_executed request _ _ now, ← Operation.identifier?_run_receive
    e.config.reserved e.config.captureScalars (tree + i), Operation.run_append]
  rfl

/-- **What later hooks do to an identifier.**  Only a resolution replaces it, and a parsed document
counts only where there is none. -/
theorem Endpoint.identifier?_later (earlier later : List (Nat × Hook)) (i : Nat) :
    (((e.receive tree route bytes).1.run (earlier ++ later)).1.operations[i]?).map (·.identifier?)
      = (((e.receive tree route bytes).1.run earlier).1.operations[i]?).map fun o =>
        ((lastResolved? (hooksFor later i)).map (·.identifier e.config.reserved)).or
          (o.identifier?.or ((firstParsed? o.request.operationName (hooksFor later i)).map
            (·.identifier e.config.reserved))) := by
  rw [getElem?_run_receive, getElem?_run_receive, Option.map_map, Option.map_map]
  refine congrArg (Option.map · _) (funext fun request => ?_)
  simp only [Function.comp_apply, hooksFor_append, Operation.run_append]
  rw [Operation.identifier?_run, (Operation.request_run _ _).2,
    (Operation.request_receive _ _ _ _).2]

/-- **Precedence over any run.**  Before the end of a request and after it, the identifiers of its
operations are those of their origins: the last resolution, or else the request's own text, or else
the first document parsed that has the operation.  An identifier that is there never disappears:
later hooks replace it by a resolution or leave it. -/
theorem Endpoint.identifiers_of_origins (before : List (Nat × Hook)) (now : Int)
    (after : List (Nat × Hook)) :
    (e.life tree route bytes before now after).worked.1.operations.map (·.identifier?)
        = originNames e.config.reserved (Body.requestsOf bytes) before ∧
      (e.life tree route bytes before now after).late.1.operations.map (·.identifier?)
        = originNames e.config.reserved (Body.requestsOf bytes) (before ++ after) ∧
      ∀ (earlier later : List (Nat × Hook)) (i : Nat),
        (((e.receive tree route bytes).1.run (earlier ++ later)).1.operations[i]?).map
            (·.identifier?)
          = (((e.receive tree route bytes).1.run earlier).1.operations[i]?).map fun o =>
            ((lastResolved? (hooksFor later i)).map (·.identifier e.config.reserved)).or
              (o.identifier?.or ((firstParsed? o.request.operationName (hooksFor later i)).map
                (·.identifier e.config.reserved))) :=
  ⟨e.identifiers_run tree route bytes before,
    e.identifiers_late tree route bytes before now after, e.identifier?_later tree route bytes⟩

end Life

/-- `query Shelves { shelves { label } }` -/
def shelvesOperation : GraphTrace.Operation :=
  ⟨.query, some "Shelves", [.field none "shelves" [] [] [.field none "label" [] [] []]]⟩

/-- `query Library { authors { born } }` -/
def authorsOperation : GraphTrace.Operation :=
  ⟨.query, some "Library", [.field none "authors" [] [] [.field none "born" [] [] []]]⟩

/-- A request for the second operation of its text, one for an operation of that name without a
text, and one that gives neither. -/
def shelvesBatch : ByteArray :=
  ("[\x7b\"query\":\"query Shelves \x7b shelves \x7b label \x7d \x7d "
    ++ "query Library \x7b books \x7b title \x7d \x7d\",\"operationName\":\"Library\"\x7d,"
    ++ "\x7b\"operationName\":\"Library\"\x7d,{}]").toUTF8

/-- The documents that the host parses: the first one for the second request lacks its operation,
and the last one comes when it has a name. -/
def shelvesWork : List (Nat × Hook) :=
  [(0, .parsed ⟨[.operation authorsOperation]⟩), (1, .parsed ⟨[.operation shelvesOperation]⟩),
    (1, .parsed ⟨[.operation shelvesOperation, .operation libraryOperation]⟩),
    (1, .parsed ⟨[.operation authorsOperation]⟩),
    (2, .parsed ⟨[.operation shelvesOperation, .operation libraryOperation]⟩)]

/-- A request's own text counts before a parsed document, the first document that has the operation
before later ones, and a resolution before everything, also after the end. -/
theorem Endpoint.identifiers_shelves :
    (life ⟨{}⟩ 0 "/graphql" shelvesBatch shelvesWork 9
        [(0, .resolved ⟨[.operation authorsOperation]⟩ authorsOperation)]).worked.1.operations.map
          (·.identifier?)
      = [some ⟨"query/Library/books.title"⟩, some ⟨"query/Library/books.title"⟩,
        some ⟨"query/Shelves/shelves.label"⟩] ∧
    (life ⟨{}⟩ 0 "/graphql" shelvesBatch shelvesWork 9
        [(0, .resolved ⟨[.operation authorsOperation]⟩ authorsOperation)]).late.1.operations.map
          (·.identifier?)
      = [some ⟨"query/Library/authors.born"⟩, some ⟨"query/Library/books.title"⟩,
        some ⟨"query/Shelves/shelves.label"⟩] := by
  obtain ⟨hworked, hlate, -⟩ := identifiers_of_origins ⟨{}⟩ 0 "/graphql" shelvesBatch shelvesWork 9
    [(0, .resolved ⟨[.operation authorsOperation]⟩ authorsOperation)]
  rw [hworked, hlate]
  constructor
  · decide +kernel
  · decide +kernel

end Trace

end GraphTrace
