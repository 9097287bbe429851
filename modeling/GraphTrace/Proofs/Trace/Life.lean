import GraphTrace.Proofs.Trace.Attachment

/-!
# What the host is told over the life of a request

A request is received, hooks are forwarded to its operations, it ends, and hooks may still reach the
operations that outlive it (`Endpoint.life`).  Whatever the hooks are and however they interleave
(`host_is_told`):

* the name is told when the request is received, and once more at its end if it changed until then;
  no hook tells it, and the last name told is the one that the request ended with;
* the segments of each operation are attached once by the end of the request, under the identifier
  that the operation has then, unless the host closed them itself.  The end attaches those that are
  still open, in the order of the request, after the name;
* after the end nothing is told any more.
-/

namespace GraphTrace.Trace

/-! ### Telling the name -/

/-- A name is never empty, so the first one is always told. -/
theorem transactionName_ne_empty (route : String) (identifiers : List Naming.Identifier)
    (named : Bool) : Naming.transactionName route identifiers named ≠ "" := by
  -- There are two slashes behind the route, whatever follows them.
  have slashes : ∀ rest, route ++ "//" ++ rest ≠ "" := fun rest h => by
    have := congrArg String.length h
    simp at this
  unfold Naming.transactionName
  split
  · split <;> exact slashes _
  · exact slashes _

namespace Request

/-- **The name is told if it is not the one told last**, and is the one told last afterwards. -/
theorem reportName_spec (r : Request) :
    r.reportName.1 = { r with reported := r.transactionName } ∧
      told r.reportName.2
        = if r.reported = r.transactionName then [] else [.name r.transactionName] := by
  simp only [reportName]
  by_cases h : r.reported = r.transactionName
  · rw [if_pos h, if_pos h]
    exact ⟨by rw [← h], rfl⟩
  · rw [if_neg h, if_neg h]
    exact ⟨rfl, rfl⟩

/-! ### The end of a request -/

/-- The end reports what is still open, in order. -/
theorem told_reportAll (now : Int) (operations : List Operation) :
    told (reportAll now operations).2
      = (operations.filter (!·.segments.closed)).map (·.attachment now) := by
  induction operations with
  | nil => rfl
  | cons o rest ih =>
      rw [reportAll, told_append, ih, o.told_report]
      cases hc : o.segments.closed with
      | true => simp [hc]
      | false => simp [hc]

theorem closed_reportAll (now : Int) (operations : List Operation) :
    ∀ o ∈ (reportAll now operations).1, o.segments.closed = true := by
  induction operations with
  | nil => simp [reportAll]
  | cons o rest ih =>
      intro o' h
      rcases List.mem_cons.mp h with rfl | h
      · exact o.closed_report now
      · exact ih o' h

/-- **The end of a request** tells the name if it changed, and then attaches the segments that are
still open, in the order of the operations. -/
theorem told_finish (r : Request) (now : Int) : told (r.finish now).2
    = (if r.reported = r.transactionName then [] else [.name r.transactionName])
      ++ (r.operations.filter (!·.segments.closed)).map (·.attachment now) := by
  obtain ⟨hname, htold⟩ := r.reportName_spec
  rw [← htold, show (r.finish now).2 = r.reportName.2 ++ (reportAll now r.reportName.1.operations).2
    from rfl, told_append, told_reportAll, hname]

/-- The end tells the name if it changed since it was told last. -/
theorem names_finish (r : Request) (now : Int) : names (r.finish now).2
    = if r.reported = r.transactionName then [] else [r.transactionName] := by
  have hattached : ((r.operations.filter (!·.segments.closed)).map (·.attachment now)).filterMap
      HostCall.name? = [] := by
    rw [List.filterMap_map, List.filterMap_eq_nil_iff]
    exact fun _ _ => rfl
  rw [names, told_finish, List.filterMap_append, hattached, List.append_nil]
  split <;> rfl

/-- The name that a request ends with was told. -/
theorem reported_finish (r : Request) (now : Int) :
    (r.finish now).1.reported = r.transactionName := by
  rw [show (r.finish now).1.reported = r.reportName.1.reported from rfl, r.reportName_spec.1]

/-- No operation is open after the end. -/
theorem not_isOpen_finish (r : Request) (now : Int) (i : Nat) : ¬ (r.finish now).1.IsOpen i := by
  rintro ⟨o, ho, hc⟩
  have h := closed_reportAll now r.reportName.1.operations o (List.mem_of_getElem? ho)
  rw [h] at hc
  contradiction

/-- What the end attaches carries its text at the root. -/
theorem label_of_attach_finish {r : Request} {now : Int} {text : String} {root : Segment.Node}
    (h : .attach text root ∈ told (r.finish now).2) : root.label = text := by
  rw [told_finish] at h
  rcases List.mem_append.mp h with h | h
  · split at h <;> simp at h
  · obtain ⟨o, -, e⟩ := List.mem_map.mp h
    exact Operation.label_of_attachment e.symm

/-- Where all segments are closed, a run tells the host nothing. -/
theorem told_run_of_closed {r : Request} (h : ∀ i, ¬ r.IsOpen i) (hooks : List (Nat × Hook)) :
    told (r.run hooks).2 = [] := by
  rw [told_run, List.map_eq_nil_iff, List.eq_nil_iff_forall_not_mem]
  intro t ht
  have hof : t ∈ r.toldOf hooks t.index := List.mem_filter.mpr ⟨ht, by simp⟩
  rw [(closed_run (h t.index) hooks).2.1] at hof
  contradiction

/-- No hook tells a name. -/
theorem names_run (r : Request) (hooks : List (Nat × Hook)) : names (r.run hooks).2 = [] := by
  rw [names, told_run, List.filterMap_map, List.filterMap_eq_nil_iff]
  intro t ht
  obtain ⟨-, now, e⟩ := toldBy_attach ht
  exact congrArg HostCall.name? e

/-- A run has the operations it started with. -/
theorem exists_of_run {r : Request} {hooks : List (Nat × Hook)} {i : Nat} {o : Operation}
    (h : (r.run hooks).1.operations[i]? = some o) : ∃ o', r.operations[i]? = some o' := by
  induction hooks generalizing r with
  | nil => exact ⟨o, h⟩
  | cons first rest ih =>
      obtain ⟨o', ho'⟩ := ih (r := (r.apply first.1 first.2).1) h
      rw [getElem?_apply] at ho'
      split at ho'
      · obtain ⟨o'', ho'', -⟩ := Option.map_eq_some_iff.mp ho'
        exact ⟨o'', ho''⟩
      · exact ⟨o', ho'⟩

end Request

/-! ### The reception of a request -/

/-- An operation is received open. -/
theorem Operation.closed_receive (reserved : Naming.Reserved) (captures : Bool) (tree : Nat)
    (request : GraphTrace.Request) :
    (receive reserved captures tree request).1.segments.closed = false := by
  unfold receive
  split
  · rw [segments_nameFrom]
  · rfl

theorem Endpoint.closed_operations (e : Endpoint) (tree : Nat)
    (requests : List GraphTrace.Request) :
    ∀ o ∈ (e.operations tree requests).1, o.segments.closed = false := by
  induction requests generalizing tree with
  | nil => simp [operations]
  | cons request rest ih =>
      intro o h
      rcases List.mem_cons.mp h with rfl | h
      · exact Operation.closed_receive _ _ _ _
      · exact ih (tree + 1) o h

/-- **A received request** has open segments everywhere, and told the host its name and nothing
else. -/
theorem Endpoint.receive_spec (e : Endpoint) (tree : Nat) (route : String) (bytes : ByteArray) :
    (∀ o ∈ (e.receive tree route bytes).1.operations, o.segments.closed = false) ∧
      (e.receive tree route bytes).1.reported = (e.receive tree route bytes).1.transactionName ∧
      told (e.receive tree route bytes).2
        = [.name (e.receive tree route bytes).1.transactionName] := by
  obtain ⟨operations, events, hopen, hr, he⟩ : ∃ (operations : List Operation)
      (events : List Log.Event), (∀ o ∈ operations, o.segments.closed = false) ∧
      (e.receive tree route bytes).1 = (Request.reportName { route, operations }).1 ∧
      (e.receive tree route bytes).2
        = events.map .log ++ (Request.reportName { route, operations }).2 :=
    ⟨_, _, e.closed_operations tree _, rfl, rfl⟩
  obtain ⟨hname, htold⟩ := Request.reportName_spec { route, operations }
  have hne : (⟨route, operations, ""⟩ : Request).reported
      ≠ (⟨route, operations, ""⟩ : Request).transactionName :=
    Ne.symm (transactionName_ne_empty _ _ _)
  rw [hr, he, hname, told_append, told_map_log, htold, if_neg hne]
  exact ⟨hopen, rfl, rfl⟩

/-! ### The life of a request -/

/-- The life of a request: what it was and what it did when it was received, by the hooks that
followed, at its end, and by hooks on operations that outlived it. -/
structure Life where
  received : Request × List Effect
  worked : Request × List Effect
  ended : Request × List Effect
  late : Request × List Effect

namespace Life

/-- Everything that was done, in order. -/
def effects (l : Life) : List Effect := l.received.2 ++ l.worked.2 ++ l.ended.2 ++ l.late.2

/-- The name is told at the reception, and at the end if it changed in between. -/
structure TellsName (l : Life) : Prop where
  received : told l.received.2 = [.name l.received.1.transactionName]
  worked : names l.worked.2 = []
  ended : names l.ended.2 = if l.received.1.transactionName = l.worked.1.transactionName then []
    else [l.worked.1.transactionName]
  /-- The name that the request ended with is its name as of its end, and the last one told. -/
  last : l.ended.1.reported = l.worked.1.transactionName ∧
    (names l.effects).getLast? = some l.ended.1.reported

/-- The segments of an operation are attached once by the end of the request. -/
structure AttachesSegments (l : Life) (before : List (Nat × Hook)) (now : Int) : Prop where
  /-- Hooks attach the segments of their own operation, under the identifier it has then. -/
  worked : told l.worked.2 = (l.received.1.toldBy before).map (·.call) ∧
    ∀ t ∈ l.received.1.toldBy before, ∃ moment, t.call = t.operation.attachment moment
  /-- The end tells the name, and then attaches what is still open in the order of the request. -/
  ended : told l.ended.2 = (names l.ended.2).map .name
    ++ (l.worked.1.operations.filter (!·.segments.closed)).map (·.attachment now)
  once : ∀ {i : Nat} {o : Operation}, l.worked.1.operations[i]? = some o →
    ¬ l.received.1.ClosedByHost before i →
    (l.received.1.toldOf before i).length + (if o.segments.closed then 0 else 1) = 1
  never : ∀ {i : Nat}, l.received.1.ClosedByHost before i →
    l.received.1.toldOf before i = [] ∧ ¬ l.worked.1.IsOpen i
  /-- The root carries the text that the segments are attached under. -/
  labelled : ∀ {text : String} {root : Segment.Node}, .attach text root ∈ told l.effects →
    root.label = text
  late : told l.late.2 = []

end Life

/-- The life of a request that an endpoint receives, with the hooks before and after its end. -/
def Endpoint.life (e : Endpoint) (tree : Nat) (route : String) (bytes : ByteArray)
    (before : List (Nat × Hook)) (now : Int) (after : List (Nat × Hook)) : Life :=
  let received := e.receive tree route bytes
  let worked := received.1.run before
  let ended := worked.1.finish now
  ⟨received, worked, ended, ended.1.run after⟩

section Host

variable (e : Endpoint) (tree : Nat) (route : String) (bytes : ByteArray)
  (before : List (Nat × Hook)) (now : Int) (after : List (Nat × Hook))

/-- **The host is told the name** at the reception, and at the end if it changed. -/
theorem Endpoint.tellsName : (e.life tree route bytes before now after).TellsName := by
  obtain ⟨-, hreported, hreceived⟩ := e.receive_spec tree route bytes
  -- Only what the reception told and left matters from here on.
  rw [life]
  generalize e.receive tree route bytes = received at *
  have hworked := received.1.names_run before
  have hended := (received.1.run before).1.names_finish now
  have hlast := (received.1.run before).1.reported_finish now
  have hlate := ((received.1.run before).1.finish now).1.names_run after
  rw [(received.1.run_fixed before).2, hreported] at hended
  refine ⟨hreceived, hworked, hended, hlast, ?_⟩
  have hfirst : names received.2 = [received.1.transactionName] := by rw [names, hreceived]; rfl
  rw [Life.effects, names_append, names_append, names_append, hlate, hended, hworked, hfirst, hlast]
  split
  case isTrue h => rw [h]; rfl
  case isFalse h => rfl

/-- **The host is given the segments** of each operation once by the end. -/
theorem Endpoint.attachesSegments :
    (e.life tree route bytes before now after).AttachesSegments before now := by
  obtain ⟨hopen, -, hreceived⟩ := e.receive_spec tree route bytes
  rw [life]
  generalize e.receive tree route bytes = received at *
  have hworked := received.1.told_run before
  have hended := (received.1.run before).1.told_finish now
  have hlate := Request.told_run_of_closed ((received.1.run before).1.not_isOpen_finish now) after
  have hfirst : ∀ {i : Nat} {o : Operation}, (received.1.run before).1.operations[i]? = some o →
      received.1.IsOpen i := fun h => by
    obtain ⟨o, ho⟩ := Request.exists_of_run h
    exact ⟨o, ho, hopen o (List.mem_of_getElem? ho)⟩
  refine ⟨⟨hworked, fun t ht => (Request.toldBy_attach ht).2⟩, ?_,
    fun ho => Request.once_of_not_closedByHost (hfirst ho) ho, Request.never_of_closedByHost,
    fun {text root} h => ?_, hlate⟩
  · rw [hended, (received.1.run before).1.names_finish now]
    split <;> rfl
  · rw [Life.effects, told_append, told_append, told_append, hreceived, hlate, List.append_nil] at h
    rcases List.mem_append.mp h with h | h
    · rcases List.mem_append.mp h with h | h
      · simp at h
      · exact Request.label_of_attach_run h
    · exact Request.label_of_attach_finish h

/-- **What the host is told over the life of a request.**  The name is told at the reception, and at
the end if it changed until then.  The segments of each operation are attached once by the end,
under the identifier it has then, unless the host closed them itself.  Nothing is told after the
end. -/
theorem Endpoint.host_is_told : (e.life tree route bytes before now after).TellsName ∧
    (e.life tree route bytes before now after).AttachesSegments before now :=
  ⟨e.tellsName tree route bytes before now after,
    e.attachesSegments tree route bytes before now after⟩

end Host

/-- `query Library { books { title } }` -/
def libraryOperation : GraphTrace.Operation :=
  ⟨.query, some "Library", [.field none "books" [] [] [.field none "title" [] [] []]]⟩

/-- A request with this operation as its text, and two without a text. -/
def libraryBatch : ByteArray :=
  "[\x7b\"query\":\"query Library \x7b books \x7b title \x7d \x7d\"\x7d,{},{}]".toUTF8

/-- The first operation completes twice; the host closes the tree of the third, which the engine
resolves only then. -/
def libraryWork : List (Nat × Hook) :=
  [(0, .segment (.start ⟨[.key "books"]⟩ false 3)), (0, .executed 5),
    (2, .segment (.finish "own" 6)),
    (2, .resolved ⟨[.operation libraryOperation]⟩ libraryOperation), (0, .executed 7)]

/-- What comes too late for the second operation. -/
def lateWork : List (Nat × Hook) :=
  [(1, .resolved ⟨[.operation libraryOperation]⟩ libraryOperation), (1, .executed 12)]

/-- The life of this batch under a configuration that changes nothing. -/
def libraryLife : Life := Endpoint.life ⟨{}⟩ 0 "/graphql" libraryBatch libraryWork 9 lateWork

/-- What the host is told in that life: the name, the tree of the first operation when it completes,
and at the end the new name and the tree of the second. -/
theorem Endpoint.host_is_told_library : libraryLife.TellsName ∧
    libraryLife.AttachesSegments libraryWork 9 ∧
    told libraryLife.received.2 = [.name "/graphql//batch/query/Library/books.title/*/*"] ∧
    told libraryLife.worked.2 = [.attach "query/Library/books.title"
      ⟨"query/Library/books.title", .operation, some 2, [⟨"books", .resolver, none, []⟩]⟩] ∧
    told libraryLife.ended.2
      = [.name "/graphql//batch/query/Library/books.title/*/query/Library/books.title",
        .attach "*" ⟨"*", .operation, none, []⟩] ∧
    told libraryLife.late.2 = [] := by
  obtain ⟨hname, hattach⟩ := host_is_told ⟨{}⟩ 0 "/graphql" libraryBatch libraryWork 9 lateWork
  refine ⟨hname, hattach, ?_, ?_, ?_, hattach.late⟩
  · decide +kernel
  · decide +kernel
  · decide +kernel

end GraphTrace.Trace
