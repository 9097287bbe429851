import GraphTrace.Document.Parse
import GraphTrace.Naming.Identifier
import GraphTrace.Request.Basic
import GraphTrace.Segment.Call

/-!
# Tracing one operation

The state of one operation of a request: its name as far as it is known, and its segments.  A name
comes from the request's own text, from a document that the host parsed, or from the operation that
the engine resolved.  The last of these always counts (`KnownName.resolved`); the others count only
as long as there is no name.

What tracing does to the world is a list of effects in order: events to log, and calls on the host.
-/

namespace GraphTrace.Trace

/-- What the host is told. -/
inductive HostCall where
  /-- Names the work that the request is reported under. -/
  | name (transaction : String)
  /-- Attaches the finished segments of an operation. -/
  | attach (operation : String) (segments : Segment.Node)
deriving DecidableEq

/-- One effect. -/
inductive Effect where
  | log (event : Log.Event)
  | tell (call : HostCall)

/-- What is known of an operation's name. -/
inductive KnownName where
  | unavailable
  /-- Named from a document before the engine resolved the operation. -/
  | parsed (identifier : Naming.Identifier)
  /-- Named from the operation that the engine resolved. -/
  | resolved (identifier : Naming.Identifier)
deriving DecidableEq, Repr

/-- The identifier, if there is one. -/
def KnownName.identifier? : KnownName → Option Naming.Identifier
  | .unavailable                              => none
  | .parsed identifier | .resolved identifier => some identifier

/-- Why an operation has no name yet. -/
inductive Unnamed where
  | noQuery
  | noDocument
deriving DecidableEq, Repr

/-- The wording of a reason, without what a parser has to say about the text. -/
def Unnamed.message : Unnamed → String
  | .noQuery    => "request has no query text"
  | .noDocument => "query could not be parsed"

/-- The document in the text of a request. -/
def documentOf (r : Request) : Except Unnamed Document :=
  match r.query with
  | none      => .error .noQuery
  | some text =>
    match Document.parse? text with
    | none          => .error .noDocument
    | some document => .ok document

/-- The tracing state of one operation. -/
structure Operation where
  request : Request
  reserved : Naming.Reserved
  name : KnownName
  segments : Segment.Tree

/-- What the host forwards to an operation. -/
inductive Hook where
  /-- The host parsed the request's document. -/
  | parsed (document : Document)
  /-- The engine resolved the operation of a document. -/
  | resolved (document : Document) (operation : GraphTrace.Operation)
  /-- Execution completed at an instant. -/
  | executed (now : Int)
  /-- A call on the operation's segments. -/
  | segment (call : Segment.Call)

namespace Operation

/-- Names an operation that has no name yet from a document, if the document has the operation the
request selects. -/
def nameFrom (o : Operation) (document : Document) : Operation × List Log.Event :=
  match document.nameSelected o.reserved o.request.operationName with
  | some named => ({ o with name := .parsed named.identifier }, named.events)
  | none       => (o, [])

/-- The operation of a request just received, named from the request's text if that is possible. -/
def receive (reserved : Naming.Reserved) (capturesScalars : Bool) (tree : Nat) (request : Request) :
    Operation × List Log.Event :=
  let unnamed : Operation := ⟨request, reserved, .unavailable, { id := tree, capturesScalars }⟩
  match documentOf request with
  | .ok document  => unnamed.nameFrom document
  | .error reason =>
    (unnamed, [⟨.debug, "operation cannot be named yet", [("reason", reason.message)]⟩])

/-- The best identifier known so far. -/
def identifier? (o : Operation) : Option Naming.Identifier := o.name.identifier?

/-- The identifier as it is reported: `*` if there is none. -/
def identifier (o : Operation) : Naming.Identifier := o.identifier?.getD .unavailable

/-- The host parsed the request's document. An operation that has a name keeps it. -/
def parsed (o : Operation) (document : Document) : Operation × List Log.Event :=
  match o.name with
  | .unavailable => o.nameFrom document
  | _            => (o, [])

/-- The engine resolved the operation. Its name wins over every other. -/
def resolved (o : Operation) (document : Document) (operation : GraphTrace.Operation) :
    Operation × List Log.Event :=
  let named := document.nameOperation o.reserved operation
  ({ o with name := .resolved named.identifier }, named.events)

/-- Closes the operation's segments under its identifier and hands them to the host, unless they
are closed already. -/
def report (o : Operation) (now : Int) : Operation × List Effect :=
  let finished := o.segments.finish o.identifier.text now
  ({ o with segments := finished.tree },
    finished.answer.toList.map fun segments => .tell (.attach o.identifier.text segments))

/-- A call on the operation's segments. -/
def onSegments (o : Operation) (call : Segment.Call) :
    Operation × Segment.Answer × List Log.Event :=
  let outcome := o.segments.apply call
  ({ o with segments := outcome.tree }, outcome.answer, outcome.events)

/-- Applies a hook. -/
def apply (o : Operation) : Hook → Operation × List Effect
  | .parsed document =>
    let (o, events) := o.parsed document
    (o, events.map .log)
  | .resolved document operation =>
    let (o, events) := o.resolved document operation
    (o, events.map .log)
  | .executed now => o.report now
  | .segment call =>
    let (o, _, events) := o.onSegments call
    (o, events.map .log)

end Operation

end GraphTrace.Trace
