import GraphTrace.Config.Basic
import GraphTrace.Naming.Transaction
import GraphTrace.Request.Body
import GraphTrace.Trace.Operation

/-!
# Tracing one request

A request is traced from its body: one operation per GraphQL request in it, in order, and none if
the body cannot be read.  The host is told the request's name when it is received, and again at its
end if the name changed in between; then every operation that did not attach its segments yet does
so.
-/

namespace GraphTrace.Trace

/-- The tracing state of one request. -/
structure Request where
  route : String
  operations : List Operation
  /-- The name that the host was told last. -/
  reported : String := ""

namespace Request

/-- The identifiers of the operations, `*` for those without one. -/
def identifiers (r : Request) : List Naming.Identifier := r.operations.map (·.identifier)

/-- The name of the request as of now. -/
def transactionName (r : Request) : String :=
  Naming.transactionName r.route r.identifiers (r.operations.any (·.identifier?.isSome))

/-- Tells the host the name of the request, unless it was the last one told. -/
def reportName (r : Request) : Request × List Effect :=
  let name := r.transactionName
  if r.reported = name then (r, [])
  else
    ({ r with reported := name },
      [.log ⟨.debug, "naming transaction", [("transaction.name", name)]⟩, .tell (.name name)])

/-- Reports the segments of several operations, in order. -/
def reportAll (now : Int) : List Operation → List Operation × List Effect
  | []        => ([], [])
  | o :: rest =>
    let (o, effects) := o.report now
    let (rest, more) := reportAll now rest
    (o :: rest, effects ++ more)

/-- Ends the request. -/
def finish (r : Request) (now : Int) : Request × List Effect :=
  let (r, named) := r.reportName
  let (operations, attached) := reportAll now r.operations
  ({ r with operations }, named ++ attached)

/-- Applies a hook to one operation of the request; there is no effect where there is no such
operation. -/
def apply (r : Request) (operation : Nat) (hook : Hook) : Request × List Effect :=
  match r.operations[operation]? with
  | none   => (r, [])
  | some o =>
    let (o, effects) := o.apply hook
    ({ r with operations := r.operations.set operation o }, effects)

end Request

/-- Tracing for one endpoint, under a valid configuration. -/
structure Endpoint where
  config : Config
deriving DecidableEq, Repr

namespace Endpoint

/-- The endpoint for a configuration, if that is valid. -/
def ofConfig (c : Config) : Except Config.Error Endpoint := c.validate.map Endpoint.mk

/-- The operations of several requests, with trees numbered from `tree` on. -/
def operations (e : Endpoint) (tree : Nat) :
    List GraphTrace.Request → List Operation × List Log.Event
  | []              => ([], [])
  | request :: rest =>
    let (o, events) := Operation.receive e.config.reserved e.config.captureScalars tree request
    let (others, more) := e.operations (tree + 1) rest
    (o :: others, events ++ more)

/-- Starts to trace a request received under a route prefix. Its trees are numbered from `tree`
on. -/
def receive (e : Endpoint) (tree : Nat) (route : String) (bytes : ByteArray) :
    Request × List Effect :=
  let (requests, unread) : List GraphTrace.Request × List Log.Event :=
    match Body.ofBytes bytes with
    | .ok body     => (body.requests, [])
    | .error error =>
      ([], [⟨.debug, "could not read GraphQL requests from the body", [("error", error.message)]⟩])
  let (operations, events) := e.operations tree requests
  let (request, named) := Request.reportName { route, operations }
  (request, (unread ++ events).map .log ++ named)

end Endpoint

end GraphTrace.Trace
