import GraphTrace.Json.Printer
import GraphTrace.Trace.Operation

/-!
# Reporting through the log

A host that turns what it is told into log events: names as they are, and segments as one JSON
text.  It also records the name on the span around it, if that span declares the field.
-/

namespace GraphTrace.Trace.Reporter

/-- The field that holds the name of a request. -/
def transactionField : String := "transaction.name"

/-- The event for a call on the host. -/
def event : HostCall → Log.Event
  | .name transaction => ⟨.info, "transaction named", [(transactionField, transaction)]⟩
  | .attach operation segments =>
    ⟨.info, "operation segments",
      [("operation.name", operation), ("segments", segments.toJson.text)]⟩

/-- What a call on the host records on a span that declares the fields for it. -/
def recorded : HostCall → List (String × String)
  | .name transaction => [(transactionField, transaction)]
  | .attach _ _       => []

end GraphTrace.Trace.Reporter
