import GraphTrace.Config.Json
import GraphTrace.Config.Schema
import GraphTrace.Config.Yaml
import GraphTrace.Naming.Transaction
import GraphTrace.Trace.Reporter
import GraphTrace.Trace.Request
import GraphTrace.Proofs.Naming.Rewrite
import GraphTrace.Proofs.Request.Format
import GraphTrace.Proofs.Json.RoundTrip
import GraphTrace.Proofs.Segment.RootSpan
import GraphTrace.Proofs.Segment.Nesting
import GraphTrace.Proofs.Segment.Forest
import GraphTrace.Proofs.Segment.Order
import GraphTrace.Proofs.Segment.Rooted
import GraphTrace.Proofs.Trace.Life
import GraphTrace.Proofs.Trace.Unambiguous
import GraphTrace.Proofs.Request.Encoding
import GraphTrace.Proofs.Trace.Independent
import GraphTrace.Proofs.Segment.Refusal
import GraphTrace.Proofs.Naming.Outline
import GraphTrace.Proofs.Naming.Reserving
import GraphTrace.Proofs.Naming.Reading
import GraphTrace.Proofs.Segment.Late
import GraphTrace.Proofs.Segment.Keys
import GraphTrace.Proofs.Response.Encoding
import GraphTrace.Proofs.Trace.Reporting
