import GraphTrace.Duration
import GraphTrace.Json.Value

/-!
# Finished segments

A finished tree of segments: what each measured, how long it took if it ended, and the segments
below it in the order in which they were recorded.
-/

namespace GraphTrace.Segment

/-- What a segment measures. -/
inductive Kind where
  /-- An operation as a whole: the root. -/
  | operation
  /-- The resolver of one field. -/
  | resolver
  /-- A level of the response for which no resolution was reported. -/
  | synthetic
  /-- Work started by a resolver. -/
  | nested
deriving DecidableEq, Repr

/-- The name of a kind. -/
def Kind.text : Kind → String
  | .operation => "operation"
  | .resolver  => "resolver"
  | .synthetic => "synthetic"
  | .nested    => "nested"

/-- A finished segment and those below it; durations are in nanoseconds. -/
structure Node where
  label : String
  kind : Kind
  duration : Option Nat
  children : List Node

namespace Node

mutual

/-- Decides whether two finished segments are the same. -/
def decEq : (n m : Node) → Decidable (n = m)
  | ⟨label, kind, duration, ns⟩, ⟨label', kind', duration', ms⟩ =>
    have := decEqAll ns ms
    decidable_of_iff (label = label' ∧ kind = kind' ∧ duration = duration' ∧ ns = ms)
      (Iff.of_eq (mk.injEq ..).symm)

/-- Decides whether two lists of finished segments are the same. -/
def decEqAll : (ns ms : List Node) → Decidable (ns = ms)
  | [],      []      => isTrue rfl
  | [],      _ :: _  => isFalse nofun
  | _ :: _,  []      => isFalse nofun
  | n :: ns, m :: ms =>
    have := n.decEq m
    have := decEqAll ns ms
    decidable_of_iff (n = m ∧ ns = ms) (Iff.of_eq (List.cons.injEq ..).symm)

end

instance : DecidableEq Node := decEq

mutual

/-- The first segment with this label, looking below a segment before looking beside it. -/
def find? (label : String) : Node → Option Node
  | ⟨l, kind, duration, children⟩ =>
    if l == label then some ⟨l, kind, duration, children⟩ else findAmong? label children

/-- The same among several segments. -/
def findAmong? (label : String) : List Node → Option Node
  | []        => none
  | n :: rest => (n.find? label).or (findAmong? label rest)

end

mutual

/-- How many segments there are, this one included. -/
def count : Node → Nat
  | ⟨_, _, _, children⟩ => 1 + countAll children

/-- How many segments several have together. -/
def countAll : List Node → Nat
  | []        => 0
  | n :: rest => n.count + countAll rest

end

mutual

/-- One line per segment, each level two spaces further in. -/
def outline (depth : Nat) : Node → String
  | ⟨label, _, _, children⟩ =>
    String.ofList (List.replicate (2 * depth) ' ') ++ label ++ "\n"
      ++ outlineAll (depth + 1) children

/-- The outlines of several segments, one after the other. -/
def outlineAll (depth : Nat) : List Node → String
  | []        => ""
  | n :: rest => n.outline depth ++ outlineAll depth rest

end

mutual

/-- A segment as JSON. A missing duration is null, and missing children are left out. -/
def toJson : Node → Json
  | ⟨label, kind, duration, children⟩ =>
    .object <|
      [("label", .string label), ("kind", .string kind.text),
        ("duration", (duration.map fun d => .string (Duration.text d)).getD .null)]
      ++ if children.isEmpty then [] else [("children", .array (toJsonAll children))]

/-- Several segments as JSON. -/
def toJsonAll : List Node → List Json
  | []        => []
  | n :: rest => n.toJson :: toJsonAll rest

end

end Node

end GraphTrace.Segment
