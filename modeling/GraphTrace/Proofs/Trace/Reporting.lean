import GraphTrace.Proofs.Duration.Worth
import GraphTrace.Proofs.Json.RoundTrip
import GraphTrace.Trace.Reporter

/-!
# Reported segments

The reporter puts a finished tree into the log as one JSON text, and the text tells the tree
(`text_of_segments_iff`): the label, the kind, the duration and the segments below, in order and at
every level.

A segment is written as an object of distinct keys, whatever its depth, so the text tells the value
(`exists_canonical`).  The value tells the segment (`Node.toJson_injective`): a missing duration is
null and any other one is a string of its words, and the children are missing just if there are
none.
-/

namespace GraphTrace.Segment

/-! ### Kinds and durations -/

/-- Kinds are told apart by their names. -/
theorem Kind.text_injective : Function.Injective Kind.text := by
  intro k k' h
  cases k <;> cases k' <;> first | rfl | exact absurd h (by decide)

namespace Node

/-- A duration as JSON. -/
def durationJson (duration : Option Nat) : Json :=
  (duration.map fun d => .string (Duration.text d)).getD .null

/-- Durations are told apart in JSON, and from a missing one. -/
theorem durationJson_injective : Function.Injective durationJson := by
  intro d d' h
  cases d with
  | none =>
      cases d' with
      | none => rfl
      | some b => contradiction
  | some a =>
      cases d' with
      | none => contradiction
      | some b => rw [Duration.text_injective (Json.string.inj h)]

/-- A duration can be read back. -/
theorem canonical_durationJson (duration : Option Nat) (limit : Nat) :
    Json.Canonical limit (durationJson duration) := by
  cases duration with
  | none => exact .null
  | some d => exact .string _

/-- The member for the segments below one. -/
def childMembers (children : List Node) : List (String × Json) :=
  if children.isEmpty then [] else [("children", .array (toJsonAll children))]

/-- The members of a segment as JSON. -/
theorem toJson_eq (label : String) (kind : Kind) (duration : Option Nat) (children : List Node) :
    toJson ⟨label, kind, duration, children⟩
      = .object ([("label", .string label), ("kind", .string kind.text),
          ("duration", durationJson duration)] ++ childMembers children) := by
  rw [toJson]
  rfl

/-! ### Segments as JSON -/

/-- The children are told by their member, if the items of an array tell them. -/
theorem eq_of_childMembers {cs cs' : List Node} (h : childMembers cs = childMembers cs')
    (hall : toJsonAll cs = toJsonAll cs' → cs = cs') : cs = cs' := by
  cases cs with
  | nil =>
      cases cs' with
      | nil => rfl
      | cons => contradiction
  | cons =>
      cases cs' with
      | nil => contradiction
      | cons => exact hall (Json.array.inj (Prod.mk.inj (List.cons.inj h).1).2)

mutual

/-- **What a segment is written as** tells the segment. -/
theorem toJson_injective : ∀ {n m : Node}, n.toJson = m.toJson → n = m
  | ⟨label, kind, duration, children⟩, ⟨label', kind', duration', children'⟩, h => by
      rw [toJson_eq, toJson_eq] at h
      simp only [Json.object.injEq, List.cons_append, List.nil_append, List.cons.injEq,
        Prod.mk.injEq, Json.string.injEq, true_and] at h
      obtain ⟨hlabel, hkind, hduration, hchildren⟩ := h
      rw [hlabel, Kind.text_injective hkind, durationJson_injective hduration,
        eq_of_childMembers hchildren toJsonAll_injective]

/-- What several segments are written as tells the segments. -/
theorem toJsonAll_injective : ∀ {ns ms : List Node}, toJsonAll ns = toJsonAll ms → ns = ms
  | [], [], _ => rfl
  | n :: ns, m :: ms, h => by
      simp only [toJsonAll, List.cons.injEq] at h
      rw [toJson_injective h.1, toJsonAll_injective h.2]
  | [], _ :: _, h | _ :: _, [], h => by simp [toJsonAll] at h

end

/-- Children are one more member, or none. -/
theorem keys_childMembers (children : List Node) :
    ((childMembers children).map (·.1)).Sublist ["children"] := by
  unfold childMembers
  split
  · exact List.nil_sublist _
  · exact List.Sublist.refl _

/-- A segment is written as a canonical value if those below it are. -/
theorem canonical_of_children {limit : Nat} {label : String} {kind : Kind} {duration : Option Nat}
    {children : List Node} (h : ∀ v ∈ toJsonAll children, Json.Canonical limit v) :
    Json.Canonical (limit + 2) (toJson ⟨label, kind, duration, children⟩) := by
  have hkeys : (["label", "kind", "duration"] ++ (childMembers children).map (·.1)).Nodup :=
    ((keys_childMembers children).append_left _).nodup (by decide)
  have hmembers : ∀ m ∈ childMembers children, Json.Canonical (limit + 1) m.2 := by
    unfold childMembers
    split
    · exact List.forall_mem_nil _
    · exact List.forall_mem_singleton.mpr (.array h)
  rw [toJson_eq]
  refine .object hkeys fun m hm => ?_
  simp only [List.cons_append, List.nil_append, List.mem_cons] at hm
  rcases hm with rfl | rfl | rfl | hm
  · exact .string label
  · exact .string kind.text
  · exact canonical_durationJson duration _
  · exact hmembers m hm

mutual

/-- A segment is written as a canonical value, which is as deep as the segment. -/
theorem exists_canonical : ∀ n : Node, ∃ limit, Json.Canonical limit n.toJson
  | ⟨_, _, _, children⟩ => by
      obtain ⟨limit, h⟩ := exists_canonicalAll children
      exact ⟨limit + 2, canonical_of_children h⟩

/-- Several segments are written as canonical values. -/
theorem exists_canonicalAll :
    ∀ ns : List Node, ∃ limit, ∀ v ∈ toJsonAll ns, Json.Canonical limit v
  | [] => ⟨0, List.forall_mem_nil _⟩
  | n :: ns => by
      obtain ⟨limit, hn⟩ := exists_canonical n
      obtain ⟨limit', hns⟩ := exists_canonicalAll ns
      refine ⟨max limit limit', List.forall_mem_cons.mpr ⟨hn.mono (le_max_left _ _), ?_⟩⟩
      exact fun v hv => (hns v hv).mono (le_max_right _ _)

end

/-- **The text of a segment** tells the segment. -/
theorem text_toJson_injective {n m : Node} (h : n.toJson.text = m.toJson.text) : n = m := by
  obtain ⟨limit, hn⟩ := exists_canonical n
  obtain ⟨limit', hm⟩ := exists_canonical m
  exact toJson_injective (Json.text_injective (hn.mono (le_max_left limit limit'))
    (hm.mono (le_max_right limit limit')) h)

end Node

end GraphTrace.Segment

namespace GraphTrace.Trace.Reporter

open Segment (Node)

/-- The segments in the event for a call on the host. -/
def segmentsField? (call : HostCall) : Option String := (event call).fields.lookup "segments"

/-- The event of an attachment carries the tree as text. -/
theorem segmentsField?_attach (operation : String) (n : Node) :
    segmentsField? (.attach operation n) = some n.toJson.text := rfl

/-- **Reported trees lose nothing.**  Whatever operations they are reported for, two finished trees
have one text in the log just if they are the same tree. -/
theorem text_of_segments_iff (operation operation' : String) (n m : Node) :
    segmentsField? (.attach operation n) = segmentsField? (.attach operation' m) ↔ n = m := by
  rw [segmentsField?_attach, segmentsField?_attach, Option.some.injEq]
  exact ⟨Node.text_toJson_injective, congrArg fun n : Node => n.toJson.text⟩

end GraphTrace.Trace.Reporter
