import GraphTrace.Proofs.Segment.History
import GraphTrace.Trace.Request

/-!
# Runs of hooks

The host forwards hooks to the operations of a request in any order.  A run applies them one after
the other (`Request.run`) and collects what they do; of this, `told` keeps the calls on the host.

A hook changes its own operation and no other (`getElem?_apply`), and nothing else of the request
(`run_fixed`).  It closes the segments of its operation or leaves them as open as they were
(`closed_apply`), and it tells the host something only where it ends the execution of an operation
whose segments are open (`told_executed`, `told_apply_of_ne`).
-/

namespace GraphTrace.Trace

/-! ### What the host is told -/

/-- The call on the host that an effect is, if it is one. -/
def Effect.call? : Effect → Option HostCall
  | .log _     => none
  | .tell call => some call

/-- The calls on the host among some effects, in order. -/
def told (effects : List Effect) : List HostCall := effects.filterMap Effect.call?

/-- The name that a call on the host tells. -/
def HostCall.name? : HostCall → Option String
  | .name transaction => some transaction
  | .attach _ _       => none

/-- The names that the host is told, in order. -/
def names (effects : List Effect) : List String := (told effects).filterMap HostCall.name?

theorem told_append (a b : List Effect) : told (a ++ b) = told a ++ told b :=
  List.filterMap_append

theorem names_append (a b : List Effect) : names (a ++ b) = names a ++ names b := by
  rw [names, told_append, List.filterMap_append, names, names]

/-- An event of the log tells the host nothing. -/
theorem told_map_log (events : List Log.Event) : told (events.map .log) = [] := by
  rw [told, List.filterMap_map]
  exact List.filterMap_eq_nil_iff.mpr fun _ _ => rfl

/-! ### One hook on one operation -/

/-- Whether a hook closes the segments of its operation. -/
def Hook.closes : Hook → Bool
  | .executed _ | .segment (.finish _ _) => true
  | _                                    => false

/-- The text that an operation is reported under: its identifier, or `*` if it has none. -/
def memberText (identifier? : Option Naming.Identifier) : String :=
  (identifier?.map (·.text)).getD "*"

namespace Operation

/-- An identifier is reported as a member of a batch is. -/
theorem text_identifier (o : Operation) : o.identifier.text = memberText o.identifier? := by
  rw [identifier, memberText]
  cases o.identifier? <;> rfl

/-- The call that hands the segments of an operation to the host. -/
def attachment (o : Operation) (now : Int) : HostCall :=
  .attach (memberText o.identifier?) (o.segments.snapshot (memberText o.identifier?) now)

/-- The root of what is attached carries the text that it is attached under. -/
theorem label_of_attachment {o : Operation} {now : Int} {text : String} {root : Segment.Node}
    (h : .attach text root = o.attachment now) : root.label = text := by
  obtain ⟨rfl, rfl⟩ := HostCall.attach.inj h
  rfl

/-- A report attaches the segments if they are open. -/
theorem told_report (o : Operation) (now : Int) : told (o.report now).2
    = if o.segments.closed then [] else [o.attachment now] := by
  rw [report, o.text_identifier]
  cases h : o.segments.closed with
  | true => simp [Segment.Tree.finish, h, Segment.Tree.refuse, told]
  | false => simp [Segment.Tree.finish, h, told, Effect.call?, attachment]

theorem closed_report (o : Operation) (now : Int) : (o.report now).1.segments.closed = true := by
  rw [report, Segment.Tree.finish_tree]

/-- The end of execution hands open segments to the host. -/
theorem told_executed (o : Operation) (now : Int) : told (o.apply (.executed now)).2
    = if o.segments.closed then [] else [o.attachment now] :=
  o.told_report now

/-- Every other hook tells the host nothing. -/
theorem told_apply_of_ne (o : Operation) {hook : Hook} (h : ∀ now, hook ≠ .executed now) :
    told (o.apply hook).2 = [] := by
  cases hook with
  | parsed document => exact told_map_log _
  | resolved document operation => exact told_map_log _
  | executed now => exact absurd rfl (h now)
  | segment call => exact told_map_log _

/-- Naming leaves the segments. -/
theorem segments_nameFrom (o : Operation) (document : Document) :
    (o.nameFrom document).1.segments = o.segments := by
  unfold nameFrom
  split <;> rfl

theorem segments_parsed (o : Operation) (document : Document) :
    (o.parsed document).1.segments = o.segments := by
  unfold parsed
  split
  · exact o.segments_nameFrom document
  · rfl

/-- **A hook closes the segments of its operation, or leaves them as open as they were.** -/
theorem closed_apply (o : Operation) (hook : Hook) :
    (o.apply hook).1.segments.closed = (o.segments.closed || hook.closes) := by
  cases hook with
  | parsed document =>
      rw [show (o.apply (.parsed document)).1.segments = o.segments from o.segments_parsed document]
      exact (Bool.or_false _).symm
  | resolved document operation => exact (Bool.or_false _).symm
  | executed now => exact (o.closed_report now).trans (Bool.or_true _).symm
  | segment call =>
      have hopen : ¬ call.Finishes → (o.segments.apply call).tree.closed = o.segments.closed :=
        fun h => (o.segments.apply_fixed h).2.2
      cases call with
      | finish label now =>
          have h := congrArg Segment.Tree.closed (o.segments.finish_tree label now)
          exact h.trans (Bool.or_true _).symm
      | _ => exact (hopen id).trans (Bool.or_false _).symm

end Operation

/-! ### Hooks on a request -/

namespace Request

/-- What a run of hooks, each for one operation, does to a request. -/
def run (r : Request) : List (Nat × Hook) → Request × List Effect
  | []                => (r, [])
  | (i, hook) :: rest =>
    let (r, effects) := r.apply i hook
    let (r, more) := r.run rest
    (r, effects ++ more)

section

variable (r : Request) (i : Nat) (hook : Hook)

/-- A hook changes its own operation alone. -/
theorem getElem?_apply (j : Nat) : (r.apply i hook).1.operations[j]?
    = if i = j then (r.operations[j]?).map fun o => (o.apply hook).1 else r.operations[j]? := by
  unfold apply
  split
  case h_1 h =>
    by_cases e : i = j
    · subst e
      rw [if_pos rfl, h, Option.map_none]
    · rw [if_neg e]
  case h_2 o h =>
    rw [List.getElem?_set]
    by_cases e : i = j
    · subst e
      rw [if_pos rfl, if_pos rfl, h, if_pos (List.getElem?_eq_some_iff.mp h).1, Option.map_some]
    · rw [if_neg e, if_neg e]

/-- A hook leaves the route and the name that was told. -/
theorem apply_fixed :
    (r.apply i hook).1.route = r.route ∧ (r.apply i hook).1.reported = r.reported := by
  unfold apply
  split <;> exact ⟨rfl, rfl⟩

end

/-- A run changes nothing but operations. -/
theorem run_fixed (r : Request) (hooks : List (Nat × Hook)) :
    (r.run hooks).1.route = r.route ∧ (r.run hooks).1.reported = r.reported := by
  induction hooks generalizing r with
  | nil => exact ⟨rfl, rfl⟩
  | cons first rest ih =>
      obtain ⟨hroute, hname⟩ := r.apply_fixed first.1 first.2
      obtain ⟨hroute', hname'⟩ := ih (r.apply first.1 first.2).1
      exact ⟨hroute'.trans hroute, hname'.trans hname⟩

end Request

end GraphTrace.Trace
