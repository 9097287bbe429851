import GraphTrace.Proofs.Segment.Refusal

/-!
# Late calls

Work may go on after its operation was finished, and the tree then hears of it late.  A call that an
open tree would take up (`Tree.TakesUp`) finds it closed: the tree stays as it is and nothing is
answered (`apply_closed`).  Whether it shows in the log depends on how the call names its segment.

* A call about a path leaves one debug event, about that path (`late_call`).
* A call with a handle leaves none, so late ends of nested work and late work inside it go
  unnoticed (`not_forall_noted`).
-/

namespace GraphTrace.Segment

open Response (Path)

namespace Tree

/-- Whether an open tree would take up a call: a resolution has a path and is captured, and a handle
is one of this tree. -/
def TakesUp (t : Tree) : Call → Prop
  | .start path leaf _ | .record path leaf _ _ => t.Accepts path leaf
  | .nestedIn h _ _ | .close h _               => h.tree = t.id
  | .stop _ _ | .nested _ _ _                  => True
  | .finish _ _                                => False

/-- A call is ignored and noted: the tree stays, nothing is answered, and one debug event is
logged. -/
structure Noted (t : Tree) (call : Call) : Prop where
  tree : (t.apply call).tree = t
  answer : (t.apply call).answer.Empty
  event : ∃ e, (t.apply call).events = [e] ∧ e.level = .debug

/-- What a late call leaves in the log. -/
structure Heard (t : Tree) (call : Call) : Prop where
  /-- A call about a path is noted, by an event about the path. -/
  path : ∀ p ∈ call.path?, t.Noted call ∧
    ∃ message, (t.apply call).events = [eventAt .debug message p]
  /-- A call with a handle is ignored and not noted. -/
  handle : ∀ h ∈ call.handle?, (t.apply call).tree = t ∧ (t.apply call).answer.Empty ∧
    (t.apply call).events = []

section

variable {t : Tree}

/-- A late resolution is logged, if it is one that would be recorded. -/
theorem start_of_closed (hc : t.closed = true) {path : Path} {leaf : Bool}
    (h : t.Accepts path leaf) (now : Int) :
    t.start path leaf now = t.refuse none
      [eventAt .debug "resolution started after the operation finished" path] := by
  simp [start, h.captured, Response.Path.levels_getLast? h.1, hc]

/-- **A late call about a path** leaves one event. -/
theorem events_of_path (hc : t.closed = true) {call : Call} (ht : t.TakesUp call) {p : Path}
    (hp : call.path? = some p) :
    ∃ message, (t.apply call).events = [eventAt .debug message p] := by
  cases call with
  | start path leaf now =>
      obtain rfl := Option.some.inj hp
      exact ⟨_, congrArg Outcome.events (start_of_closed hc ht now)⟩
  | record path leaf start stop =>
      obtain rfl := Option.some.inj hp
      refine ⟨"resolution started after the operation finished", ?_⟩
      simp only [apply, Outcome.map, record, start_of_closed hc ht start, refuse]
  | stop path now =>
      obtain rfl := Option.some.inj hp
      exact ⟨_, congrArg Outcome.events (if_pos hc : t.stop path now = _)⟩
  | nested owner label now =>
      obtain rfl := Option.some.inj hp
      exact ⟨_, congrArg Outcome.events (if_pos hc : t.nested owner label now = _)⟩
  | nestedIn | close | finish => contradiction

/-- **A late call with a handle** leaves no event. -/
theorem events_of_handle (hc : t.closed = true) {call : Call} (ht : t.TakesUp call) {h : Handle}
    (hh : call.handle? = some h) : (t.apply call).events = [] := by
  cases call with
  | nestedIn parent label now =>
      have hplace : t.placeOf? parent = some parent.place := if_pos ht
      simp only [apply, Outcome.map, nestedIn, hplace, hc, Bool.true_or, if_true, refuse]
  | close handle now =>
      have hplace : t.placeOf? handle = some handle.place := if_pos ht
      simp only [apply, Outcome.map, close, hplace, hc, if_true, refuse]
  | start | stop | record | nested | finish => contradiction

end

/-- **A late call** is ignored, and it is noted just if it is about a path. -/
theorem late_call {t : Tree} (hc : t.closed = true) {call : Call} (ht : t.TakesUp call) :
    t.Heard call where
  path p hp := by
    obtain ⟨htree, hanswer⟩ := apply_closed hc call
    obtain ⟨message, hevents⟩ := events_of_path hc ht hp
    exact ⟨⟨htree, hanswer, _, hevents, rfl⟩, message, hevents⟩
  handle h hh := by
    obtain ⟨htree, hanswer⟩ := apply_closed hc call
    exact ⟨htree, hanswer, events_of_handle hc ht hh⟩

/-- A tree that was finished while work was still going on in a resolver. -/
def finishedEarly : Tree :=
  reached 0 false [.start ⟨[.key "library"]⟩ false 0, .nested ⟨[.key "library"]⟩ "load" 1,
    .finish "op" 2]

/-- An end by its path is noted even by a tree that was finished early. -/
theorem late_call_finishedEarly :
    finishedEarly.closed = true ∧ finishedEarly.TakesUp (.stop ⟨[.key "library"]⟩ 3) ∧
      finishedEarly.Noted (.stop ⟨[.key "library"]⟩ 3) := by
  have hc : finishedEarly.closed = true := by decide +kernel
  have ht : finishedEarly.TakesUp (.stop ⟨[.key "library"]⟩ 3) := trivial
  exact ⟨hc, ht, ((late_call hc ht).path _ rfl).1⟩

/-- **Not every late call is noted**: the end of the work that was going on is not. -/
theorem not_forall_noted :
    ¬ ∀ (id : Nat) (captures : Bool) (calls : List Call) (call : Call),
      (reached id captures calls).closed = true → (reached id captures calls).TakesUp call →
      (reached id captures calls).Noted call := by
  intro h
  obtain ⟨-, -, e, hevents, -⟩ := h 0 false [.start ⟨[.key "library"]⟩ false 0,
    .nested ⟨[.key "library"]⟩ "load" 1, .finish "op" 2] (.close ⟨0, 1⟩ 3) (by decide +kernel) rfl
  have hnone : (finishedEarly.apply (.close ⟨0, 1⟩ 3)).events = [] := by decide +kernel
  rw [finishedEarly, hevents] at hnone
  contradiction

end Tree

end GraphTrace.Segment
