import GraphTrace.Proofs.Segment.History

/-!
# Labels of nested work

Nested work is labelled by the host, with any text: also with one that looks like the path of a
field.  A tree never reads such a label.  It only hands it on to the finished tree, so leaving the
labels out (`unlabelled`) before a call or after it is the same (`unlabelled_apply`).

Two runs that differ in nothing but the labels of nested work hence give the same handles
(`answers_eq_of_relabelled`), and their finished trees differ in nothing but these labels
(`snapshot_eq_of_relabelled`).
-/

namespace GraphTrace.Segment

open Response (Path)

/-- A call without the label of the nested work that it asks for. -/
def Call.unlabelled : Call → Call
  | .nested owner _ now    => .nested owner "" now
  | .nestedIn parent _ now => .nestedIn parent "" now
  | call                   => call

/-- A segment without its label, if it is nested. -/
def Entry.unlabelled (s : Entry) : Entry :=
  { s with label := if s.work.kind = .nested then "" else s.label }

namespace Node

mutual

/-- A finished segment, where nested ones have no label. -/
def unlabelled : Node → Node
  | ⟨label, kind, duration, children⟩ =>
    ⟨if kind = .nested then "" else label, kind, duration, unlabelledAll children⟩

/-- The same for several segments. -/
def unlabelledAll : List Node → List Node
  | []        => []
  | n :: rest => n.unlabelled :: unlabelledAll rest

end

/-- Taking the labels off several segments is done one by one. -/
theorem unlabelledAll_eq (ns : List Node) : unlabelledAll ns = ns.map unlabelled := by
  induction ns with
  | nil => rfl
  | cons n rest ih => rw [unlabelledAll, ih, List.map_cons]

end Node

/-- An answer without the labels of nested segments. -/
def Answer.unlabelled : Answer → Answer
  | .finished tree => .finished (tree.map Node.unlabelled)
  | answer         => answer

/-- A label does not matter for whether a call closes the tree. -/
theorem Call.finishes_unlabelled (call : Call) : call.unlabelled.Finishes ↔ call.Finishes := by
  cases call <;> exact Iff.rfl

namespace Entry

/-- Nested work is no level, with a label or without. -/
theorem isLevel_unlabelled (s : Entry) (text : String) :
    s.unlabelled.isLevel text = s.isLevel text := by
  by_cases h : s.work.kind = .nested <;> simp [unlabelled, isLevel, h]

theorem unlabelled_modify {f : Work → Work} (hf : Work.KeepsNested f) (s : Entry) :
    Entry.unlabelled { s with work := f s.work }
      = { s.unlabelled with work := f s.unlabelled.work } := by
  simp only [unlabelled, hf s.work]

end Entry

/-- A tree without the labels of nested work. -/
def Tree.unlabelled (t : Tree) : Tree := { t with segments := t.segments.map Entry.unlabelled }

/-- An outcome whose tree has no labels of nested work. -/
def Outcome.unlabelled {α : Type} (o : Outcome α) : Outcome α :=
  { o with tree := o.tree.unlabelled }

namespace Tree

/-! ### Changes -/

/-- A level is found where it was found, whatever nested work is labelled. -/
theorem place?_unlabelled (t : Tree) (text : String) :
    t.unlabelled.place? text = t.place? text := by
  simp only [place?, unlabelled, List.findIdx?_map, Function.comp_def, Entry.isLevel_unlabelled]

theorem closest?_unlabelled (t : Tree) (path : Path) :
    t.unlabelled.closest? path = t.closest? path := by
  rw [closest?, funext t.place?_unlabelled, closest?]

theorem length_unlabelled (t : Tree) : t.unlabelled.segments.length = t.segments.length :=
  List.length_map _

/-- The labels can be taken off before a segment is put behind the others or after. -/
theorem unlabelled_push (t : Tree) (s : Entry) :
    (t.push s).unlabelled = t.unlabelled.push s.unlabelled := by
  simp [unlabelled, push]

theorem unlabelled_modify (t : Tree) (place : Nat) {f : Work → Work} (hf : Work.KeepsNested f) :
    (t.modify place f).unlabelled = t.unlabelled.modify place f := by
  have hsegments : (t.segments.modify place fun s => { s with work := f s.work }).map
        Entry.unlabelled
      = (t.segments.map Entry.unlabelled).modify place fun s => { s with work := f s.work } := by
    refine List.ext_getElem? fun k => ?_
    simp only [List.getElem?_map, List.getElem?_modify]
    cases t.segments[k]? with
    | none => rfl
    | some s =>
        by_cases hk : place = k
        · simp [hk, Entry.unlabelled_modify hf]
        · simp [hk]
  simp only [unlabelled, modify, hsegments]

theorem unlabelled_ensure (t : Tree) (parent : Option Nat) (text : String) :
    t.unlabelled.ensure parent text
      = ((t.ensure parent text).1, (t.ensure parent text).2.unlabelled) := by
  unfold ensure
  rw [place?_unlabelled]
  split
  · rfl
  · rw [length_unlabelled, unlabelled_push]
    rfl

theorem unlabelled_ensureAll (t : Tree) (parent : Option Nat) (texts : List String) :
    t.unlabelled.ensureAll parent texts
      = ((t.ensureAll parent texts).1, (t.ensureAll parent texts).2.unlabelled) := by
  induction texts generalizing t parent with
  | nil => rfl
  | cons text rest ih =>
      simp only [ensureAll, unlabelled_ensure]
      exact ih _ _

theorem unlabelled_resolving (t : Tree) (above : List String) (own : String) (now : Int) :
    t.unlabelled.resolving above own now
      = ((t.resolving above own now).1, (t.resolving above own now).2.unlabelled) := by
  simp only [resolving_eq, unlabelled_ensureAll, unlabelled_ensure,
    unlabelled_modify _ _ (Work.keepsNested_resolving now)]
  rfl

theorem unlabelled_startNested (t : Tree) (parent : Option Nat) (label : String) (now : Int) :
    t.unlabelled.startNested parent "" now = (t.startNested parent label now).unlabelled := by
  simp only [startNested, length_unlabelled, Outcome.unlabelled, unlabelled_push]
  rfl

/-! ### Calls -/

theorem unlabelled_start (t : Tree) (path : Path) (leaf : Bool) (now : Int) :
    t.unlabelled.start path leaf now = (t.start path leaf now).unlabelled := by
  simp only [start, unlabelled_resolving, show t.unlabelled.closed = t.closed from rfl,
    show t.unlabelled.capturesScalars = t.capturesScalars from rfl]
  split
  · rfl
  · split
    · rfl
    · split <;> rfl

theorem unlabelled_stop (t : Tree) (path : Path) (now : Int) :
    t.unlabelled.stop path now = (t.stop path now).unlabelled := by
  simp only [stop, place?_unlabelled, show t.unlabelled.closed = t.closed from rfl]
  split
  · rfl
  · split
    · rw [← unlabelled_modify _ _ (Work.keepsNested_ended now)]
      rfl
    · rfl

theorem unlabelled_close (t : Tree) (h : Handle) (now : Int) :
    t.unlabelled.close h now = (t.close h now).unlabelled := by
  simp only [close, show t.unlabelled.placeOf? h = t.placeOf? h from rfl,
    show t.unlabelled.closed = t.closed from rfl]
  split
  · rfl
  · split
    · rfl
    · rw [← unlabelled_modify _ _ (Work.keepsNested_ended now)]
      rfl

theorem unlabelled_record (t : Tree) (path : Path) (leaf : Bool) (start stop : Int) :
    t.unlabelled.record path leaf start stop = (t.record path leaf start stop).unlabelled := by
  simp only [record, unlabelled_start, Outcome.unlabelled, unlabelled_close]
  split <;> rfl

theorem unlabelled_nested (t : Tree) (owner : Path) (label : String) (now : Int) :
    t.unlabelled.nested owner "" now = (t.nested owner label now).unlabelled := by
  simp only [nested, closest?_unlabelled, t.unlabelled_startNested _ label,
    show t.unlabelled.closed = t.closed from rfl]
  split <;> rfl

theorem unlabelled_nestedIn (t : Tree) (h : Handle) (label : String) (now : Int) :
    t.unlabelled.nestedIn h "" now = (t.nestedIn h label now).unlabelled := by
  simp only [nestedIn, show t.unlabelled.placeOf? h = t.placeOf? h from rfl, length_unlabelled,
    t.unlabelled_startNested _ label, show t.unlabelled.closed = t.closed from rfl]
  split
  · rfl
  · split <;> rfl

/-! ### The finished tree -/

/-- Labels play no part in how a tree is assembled. -/
theorem assemble_unlabelled (i : Nat) (segments : List Entry) :
    assemble i (segments.map Entry.unlabelled)
      = (assemble i segments).map fun (parent, n) => (parent, n.unlabelled) := by
  induction segments generalizing i with
  | nil => rfl
  | cons s rest ih =>
      simp only [List.map_cons, assemble, ih, List.filter_map, List.map_map, Function.comp_def,
        Node.unlabelled, Node.unlabelledAll_eq, Entry.unlabelled]

/-- The finished tree is the same up to these labels. -/
theorem unlabelled_snapshot (t : Tree) (label : String) (now : Int) :
    t.unlabelled.snapshot label now = (t.snapshot label now).unlabelled := by
  simp only [snapshot, unlabelled, assemble_unlabelled, Node.unlabelled, Node.unlabelledAll_eq,
    List.map_map, Function.comp_def]
  rfl

theorem unlabelled_finish (t : Tree) (label : String) (now : Int) :
    t.unlabelled.finish label now
      = (t.finish label now).unlabelled.map (·.map Node.unlabelled) := by
  simp only [finish, unlabelled_snapshot, show t.unlabelled.closed = t.closed from rfl]
  split <;> rfl

/-! ### Runs -/

/-- **A tree does not read the labels of nested work**: leaving them out before a call or after it
is the same. -/
theorem unlabelled_apply (t : Tree) (call : Call) :
    t.unlabelled.apply call.unlabelled = (t.apply call).unlabelled.map Answer.unlabelled := by
  cases call with
  | start path leaf now =>
      exact congrArg (Outcome.map Answer.handle) (t.unlabelled_start path leaf now)
  | stop path now =>
      exact congrArg (Outcome.map fun _ => Answer.nothing) (t.unlabelled_stop path now)
  | record path leaf start stop =>
      exact congrArg (Outcome.map Answer.handle) (t.unlabelled_record path leaf start stop)
  | nested owner label now =>
      exact congrArg (Outcome.map Answer.handle) (t.unlabelled_nested owner label now)
  | nestedIn h label now =>
      exact congrArg (Outcome.map Answer.handle) (t.unlabelled_nestedIn h label now)
  | close h now =>
      exact congrArg (Outcome.map fun _ => Answer.nothing) (t.unlabelled_close h now)
  | finish label now =>
      exact congrArg (Outcome.map Answer.finished) (t.unlabelled_finish label now)

/-- **A run goes alike** whatever its nested work is labelled. -/
theorem unlabelled_run (t : Tree) (calls : List Call) :
    t.unlabelled.run (calls.map Call.unlabelled) = (t.run calls).unlabelled := by
  induction calls generalizing t with
  | nil => rfl
  | cons call rest ih =>
      rw [List.map_cons, run_cons, run_cons, unlabelled_apply]
      exact ih _

theorem unlabelled_answers (t : Tree) (calls : List Call) :
    t.unlabelled.answers (calls.map Call.unlabelled) = (t.answers calls).map Answer.unlabelled := by
  induction calls generalizing t with
  | nil => rfl
  | cons call rest ih =>
      rw [List.map_cons, answers, answers, unlabelled_apply, List.map_cons]
      exact congrArg _ (ih _)

/-- Only `finish` answers with labels. -/
theorem answer_unlabelled (t : Tree) {call : Call} (hf : ¬ call.Finishes) :
    (t.apply call).answer.unlabelled = (t.apply call).answer := by
  cases call with
  | finish label now => exact absurd trivial hf
  | _ => rfl

/-- Without a `finish` no answer has a label in it. -/
theorem answers_map_unlabelled (t : Tree) {calls : List Call}
    (hf : ∀ call ∈ calls, ¬ call.Finishes) :
    (t.answers calls).map Answer.unlabelled = t.answers calls := by
  induction calls generalizing t with
  | nil => rfl
  | cons call rest ih =>
      rw [answers, List.map_cons, t.answer_unlabelled (hf call (by simp)),
        ih _ fun c hm => hf c (by simp [hm])]

section Relabelled

variable {calls calls' : List Call} (h : calls'.map Call.unlabelled = calls.map Call.unlabelled)
include h

/-- A relabelled run closes its tree just if the run does. -/
theorem finishes_of_relabelled (hf : ∀ call ∈ calls, ¬ call.Finishes) :
    ∀ call ∈ calls', ¬ call.Finishes := by
  intro call hm
  have hm' : call.unlabelled ∈ calls.map Call.unlabelled := h ▸ List.mem_map_of_mem hm
  obtain ⟨c, hc, e⟩ := List.mem_map.mp hm'
  rw [← call.finishes_unlabelled, ← e, c.finishes_unlabelled]
  exact hf c hc

/-- **Other labels give the same handles.** -/
theorem answers_eq_of_relabelled (t : Tree) (hf : ∀ call ∈ calls, ¬ call.Finishes) :
    t.answers calls' = t.answers calls := by
  rw [← t.answers_map_unlabelled hf, ← t.answers_map_unlabelled (finishes_of_relabelled h hf),
    ← unlabelled_answers, ← unlabelled_answers, h]

/-- **Other labels change nothing but these labels** in the finished tree. -/
theorem snapshot_eq_of_relabelled (t : Tree) (label : String) (now : Int) :
    ((t.run calls').snapshot label now).unlabelled
      = ((t.run calls).snapshot label now).unlabelled := by
  rw [← unlabelled_snapshot, ← unlabelled_snapshot, ← unlabelled_run, ← unlabelled_run, h]

end Relabelled

end Tree

end GraphTrace.Segment
