import GraphTrace.Proofs.Segment.Durations
import GraphTrace.Proofs.Segment.Forest

/-!
# Refused calls

A tree refuses a call (`Tree.Refuses`) about a leaf when it captures no scalars, about the empty
path, about the end of a resolution that was not reported, with a handle of another tree, and every
call once it is closed.

A refused call leaves the whole tree as it was and answers nothing (`apply_refused`).  So a run is
made of *moments*, a call and the tree that it finds, and refused calls can be erased from it: the
other calls find the trees that they found before (`moments_erase`), and what they come to is the
same (`firm_reached`).

Only `finish` closes a tree.  The first `finish` of a run is answered with the finished tree, no
other call is, and nothing that is called later changes the tree (`run_of_closed`).
-/

namespace GraphTrace.Segment

open Response (Path)

/-- Whether a call reports the resolution of a leaf. -/
def Call.ReportsLeaf : Call → Prop
  | .start _ leaf _ | .record _ leaf _ _ => leaf = true
  | _                                    => False

instance : DecidablePred Call.ReportsLeaf
  | .start _ leaf _ | .record _ leaf _ _ => inferInstanceAs (Decidable (leaf = true))
  | .stop _ _ | .nested _ _ _ | .nestedIn _ _ _ | .close _ _ | .finish _ _ => .isFalse fun h => h

namespace Tree

/-! ### What is refused -/

/-- Whether some resolution was recorded at a text. -/
def HasResolver (t : Tree) (text : String) : Prop :=
  ∃ s ∈ t.segments, s.label = text ∧ s.work.kind = .resolver

instance (t : Tree) (text : String) : Decidable (t.HasResolver text) :=
  inferInstanceAs (Decidable (∃ s ∈ t.segments, s.label = text ∧ s.work.kind = .resolver))

/-- Whether a tree refuses a call while it is open. -/
def RefusesOpen (t : Tree) : Call → Prop
  | .start path leaf _ | .record path leaf _ _ =>
    path = .empty ∨ leaf = true ∧ t.capturesScalars = false
  | .stop path _                     => ¬ t.HasResolver path.text
  | .nestedIn h _ _ | .close h _     => h.tree ≠ t.id
  | .nested _ _ _ | .finish _ _      => False

instance (t : Tree) : DecidablePred t.RefusesOpen
  | .start _ _ _ | .record _ _ _ _ => inferInstanceAs (Decidable (_ ∨ _ ∧ _))
  | .stop _ _                      => inferInstanceAs (Decidable (¬ _))
  | .nestedIn _ _ _ | .close _ _   => inferInstanceAs (Decidable (_ ≠ _))
  | .nested _ _ _ | .finish _ _    => .isFalse fun h => h

/-- Whether a tree refuses a call. A closed tree refuses all. -/
def Refuses (t : Tree) (call : Call) : Prop := t.closed = true ∨ t.RefusesOpen call

instance (t : Tree) : DecidablePred t.Refuses := fun _ => inferInstanceAs (Decidable (_ ∨ _))

/-- Where no handle is given, nothing is answered. -/
theorem unanswered {t : Tree} {o : Outcome (Option Handle)} (h : o.tree = t ∧ o.answer = none) :
    (o.map Answer.handle).tree = t ∧ (o.map Answer.handle).answer.Empty := by
  refine ⟨h.1, ?_⟩
  simp only [Outcome.map, h.2]
  trivial

/-- A closed tree refuses every call. -/
theorem apply_closed {t : Tree} (hc : t.closed = true) (call : Call) :
    (t.apply call).tree = t ∧ (t.apply call).answer.Empty := by
  have hstart : ∀ (path : Path) (leaf : Bool) (now : Int),
      (t.start path leaf now).tree = t ∧ (t.start path leaf now).answer = none := by
    intro path leaf now
    unfold start
    rw [hc]
    split
    · exact ⟨rfl, rfl⟩
    · split <;> exact ⟨rfl, rfl⟩
  cases call with
  | start path leaf now => exact unanswered (hstart path leaf now)
  | record path leaf start stop =>
      obtain ⟨htree, hanswer⟩ := hstart path leaf start
      exact unanswered (by simp [record, htree, hanswer])
  | stop path now =>
      simp only [apply, Outcome.map, stop, hc, if_true]
      exact ⟨rfl, trivial⟩
  | nested owner label now =>
      simp only [apply, Outcome.map, nested, hc, if_true]
      exact ⟨rfl, trivial⟩
  | nestedIn parent label now =>
      simp only [apply, Outcome.map, nestedIn, hc, Bool.true_or, if_true]
      split <;> exact ⟨rfl, trivial⟩
  | close handle now =>
      simp only [apply, Outcome.map, close, hc, if_true]
      split <;> exact ⟨rfl, trivial⟩
  | finish label now =>
      simp only [apply, Outcome.map, finish, hc, if_true]
      exact ⟨rfl, trivial⟩

/-- A resolution is not accepted if its path is empty, or if it is a leaf and leaves are not
captured. -/
theorem not_accepts_iff {t : Tree} {path : Path} {leaf : Bool} :
    ¬ t.Accepts path leaf ↔ path = .empty ∨ leaf = true ∧ t.capturesScalars = false := by
  simp only [Accepts, not_and_or, not_not, not_or, Bool.not_eq_false, Bool.not_eq_true]

/-- An end finds nothing to end where no resolution was recorded. -/
theorem stop_of_not_hasResolver {t : Tree} {path : Path} (h : ¬ t.HasResolver path.text)
    (now : Int) : (t.stop path now).tree = t := by
  unfold stop
  split
  · rfl
  · split
    case h_2 => rfl
    case h_1 k hk =>
      -- What stands there is a level that was never reported.
      refine modify_ended_of_level (fun s hs => ?_) now
      obtain ⟨s', hs', hl⟩ := exists_of_place? hk
      obtain rfl := Option.some.inj (hs.symm.trans hs')
      obtain ⟨hn, hlabel⟩ := Entry.isLevel_iff.mp hl
      cases hw : s.work with
      | level => rfl
      | nested c => exact absurd (congrArg Work.kind hw) hn
      | resolver c =>
          exact absurd ⟨s, List.mem_of_getElem? hs, hlabel, congrArg Work.kind hw⟩ h

/-- **A refused call changes nothing and answers nothing.** -/
theorem apply_refused {t : Tree} {call : Call} (h : t.Refuses call) :
    (t.apply call).tree = t ∧ (t.apply call).answer.Empty := by
  rcases h with hc | h
  · exact apply_closed hc call
  cases call with
  | start path leaf now =>
      exact unanswered (start_of_not_accepts (not_accepts_iff.mpr h) now)
  | record path leaf start stop =>
      exact unanswered (record_of_not_accepts (not_accepts_iff.mpr h) start stop)
  | stop path now => exact ⟨stop_of_not_hasResolver h now, trivial⟩
  | nestedIn parent label now => exact apply_foreign ⟨parent, rfl, h⟩
  | close handle now => exact apply_foreign ⟨handle, rfl, h⟩
  | nested owner label now => exact h.elim
  | finish label now => exact h.elim

/-! ### Closing -/

/-- **A closed tree stays as it is.** -/
theorem run_of_closed {t : Tree} (hc : t.closed = true) (calls : List Call) : t.run calls = t := by
  induction calls with
  | nil => rfl
  | cons call rest ih => rw [run_cons, (apply_closed hc call).1, ih]

/-- A tree is closed after a run if it was closed before, or if the run has a `finish`. -/
theorem closed_run_iff (t : Tree) (calls : List Call) :
    (t.run calls).closed = true ↔ t.closed = true ∨ ∃ call ∈ calls, call.Finishes := by
  induction calls generalizing t with
  | nil => simp [run_nil]
  | cons call rest ih =>
      have hstep : (t.apply call).tree.closed = true ↔ t.closed = true ∨ call.Finishes := by
        by_cases hf : call.Finishes
        · cases call with
          | finish label now =>
              rw [show (t.apply (.finish label now)).tree = _ from t.finish_tree label now]
              exact ⟨fun _ => .inr trivial, fun _ => rfl⟩
          | _ => exact hf.elim
        · rw [(t.apply_fixed hf).2.2, or_iff_left hf]
      rw [run_cons, ih, hstep, or_assoc]
      simp only [List.mem_cons, exists_eq_or_imp]

/-- Only an open tree is returned, and only by `finish`. -/
theorem answer_finished_iff (t : Tree) (call : Call) :
    (∃ root, (t.apply call).answer = .finished (some root)) ↔
      t.closed = false ∧ call.Finishes := by
  cases call with
  | finish label now =>
      simp only [apply, Outcome.map, finish]
      cases t.closed <;> simp [refuse, Call.Finishes]
  | start | stop | record | nested | nestedIn | close => simp [apply, Outcome.map, Call.Finishes]

/-- A closed tree is not returned. -/
theorem answers_of_closed {t : Tree} (hc : t.closed = true) (calls : List Call) (i : Nat)
    (root : Node) : (t.answers calls)[i]? ≠ some (.finished (some root)) := by
  induction calls generalizing i with
  | nil => simp [answers]
  | cons call rest ih =>
      intro e
      cases i with
      | zero =>
          have hanswer : (t.apply call).answer = .finished (some root) := by
            simpa [answers] using e
          exact Bool.false_ne_true
            (((t.answer_finished_iff call).mp ⟨root, hanswer⟩).1.symm.trans hc)
      | succ i =>
          rw [answers, (apply_closed hc call).1, List.getElem?_cons_succ] at e
          exact ih i e

/-- **A run returns its tree once**: the answer to its first `finish`, and no other, is one. -/
theorem answers_finished_iff {t : Tree} (hc : t.closed = false) (calls : List Call) (i : Nat) :
    (∃ root, (t.answers calls)[i]? = some (.finished (some root))) ↔
      calls.findIdx? (·.Finishes) = some i := by
  induction calls generalizing t i with
  | nil => simp [answers]
  | cons call rest ih =>
      have hfirst := t.answer_finished_iff call
      rw [List.findIdx?_cons]
      by_cases hf : call.Finishes
      · have hclosed : (t.apply call).tree.closed = true :=
          (t.closed_run_iff [call]).mpr (.inr ⟨call, by simp, hf⟩)
        cases i with
        | zero => simpa [answers, hf, hc] using hfirst
        | succ i => simp [answers, hf, answers_of_closed hclosed]
      · have hopen : (t.apply call).tree.closed = false := (t.apply_fixed hf).2.2.trans hc
        cases i with
        | zero => simpa [answers, hf] using hfirst
        | succ i => simpa [answers, hf] using ih hopen i

end Tree

/-! ### Erasing calls -/

/-- A call of a run, and the tree that it finds. -/
structure Moment where
  tree : Tree
  call : Call

namespace Moment

/-- What the call comes to. -/
def outcome (m : Moment) : Outcome Answer := m.tree.apply m.call

/-- Whether the call is refused. -/
def Refused (m : Moment) : Prop := m.tree.Refuses m.call

instance : DecidablePred Refused := fun m => inferInstanceAs (Decidable (m.tree.Refuses m.call))

end Moment

namespace Tree

/-- The moments of a run, in order. -/
def moments (t : Tree) : List Call → List Moment
  | []           => []
  | call :: rest => ⟨t, call⟩ :: (t.apply call).tree.moments rest

/-- The calls of a run without those of the moments that are not kept. -/
def erase (t : Tree) (keep : Moment → Bool) (calls : List Call) : List Call :=
  ((t.moments calls).filter keep).map (·.call)

/-- The moments of a run are those of its calls. -/
theorem map_call_moments (t : Tree) (calls : List Call) :
    (t.moments calls).map (·.call) = calls := by
  induction calls generalizing t with
  | nil => rfl
  | cons call rest ih => exact congrArg (call :: ·) (ih _)

/-- What a call of a run finds is what the calls before it left. -/
theorem exists_of_mem_moments {t : Tree} {calls : List Call} {m : Moment}
    (hm : m ∈ t.moments calls) : ∃ earlier, m.tree = t.run earlier := by
  induction calls generalizing t with
  | nil => contradiction
  | cons call rest ih =>
      rcases List.mem_cons.mp hm with rfl | hm
      · exact ⟨[], rfl⟩
      · obtain ⟨earlier, e⟩ := ih hm
        exact ⟨call :: earlier, e⟩

/-- What a run comes to, its moments come to. -/
theorem outcomes_eq (t : Tree) (calls : List Call) :
    t.outcomes calls = (t.moments calls).map (·.outcome) := by
  induction calls generalizing t with
  | nil => rfl
  | cons call rest ih => exact congrArg (t.apply call :: ·) (ih _)

/-- Erasing by what is called, and not by what it finds. -/
theorem erase_of_call (t : Tree) (keep : Call → Bool) (calls : List Call) :
    t.erase (fun m => keep m.call) calls = calls.filter keep := by
  conv_rhs => rw [← t.map_call_moments calls, List.filter_map]
  rfl

/-- **Refused calls can be erased.**  The other calls find the trees that they found before, and
the run ends with the tree it ended with. -/
theorem moments_erase {t : Tree} {keep : Moment → Bool} {calls : List Call}
    (h : ∀ m ∈ t.moments calls, keep m = false → m.Refused) :
    t.moments (t.erase keep calls) = (t.moments calls).filter keep ∧
      t.run (t.erase keep calls) = t.run calls := by
  induction calls generalizing t with
  | nil => exact ⟨rfl, rfl⟩
  | cons call rest ih =>
      obtain ⟨hmoments, hrun⟩ := ih fun m hm => h m (List.mem_cons_of_mem _ hm)
      cases hk : keep ⟨t, call⟩ with
      | true =>
          simp only [erase, moments, List.filter_cons, hk, if_true, List.map_cons, run_cons]
          exact ⟨congrArg _ hmoments, hrun⟩
      | false =>
          -- The tree after a refused call is the tree before it.
          have htree := (apply_refused (h ⟨t, call⟩ List.mem_cons_self hk)).1
          rw [htree] at hmoments hrun
          simp only [erase, moments, List.filter_cons, hk, htree, run_cons]
          exact ⟨hmoments, hrun⟩

/-- Calls that are refused can be left out: the others come to the same, and so does the run. -/
theorem outcomes_erase {t : Tree} {keep : Moment → Bool} {calls : List Call}
    (h : ∀ m ∈ t.moments calls, keep m = false → m.Refused) :
    t.outcomes (t.erase keep calls) = ((t.moments calls).filter keep).map (·.outcome) ∧
      t.run (t.erase keep calls) = t.run calls := by
  obtain ⟨hmoments, hrun⟩ := moments_erase h
  exact ⟨by rw [outcomes_eq, hmoments], hrun⟩

/-- What becomes of refused calls, and of closing, in a run of a fresh tree. -/
structure Firm (fresh : Tree) (calls : List Call) : Prop where
  /-- A refused call changes nothing and answers nothing. -/
  refused : ∀ {call : Call}, (fresh.run calls).Refuses call →
    ((fresh.run calls).apply call).tree = fresh.run calls ∧
      ((fresh.run calls).apply call).answer.Empty
  /-- The first `finish` returns the tree, and no other call does. -/
  returned : ∀ i : Nat, (∃ root, (fresh.answers calls)[i]? = some (.finished (some root))) ↔
    calls.findIdx? (·.Finishes) = some i
  closed : (fresh.run calls).closed = true ↔ ∃ call ∈ calls, call.Finishes
  /-- What is called on a closed tree leaves it as it is. -/
  final : (fresh.run calls).closed = true → ∀ later : List Call,
    fresh.run (calls ++ later) = fresh.run calls
  /-- Refused calls, all of them or some, can be erased: the other calls come to what they came to,
  and the run ends with the tree it ended with. -/
  erased : ∀ {keep : Moment → Bool}, (∀ m ∈ fresh.moments calls, keep m = false → m.Refused) →
    fresh.outcomes (fresh.erase keep calls)
        = ((fresh.moments calls).filter keep).map (·.outcome) ∧
      fresh.run (fresh.erase keep calls) = fresh.run calls
  /-- Where no scalars are captured, what is reported of leaves can be left out. -/
  leaves : fresh.capturesScalars = false →
    fresh.outcomes (calls.filter (¬ ·.ReportsLeaf))
        = ((fresh.moments calls).filter (¬ ·.call.ReportsLeaf)).map (·.outcome) ∧
      fresh.run (calls.filter (¬ ·.ReportsLeaf)) = fresh.run calls

/-- A leaf is refused at every moment of a run without scalars. -/
theorem refused_of_reportsLeaf {t : Tree} (hc : t.capturesScalars = false) {calls : List Call}
    {m : Moment} (hm : m ∈ t.moments calls) (hl : m.call.ReportsLeaf) : m.Refused := by
  obtain ⟨earlier, htree⟩ := exists_of_mem_moments hm
  have hflag : m.tree.capturesScalars = false := by
    rw [htree]
    exact run_keeps (P := fun u => u.capturesScalars = false)
      (fun _ _ c h => (Changes.one c).fixed.2.1.trans h) (fun _ _ _ _ _ h => h) (fun _ h => h)
      earlier hc
  refine .inr ?_
  obtain ⟨tree, call⟩ := m
  cases call with
  | start | record => exact .inr ⟨hl, hflag⟩
  | stop | nested | nestedIn | close | finish => exact hl.elim

/-- **Refused calls change nothing and closing is final**, in every run. -/
theorem firm_reached (id : Nat) (captures : Bool) (calls : List Call) :
    Firm { id, capturesScalars := captures } calls where
  refused h := apply_refused h
  returned i := answers_finished_iff rfl calls i
  closed := (closed_run_iff _ calls).trans (or_iff_right (by simp))
  final hc later := by rw [run_append, run_of_closed hc]
  erased h := outcomes_erase h
  leaves hc := by
    have h := outcomes_erase fun m
        (hm : m ∈ moments { id, capturesScalars := captures } calls)
        (hk : decide (¬ m.call.ReportsLeaf) = false) =>
      refused_of_reportsLeaf hc hm (by simpa using hk)
    rwa [erase_of_call _ fun call => ¬ call.ReportsLeaf] at h

/-- Calls on a tree without scalars: a leaf, a handle of another tree, the end of a level that was
not reported, two attempts to finish, and work that comes late. -/
def refusedRun : List Call :=
  [.start ⟨[.key "library", .key "books"]⟩ false 0,
    .start ⟨[.key "library", .key "name"]⟩ true 1, .close ⟨7, 0⟩ 2, .stop ⟨[.key "library"]⟩ 3,
    .finish "op" 4, .finish "op" 5, .nested ⟨[.key "library"]⟩ "load" 6]

/-- Without its refused calls the run leaves the same tree, and nothing later changes it. -/
theorem firm_refusedRun :
    run { id := 0, capturesScalars := false }
        [.start ⟨[.key "library", .key "books"]⟩ false 0, .finish "op" 4]
      = run { id := 0, capturesScalars := false } refusedRun ∧
    (∃ root, (answers { id := 0, capturesScalars := false } refusedRun)[4]?
      = some (.finished (some root))) ∧
    ∀ later, run { id := 0, capturesScalars := false } (refusedRun ++ later)
      = run { id := 0, capturesScalars := false } refusedRun := by
  have h := firm_reached 0 false refusedRun
  have herase : erase { id := 0, capturesScalars := false } (¬ ·.Refused) refusedRun
      = [.start ⟨[.key "library", .key "books"]⟩ false 0, .finish "op" 4] := by rfl
  refine ⟨?_, (h.returned 4).mpr (by decide +kernel), h.final (by decide +kernel)⟩
  rw [← herase]
  exact (h.erased fun m _ hk => by simpa using hk).2

end Tree

end GraphTrace.Segment
