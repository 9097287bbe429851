import GraphTrace.Proofs.Segment.Addressing
import GraphTrace.Proofs.Segment.Marks

/-!
# The clocks of a tree

A tree keeps a clock for every resolver and for all nested work.  What such a clock was told is the
history of its segment, which the calls of a run make (`levelMarks`, `nestedMarks`):

* a resolver is told by its text and by its handle: resolutions of paths with this text start it,
  their ends and records end it, and so does closing its handle (`clock?_workAt_run`);
* nested work is started by the call that was answered with its handle, and ended through the
  handle alone (`nestedClock?_run`).

Handles are plain places here, so a history also counts ends through a handle that was not given
yet, and ends of a path that came before every resolution.  They come before the first start, where
a clock loses them.
-/

namespace GraphTrace.Segment

open Response (Path)

/-! ### What a call tells a segment -/

/-- What an answered call tells the resolver that is shown as `text` and has the handle `h`. -/
def Call.levelMarks (text : String) (h : Handle) : Call → Answer → List Mark
  | .start p _ now, .handle (some _)        => if p.text = text then [.start now] else []
  | .record p _ begun done, .handle (some _) =>
    if p.text = text then [.start begun, .stop done] else []
  | .stop p now, _                          => if p.text = text then [.stop now] else []
  | .close closed now, _                    => if closed = h then [.stop now] else []
  | _, _                                    => []

/-- What an answered call tells the nested work with the handle `h`. -/
def Call.nestedMarks (h : Handle) : Call → Answer → List Mark
  | .nested _ _ now, .handle (some given) | .nestedIn _ _ now, .handle (some given) =>
    if given = h then [.start now] else []
  | .close closed now, _ => if closed = h then [.stop now] else []
  | _, _                 => []

/-- Two handles on one tree are equal when their places are. -/
theorem Handle.eq_iff_of_tree_eq {h h' : Handle} (e : h.tree = h'.tree) :
    h = h' ↔ h.place = h'.place := by
  obtain ⟨tree, place⟩ := h
  obtain ⟨tree', place'⟩ := h'
  obtain rfl : tree = tree' := e
  simp

/-- A call that is answered with a handle asks for a resolution or for nested work. -/
theorem Call.asks_of_handle {t : Tree} {call : Call} {h : Handle}
    (ha : (t.apply call).answer = .handle (some h)) :
    (∃ q, call.resolution? = some q) ∨ ∃ label, call.nestedLabel? = some label := by
  cases call with
  | start path leaf now => exact .inl ⟨path, rfl⟩
  | record path leaf begun done => exact .inl ⟨path, rfl⟩
  | nested owner label now => exact .inr ⟨label, rfl⟩
  | nestedIn parent label now => exact .inr ⟨label, rfl⟩
  | stop | close | finish => cases ha

/-- A start tells no duration. -/
theorem Call.took_levelMarks_start (text : String) (h : Handle) (path : Path) (leaf : Bool)
    (now : Int) (answer : Answer) (c : Option Clock) :
    ((levelMarks text h (.start path leaf now) answer).foldl Clock.told c).bind (·.took)
      = c.bind (·.took) := by
  cases answer with
  | nothing | finished tree => rfl
  | handle given =>
      cases given with
      | none => rfl
      | some given =>
          rw [levelMarks]
          split
          · exact took_start c now
          · rfl

/-- A resolver is started by the resolutions of its text that were given a handle. -/
theorem Call.start_mem_levelMarks {text : String} {h : Handle} {call : Call} {answer : Answer}
    {now : Int} (hm : .start now ∈ call.levelMarks text h answer) :
    ∃ q given, call.resolution? = some q ∧ q.text = text ∧ answer = .handle (some given) := by
  unfold levelMarks at hm
  split at hm
  case h_1 p _ _ given => exact ⟨p, given, rfl, by by_contra h; simp [h] at hm, rfl⟩
  case h_2 p _ _ _ given => exact ⟨p, given, rfl, by by_contra h; simp [h] at hm, rfl⟩
  case h_3 | h_4 => split at hm <;> simp at hm
  case h_5 => simp at hm

/-- Nested work is started by the call that was given its handle. -/
theorem Call.start_mem_nestedMarks {h : Handle} {call : Call} {answer : Answer} {now : Int}
    (hm : .start now ∈ call.nestedMarks h answer) :
    ∃ label, call.nestedLabel? = some label ∧ answer = .handle (some h) := by
  unfold nestedMarks at hm
  split at hm
  case h_1 label _ given =>
    exact ⟨label, rfl, by by_cases e : given = h <;> simp [e] at hm ⊢⟩
  case h_2 label _ given =>
    exact ⟨label, rfl, by by_cases e : given = h <;> simp [e] at hm ⊢⟩
  case h_3 => split at hm <;> simp at hm
  case h_4 => simp at hm

/-- A resolution tells the clock of a level that its work started. -/
theorem Work.clock?_resolving {w : Work} (h : w.kind ≠ .nested) (now : Int) :
    (w.resolving now).clock? = Clock.told w.clock? (.start now) := by
  cases w with
  | level | resolver c => rfl
  | nested c => exact absurd rfl h

/-- An end tells the clock that the work ended. -/
theorem Work.clock?_ended (now : Int) (w : Work) :
    (w.ended now).clock? = Clock.told w.clock? (.stop now) := by
  cases w <;> rfl

/-- The clock of nested work. -/
def Work.nestedClock? : Work → Option Clock
  | .nested c => some c
  | _         => none

/-- A resolution tells nothing to the clock of nested work. -/
theorem Work.nestedClock?_resolving (now : Int) (w : Work) :
    (w.resolving now).nestedClock? = w.nestedClock? := by
  cases w <;> rfl

theorem Work.nestedClock?_ended (now : Int) (w : Work) :
    (w.ended now).nestedClock? = Clock.told w.nestedClock? (.stop now) := by
  cases w <;> rfl

namespace Tree

/-! ### Runs call by call -/

/-- What the calls of a run and their answers tell, in order. -/
def gather {α : Type} (f : Call → Answer → List α) (t : Tree) : List Call → List α
  | []           => []
  | call :: rest => f call (t.apply call).answer ++ gather f (t.apply call).tree rest

/-- Whether a run answers one of its calls with a handle. -/
def HandsOut (t : Tree) (calls : List Call) (call : Call) (h : Handle) : Prop :=
  ∃ earlier later, calls = earlier ++ call :: later ∧
    ((t.run earlier).apply call).answer = .handle (some h)

/-- What a run gathers, some call of it gave, with the answer that it got there. -/
theorem mem_gather {α : Type} {f : Call → Answer → List α} {t : Tree} {calls : List Call} {a : α} :
    a ∈ gather f t calls ↔ ∃ earlier call later, calls = earlier ++ call :: later ∧
      a ∈ f call ((t.run earlier).apply call).answer := by
  induction calls generalizing t with
  | nil => simp [gather]
  | cons first rest ih =>
      rw [gather, List.mem_append, ih]
      constructor
      · rintro (h | ⟨earlier, call, later, rfl, h⟩)
        · exact ⟨[], first, rest, rfl, h⟩
        · exact ⟨first :: earlier, call, later, rfl, h⟩
      · rintro ⟨earlier, call, later, e, h⟩
        cases earlier with
        | nil =>
            obtain ⟨rfl, rfl⟩ := List.cons.inj e
            exact .inl h
        | cons _ earlier =>
            obtain ⟨rfl, rfl⟩ := List.cons.inj e
            exact .inr ⟨earlier, call, later, rfl, h⟩

/-- **What each call adds to an observation, a run adds in order.** -/
theorem observe_run {α σ : Type} (observe : Tree → σ) {f : Call → Answer → List α}
    {add : σ → α → σ} {t : Tree} {calls : List Call}
    (step : ∀ earlier call later, calls = earlier ++ call :: later →
      observe ((t.run earlier).apply call).tree
        = (f call ((t.run earlier).apply call).answer).foldl add (observe (t.run earlier))) :
    observe (t.run calls) = (gather f t calls).foldl add (observe t) := by
  induction calls generalizing t with
  | nil => rfl
  | cons call rest ih =>
      have hrest := ih (t := (t.apply call).tree) fun earlier c later e =>
        step (call :: earlier) c later (congrArg _ e)
      rw [run_cons, hrest, show observe (t.apply call).tree = _ from step [] call rest rfl, gather,
        List.foldl_append]
      rfl

/-- What a call of a run does to the tree that the calls before it left. -/
theorem does_after {t : Tree} (hc : t.closed = false) {earlier later : List Call} {call : Call}
    (hf : ∀ c ∈ earlier ++ call :: later, ¬ c.Finishes) :
    (t.run earlier).id = t.id ∧ (t.run earlier).capturesScalars = t.capturesScalars ∧
      (t.run earlier).Does call ((t.run earlier).apply call).tree
        ((t.run earlier).apply call).answer := by
  obtain ⟨hid, hcap, hcl⟩ := t.run_fixed fun c (hm : c ∈ earlier) => hf c (by simp [hm])
  exact ⟨hid, hcap, does_apply (hcl.trans hc) (hf call (by simp))⟩

/-! ### The clock of a level -/

/-- An end is told to the level at its place. -/
theorem clock?_workAt_ended (t : Tree) (place : Nat) (now : Int) (text : String) :
    ((t.modify place (.ended now)).workAt text).clock?
      = if t.place? text = some place then Clock.told (t.workAt text).clock? (.stop now)
        else (t.workAt text).clock? := by
  rw [workAt_modify _ _ (Work.keepsNested_ended now)]
  split
  · exact Work.clock?_ended now _
  · rfl

/-- A start is told to the level of its own text. -/
theorem clock?_workAt_resolving (t : Tree) (above : List String) (own : String) (now : Int)
    (text : String) : ((t.resolving above own now).2.workAt text).clock?
      = if own = text then Clock.told (t.workAt text).clock? (.start now)
        else (t.workAt text).clock? := by
  rw [workAt_resolving]
  by_cases e : own = text
  · rw [if_pos e.symm, if_pos e, e, Work.clock?_resolving (t.kind_workAt_ne_nested text)]
  · rw [if_neg (Ne.symm e), if_neg e]

theorem workAt_startNested (t : Tree) (parent : Option Nat) (label : String) (now : Int)
    (text : String) : (t.startNested parent label now).tree.workAt text = t.workAt text :=
  (t.noteStart now).workAt_push_nested label parent ⟨now, none⟩ text

/-- A level that is missing has no clock, and does not get one by ends. -/
theorem clock?_workAt_of_missing {t : Tree} {text : String} (h : t.place? text = none) (now : Int) :
    Clock.told (t.workAt text).clock? (.stop now) = (t.workAt text).clock? := by
  rw [workAt_of_none h]
  rfl

/-- An end at a place tells a level just if the level stands there. -/
theorem clock?_workAt_ended_of_iff {t : Tree} {place : Nat} {text : String} {p : Prop} [Decidable p]
    (h : t.place? text = some place ↔ p) (now : Int) :
    ((t.modify place (.ended now)).workAt text).clock?
      = (if p then [Mark.stop now] else []).foldl Clock.told (t.workAt text).clock? := by
  rw [clock?_workAt_ended]
  by_cases hp : p
  · rw [if_pos (h.mpr hp), if_pos hp]
    rfl
  · rw [if_neg (mt h.mp hp), if_neg hp]
    rfl

/-- **One call tells the clock of a level** what it tells its text and its handle. -/
theorem Does.clock?_workAt {t u : Tree} {call : Call} {answer : Answer} (hd : t.Does call u answer)
    {text : String} {h : Handle} (hid : h.tree = t.id)
    (hk : ∀ k, t.place? text = some k → k = h.place) :
    (u.workAt text).clock?
      = (call.levelMarks text h answer).foldl Clock.told (t.workAt text).clock? := by
  cases hd with
  | @start path leaf hacc now =>
      rw [clock?_workAt_resolving, Call.levelMarks]
      split <;> rfl
  | @record path leaf hacc start stop =>
      have hown := t.place?_resolving path.levels.dropLast path.text start
      have hiff : (t.resolving path.levels.dropLast path.text start).2.place? text
          = some (t.resolving path.levels.dropLast path.text start).1 ↔ path.text = text :=
        ⟨fun hp => place?_inj hown hp, fun e => e ▸ hown⟩
      rw [clock?_workAt_ended_of_iff hiff, clock?_workAt_resolving, Call.levelMarks]
      split <;> rfl
  | @stop path k hp now =>
      exact clock?_workAt_ended_of_iff ⟨fun ht => place?_inj hp ht, fun e => e ▸ hp⟩ now
  | @missStop path hp now =>
      rw [Call.levelMarks]
      split
      case isTrue e => exact (clock?_workAt_of_missing (e ▸ hp) now).symm
      case isFalse => rfl
  | @close closed hown now =>
      rw [Call.levelMarks]
      cases hp : t.place? text with
      | none =>
          rw [clock?_workAt_ended, hp, if_neg (by simp)]
          split
          · exact (clock?_workAt_of_missing hp now).symm
          · rfl
      | some k =>
          refine clock?_workAt_ended_of_iff ?_ now
          rw [hp, hk k hp, Handle.eq_iff_of_tree_eq (hown.trans hid.symm), Option.some.injEq,
            eq_comm]
  | @refuseClose closed hown now =>
      rw [Call.levelMarks, if_neg fun e : closed = h => hown (e ▸ hid)]
      rfl
  | nested owner label now => rw [workAt_startNested]; rfl
  | nestedIn _ label now => rw [workAt_startNested]; rfl
  | refuseStart | refuseRecord | refuseNestedIn => rfl

/-- **A run tells the clock of a level** the history of its text and its handle. -/
theorem clock?_workAt_run {t : Tree} (ht : t.Sound) (hc : t.closed = false) {calls : List Call}
    (hf : ∀ call ∈ calls, ¬ call.Finishes) {text : String} {h : Handle} (hid : h.tree = t.id)
    (hk : (t.run calls).place? text = some h.place) : ((t.run calls).workAt text).clock?
      = (gather (Call.levelMarks text h) t calls).foldl Clock.told (t.workAt text).clock? := by
  refine observe_run (fun u => (u.workAt text).clock?) fun earlier call later e => ?_
  subst e
  obtain ⟨hsame, -, hdoes⟩ := does_after hc hf
  refine hdoes.clock?_workAt (hid.trans hsame.symm) fun k hfirst => ?_
  -- A level that is there already is at the place where it is found in the end.
  have hlast := ht.run (earlier ++ call :: later)
  rw [run_append] at hk hlast
  exact Option.some.inj (((grows_run _ (call :: later)).place?_eq hlast hfirst).symm.trans hk)

/-! ### The clock of nested work -/

/-- The clock of the nested work at a place. -/
def nestedClock? (t : Tree) (k : Nat) : Option Clock :=
  t.segments[k]?.bind (·.work.nestedClock?)

theorem nestedClock?_push (t : Tree) (s : Entry) (k : Nat) : (t.push s).nestedClock? k
    = if k = t.segments.length then s.work.nestedClock? else t.nestedClock? k := by
  by_cases hk : k = t.segments.length
  · rw [if_pos hk, hk, nestedClock?, getElem?_push_length, Option.bind_some]
  · by_cases hlt : k < t.segments.length
    · rw [if_neg hk, nestedClock?, getElem?_push_of_lt hlt, nestedClock?]
    · have hpush : (t.push s).segments.length = t.segments.length + 1 := by simp [push]
      rw [if_neg hk, nestedClock?, nestedClock?, List.getElem?_eq_none (by omega),
        List.getElem?_eq_none (by omega)]

/-- Where no segment is, no nested work is. -/
theorem nestedClock?_length (t : Tree) : t.nestedClock? t.segments.length = none := by
  simp [nestedClock?]

/-- A level brings no clock of nested work. -/
theorem nestedClock?_ensure (t : Tree) (parent : Option Nat) (text : String) (k : Nat) :
    (t.ensure parent text).2.nestedClock? k = t.nestedClock? k := by
  unfold ensure
  split
  · rfl
  · rw [nestedClock?_push]
    split
    case isTrue hk => rw [hk, nestedClock?_length]; rfl
    case isFalse => rfl

theorem nestedClock?_ensureAll (t : Tree) (parent : Option Nat) (texts : List String) (k : Nat) :
    (t.ensureAll parent texts).2.nestedClock? k = t.nestedClock? k := by
  induction texts generalizing t parent with
  | nil => rfl
  | cons text rest ih => exact (ih _ _).trans (t.nestedClock?_ensure parent text k)

theorem nestedClock?_modify (t : Tree) (place : Nat) (f : Work → Work) (k : Nat) :
    (t.modify place f).nestedClock? k
      = if place = k then t.segments[k]?.bind fun s => (f s.work).nestedClock?
        else t.nestedClock? k := by
  rw [nestedClock?, nestedClock?, modify, List.getElem?_modify]
  split
  · cases t.segments[k]? <;> rfl
  · cases t.segments[k]? <;> rfl

/-- An end is told to the nested work at its place. -/
theorem nestedClock?_modify_ended (t : Tree) (place : Nat) (now : Int) (k : Nat) :
    (t.modify place (.ended now)).nestedClock? k
      = if place = k then Clock.told (t.nestedClock? k) (.stop now) else t.nestedClock? k := by
  rw [nestedClock?_modify]
  split
  · simp only [nestedClock?, Work.nestedClock?_ended]
    cases t.segments[k]? <;> rfl
  · rfl

/-- **A resolution leaves nested work as it is.** -/
theorem nestedClock?_resolving (t : Tree) (above : List String) (own : String) (now : Int)
    (k : Nat) : (t.resolving above own now).2.nestedClock? k = t.nestedClock? k := by
  have hframe : (((t.ensureAll none above).2.ensure (t.ensureAll none above).1
      own).2.noteStart now).nestedClock? k = t.nestedClock? k :=
    (nestedClock?_ensure _ _ own k).trans (t.nestedClock?_ensureAll none above k)
  rw [resolving_eq, nestedClock?_modify]
  split
  · simp only [Work.nestedClock?_resolving]
    exact hframe
  · exact hframe

/-- A level is no nested work. -/
theorem nestedClock?_of_place? {t : Tree} {text : String} {k : Nat} (h : t.place? text = some k) :
    t.nestedClock? k = none := by
  obtain ⟨s, hs, hl⟩ := exists_of_place? h
  have hn := (Entry.isLevel_iff.mp hl).1
  rw [nestedClock?, hs, Option.bind_some]
  cases hw : s.work with
  | level | resolver c => rfl
  | nested c => exact absurd (by rw [hw]; rfl) hn

/-- Nested work is there just where it has a clock. -/
theorem nestedClock?_eq {t : Tree} {k : Nat} {s : Entry} (hs : t.segments[k]? = some s)
    (hn : s.work.kind = .nested) : t.nestedClock? k = s.work.clock? := by
  rw [nestedClock?, hs, Option.bind_some]
  cases hw : s.work with
  | level | resolver c => rw [hw] at hn; contradiction
  | nested c => rfl

/-- An end that finds a level leaves nested work as it is. -/
theorem nestedClock?_ended_of_place? {t : Tree} {text : String} {place : Nat}
    (h : t.place? text = some place) (now : Int) (k : Nat) :
    (t.modify place (.ended now)).nestedClock? k = t.nestedClock? k := by
  rw [nestedClock?_modify_ended]
  split
  case isTrue e => rw [← e, nestedClock?_of_place? h]; rfl
  case isFalse => rfl

/-- Nested work that starts has the clock that its start told. -/
theorem nestedClock?_startNested (t : Tree) (parent : Option Nat) (label : String) (now : Int)
    {h : Handle} (hid : h.tree = t.id) :
    (t.startNested parent label now).tree.nestedClock? h.place
      = (if t.handle t.segments.length = h then [Mark.start now] else []).foldl Clock.told
          (t.nestedClock? h.place) := by
  have hplace : t.handle t.segments.length = h ↔ h.place = t.segments.length :=
    (Handle.eq_iff_of_tree_eq hid.symm).trans eq_comm
  rw [startNested, nestedClock?_push]
  by_cases e : h.place = t.segments.length
  · rw [if_pos (show _ = (t.noteStart now).segments.length from e), if_pos (hplace.mpr e), e,
      nestedClock?_length]
    rfl
  · rw [if_neg (show ¬ _ = (t.noteStart now).segments.length from e), if_neg (mt hplace.mp e)]
    rfl

/-- **One call tells the clock of nested work** what it tells its handle. -/
theorem Does.nestedClock? {t u : Tree} {call : Call} {answer : Answer} (hd : t.Does call u answer)
    {h : Handle} (hid : h.tree = t.id) : u.nestedClock? h.place
      = (call.nestedMarks h answer).foldl Clock.told (t.nestedClock? h.place) := by
  cases hd with
  | start hacc now => exact t.nestedClock?_resolving _ _ now _
  | @record path leaf hacc start stop =>
      have hown := t.place?_resolving path.levels.dropLast path.text start
      exact (nestedClock?_ended_of_place? hown stop _).trans (t.nestedClock?_resolving _ _ start _)
  | stop hp now => exact nestedClock?_ended_of_place? hp now _
  | @close closed hown now =>
      have hplace := Handle.eq_iff_of_tree_eq (hown.trans hid.symm)
      rw [nestedClock?_modify_ended, Call.nestedMarks]
      by_cases e : closed = h
      · rw [if_pos (hplace.mp e), if_pos e]
        rfl
      · rw [if_neg (mt hplace.mpr e), if_neg e]
        rfl
  | @refuseClose closed hown now =>
      rw [Call.nestedMarks, if_neg fun e : closed = h => hown (e ▸ hid)]
      rfl
  | nested owner label now => exact t.nestedClock?_startNested _ label now hid
  | nestedIn _ label now => exact t.nestedClock?_startNested _ label now hid
  | missStop | refuseStart | refuseRecord | refuseNestedIn => rfl

/-- **A run tells the clock of nested work** the history of its handle. -/
theorem nestedClock?_run {t : Tree} (hc : t.closed = false) {calls : List Call}
    (hf : ∀ call ∈ calls, ¬ call.Finishes) {h : Handle} (hid : h.tree = t.id) :
    (t.run calls).nestedClock? h.place
      = (gather (Call.nestedMarks h) t calls).foldl Clock.told (t.nestedClock? h.place) := by
  refine observe_run (Tree.nestedClock? · h.place) fun earlier call later e => ?_
  subst e
  obtain ⟨hsame, -, hdoes⟩ := does_after hc hf
  exact hdoes.nestedClock? (hid.trans hsame.symm)

end Tree

end GraphTrace.Segment
