import GraphTrace.Proofs.Segment.Levels

/-!
# Trees and their history

What a tree holds after a run, said by the calls of the run and their answers.  The runs here have
no `finish` in them, so the tree is open all the way.

* `Shows.run`: where the calls name their paths, the tree shows what it showed before and the
  beginnings of the paths that were resolved.
* `kind_workAt_run`: a level is a resolver when it was one before or its own text was resolved.
* `nestedAt_run`: nested work is what was there before and what a call of the run started; a place
  is that of one call (`Starts.call_unique`).

A resolution counts only if the tree records it (`Call.Resolves`): never for the empty path, and for
a leaf only with scalars captured.
-/

namespace GraphTrace.Segment

open Response (Path Element)

/-! ### Calls and what they stand for -/

/-- Whether a call reports a resolution of a path that a tree with this flag records. -/
def Call.Resolves (captures : Bool) (path : Path) : Call → Prop
  | .start p leaf _ | .record p leaf _ _ =>
    p = path ∧ path ≠ .empty ∧ (leaf = false ∨ captures = true)
  | _ => False

/-- The paths of which some call of a run reports a resolution. -/
def Resolved (captures : Bool) (calls : List Call) (path : Path) : Prop :=
  ∃ call ∈ calls, call.Resolves captures path

/-- The path that a call is about. -/
def Call.path? : Call → Option Path
  | .start p _ _ | .stop p _ | .record p _ _ _ | .nested p _ _ => some p
  | _                                                          => none

/-- Whether every key in the path of a call is a GraphQL name. -/
def Call.Named (call : Call) : Prop := ∀ p ∈ call.path?, p.Named

instance (call : Call) : Decidable call.Named :=
  inferInstanceAs (Decidable (∀ p ∈ call.path?, p.Named))

namespace Call.Resolves

variable {captures : Bool} {call : Call} {p q : Path}

theorem path?_eq (h : call.Resolves captures p) : call.path? = some p := by
  cases call with
  | start | record => exact congrArg some h.1
  | _ => exact h.elim

/-- A call resolves at most one path. -/
theorem unique (h : call.Resolves captures p) (h' : call.Resolves captures q) : p = q :=
  Option.some.inj (h.path?_eq.symm.trans h'.path?_eq)

theorem named (h : call.Resolves captures p) (hn : call.Named) : p.Named := hn p h.path?_eq

/-- The empty path is never resolved. -/
theorem ne_empty (h : call.Resolves captures p) : p ≠ .empty := by
  cases call with
  | start | record => exact h.2.1
  | _ => exact h.elim

end Call.Resolves

/-- A run resolves what its first call or the rest of it resolves. -/
theorem resolved_cons {captures : Bool} {call : Call} {calls : List Call} {path : Path} :
    Resolved captures (call :: calls) path
      ↔ call.Resolves captures path ∨ Resolved captures calls path := by
  simp [Resolved]

namespace Tree

/-- What the calls of a run answer, in order. -/
def answers (t : Tree) : List Call → List Answer
  | []           => []
  | call :: rest => (t.apply call).answer :: (t.apply call).tree.answers rest

/-- A call that is not `finish` leaves the number, the flag and whether the tree is closed. -/
theorem apply_fixed (t : Tree) {call : Call} (h : ¬ call.Finishes) :
    (t.apply call).tree.id = t.id ∧ (t.apply call).tree.capturesScalars = t.capturesScalars ∧
      (t.apply call).tree.closed = t.closed := by
  cases hn : call.nestedLabel? with
  | none => exact (apply_changes t h hn).fixed
  | some label =>
      rcases t.apply_nested hn with ⟨e, -⟩ | ⟨parent, now, -, e, -⟩
      · rw [e]; exact ⟨rfl, rfl, rfl⟩
      · rw [e]; exact ⟨rfl, rfl, rfl⟩

/-- A run without a `finish` keeps the number, the flag and the state of its tree. -/
theorem run_fixed (t : Tree) {calls : List Call} (h : ∀ call ∈ calls, ¬ call.Finishes) :
    (t.run calls).id = t.id ∧ (t.run calls).capturesScalars = t.capturesScalars ∧
      (t.run calls).closed = t.closed := by
  induction calls generalizing t with
  | nil => exact ⟨rfl, rfl, rfl⟩
  | cons call rest ih =>
      obtain ⟨hid, hcap, hcl⟩ := t.apply_fixed (h call (by simp))
      obtain ⟨hid', hcap', hcl'⟩ := ih (t.apply call).tree fun c hc => h c (by simp [hc])
      exact ⟨hid'.trans hid, hcap'.trans hcap, hcl'.trans hcl⟩

/-! ### What one call does to an open tree -/

/-- What a call makes of an open tree, and what it answers. -/
inductive Does (t : Tree) : Call → Tree → Answer → Prop where
  | start {path : Path} {leaf : Bool} (h : t.Accepts path leaf) (now : Int) :
      Does t (.start path leaf now) (t.resolving path.levels.dropLast path.text now).2
        (.handle (some (t.handle (t.resolving path.levels.dropLast path.text now).1)))
  | refuseStart {path : Path} {leaf : Bool} (h : ¬ t.Accepts path leaf) (now : Int) :
      Does t (.start path leaf now) t (.handle none)
  | record {path : Path} {leaf : Bool} (h : t.Accepts path leaf) (start stop : Int) :
      Does t (.record path leaf start stop)
        ((t.resolving path.levels.dropLast path.text start).2.modify
          (t.resolving path.levels.dropLast path.text start).1 (.ended stop))
        (.handle (some (t.handle (t.resolving path.levels.dropLast path.text start).1)))
  | refuseRecord {path : Path} {leaf : Bool} (h : ¬ t.Accepts path leaf) (start stop : Int) :
      Does t (.record path leaf start stop) t (.handle none)
  | stop {path : Path} {k : Nat} (h : t.place? path.text = some k) (now : Int) :
      Does t (.stop path now) (t.modify k (.ended now)) .nothing
  | missStop {path : Path} (h : t.place? path.text = none) (now : Int) :
      Does t (.stop path now) t .nothing
  | close {handle : Handle} (h : handle.tree = t.id) (now : Int) :
      Does t (.close handle now) (t.modify handle.place (.ended now)) .nothing
  | refuseClose {handle : Handle} (h : handle.tree ≠ t.id) (now : Int) :
      Does t (.close handle now) t .nothing
  | nested (owner : Path) (label : String) (now : Int) :
      Does t (.nested owner label now) (t.startNested (t.closest? owner) label now).tree
        (.handle (some (t.handle t.segments.length)))
  | nestedIn {parent : Handle} (h : parent.tree = t.id ∧ parent.place < t.segments.length)
      (label : String) (now : Int) :
      Does t (.nestedIn parent label now) (t.startNested (some parent.place) label now).tree
        (.handle (some (t.handle t.segments.length)))
  | refuseNestedIn {parent : Handle}
      (h : ¬ (parent.tree = t.id ∧ parent.place < t.segments.length)) (label : String)
      (now : Int) : Does t (.nestedIn parent label now) t (.handle none)

/-- **Inversion of a call on an open tree.** -/
theorem does_apply {t : Tree} (hc : t.closed = false) {call : Call} (hf : ¬ call.Finishes) :
    t.Does call (t.apply call).tree (t.apply call).answer := by
  cases call with
  | start path leaf now =>
      by_cases h : t.Accepts path leaf
      · rw [apply, start_of_accepts hc h]
        exact .start h now
      · obtain ⟨htree, hanswer⟩ := start_of_not_accepts h now
        simp only [apply, Outcome.map, htree, hanswer]
        exact .refuseStart h now
  | record path leaf start stop =>
      by_cases h : t.Accepts path leaf
      · obtain ⟨htree, hanswer⟩ := record_of_accepts hc h start stop
        simp only [apply, Outcome.map, htree, hanswer]
        exact .record h start stop
      · obtain ⟨htree, hanswer⟩ := record_of_not_accepts h start stop
        simp only [apply, Outcome.map, htree, hanswer]
        exact .refuseRecord h start stop
  | stop path now =>
      simp only [apply, Outcome.map]
      cases h : t.place? path.text with
      | some k => rw [stop_of_place? hc h]; exact .stop h now
      | none => rw [stop_of_missing h]; exact .missStop h now
  | close handle now =>
      simp only [apply, Outcome.map]
      by_cases h : handle.tree = t.id
      · rw [close_of_own hc h]
        exact .close h now
      · rw [close_of_foreign h]
        exact .refuseClose h now
  | nested owner label now =>
      rw [apply, nested_of_open hc]
      exact .nested owner label now
  | nestedIn parent label now =>
      rw [apply]
      by_cases h : parent.tree = t.id ∧ parent.place < t.segments.length
      · rw [nestedIn_of_own hc h.1 h.2]
        exact .nestedIn h label now
      · rw [nestedIn_of_unknown h]
        exact .refuseNestedIn h label now
  | finish label now => exact absurd trivial hf

/-- What a call leaves of an open tree, by what the call stands for. -/
inductive Step (t : Tree) (call : Call) : Tree → Prop where
  /-- The call is refused, or finds nothing to end. -/
  | still (h : ∀ p, ¬ call.Resolves t.capturesScalars p) : Step t call t
  | ended (h : ∀ p, ¬ call.Resolves t.capturesScalars p) (place : Nat) (now : Int) :
      Step t call (t.modify place (.ended now))
  | resolved {path : Path} (h : call.Resolves t.capturesScalars path) (now : Int) :
      Step t call (t.resolving path.levels.dropLast path.text now).2
  /-- A resolution whose end is known too. -/
  | recorded {path : Path} (h : call.Resolves t.capturesScalars path) (start stop : Int) :
      Step t call ((t.resolving path.levels.dropLast path.text start).2.modify
        (t.resolving path.levels.dropLast path.text start).1 (.ended stop))
  | nested (h : ∀ p, ¬ call.Resolves t.capturesScalars p) {parent : Option Nat}
      (hp : t.HasPlace parent) (label : String) (now : Int) :
      Step t call (t.startNested parent label now).tree

theorem Does.step {t u : Tree} {call : Call} {answer : Answer} (h : t.Does call u answer) :
    t.Step call u := by
  cases h with
  | start h now =>
      refine .resolved ?_ now
      exact ⟨rfl, h⟩
  | record h start stop =>
      refine .recorded ?_ start stop
      exact ⟨rfl, h⟩
  | refuseStart h now | refuseRecord h =>
      exact .still fun p hp => h (hp.1 ▸ hp.2)
  | stop h now | close h now =>
      refine .ended ?_ _ now
      exact fun _ hp => hp
  | missStop | refuseClose | refuseNestedIn =>
      refine .still ?_
      exact fun _ hp => hp
  | nested owner label now =>
      refine .nested ?_ (t.closest?_hasPlace owner) label now
      exact fun _ hp => hp
  | nestedIn h label now =>
      refine .nested ?_ (fun j e => Option.some.inj e ▸ h.2) label now
      exact fun _ hp => hp

/-- Every call but `finish` is a step of an open tree. -/
theorem step_apply {t : Tree} (hc : t.closed = false) {call : Call} (hf : ¬ call.Finishes) :
    t.Step call (t.apply call).tree :=
  (does_apply hc hf).step

/-! ### Levels after a run -/

/-- **One call shows the beginnings of the path it resolves**, and nothing else. -/
theorem Shows.step {t u : Tree} {shown : Path → Prop} (h : t.Shows shown) {call : Call}
    (hn : call.Named) (hs : t.Step call u) :
    u.Shows (fun q => shown q ∨ ∃ p, call.Resolves t.capturesScalars p ∧ q.Begins p) := by
  -- A call that resolves nothing, and one that resolves `path`.
  have quiet : (∀ p, ¬ call.Resolves t.capturesScalars p) → u.Shows shown →
      u.Shows (fun q => shown q ∨ ∃ p, call.Resolves t.capturesScalars p ∧ q.Begins p) :=
    fun hno hu => hu.congr fun q =>
      ⟨.inl, fun hq => hq.elim (fun hq => hq) fun ⟨p, hp, _⟩ => absurd hp (hno p)⟩
  have one : ∀ {path : Path}, call.Resolves t.capturesScalars path →
      u.Shows (fun q => shown q ∨ q.Begins path) →
      u.Shows (fun q => shown q ∨ ∃ p, call.Resolves t.capturesScalars p ∧ q.Begins p) :=
    fun hp hu => hu.congr fun q => or_congr_right
      ⟨fun hq => ⟨_, hp, hq⟩, fun ⟨p, hp', hq⟩ => hp'.unique hp ▸ hq⟩
  cases hs with
  | still hno => exact quiet hno h
  | ended hno place now => exact quiet hno (h.modify place (Work.keepsNested_ended now))
  | resolved hp now =>
      exact one hp (h.resolving (hp.named hn) hp.ne_empty now).1
  | recorded hp start stop =>
      exact one hp ((h.resolving (hp.named hn) hp.ne_empty start).1.modify _
        (Work.keepsNested_ended stop))
  | nested hno hp label now =>
      exact quiet hno ((h.noteStart now).push_nested hp label ⟨now, none⟩)

/-- **A run shows the beginnings of the paths it resolves**, and nothing else. -/
theorem Shows.run {t : Tree} {shown : Path → Prop} (h : t.Shows shown) (hc : t.closed = false)
    {calls : List Call} (hf : ∀ call ∈ calls, ¬ call.Finishes) (hn : ∀ call ∈ calls, call.Named) :
    (t.run calls).Shows
      (fun q => shown q ∨ ∃ p, Resolved t.capturesScalars calls p ∧ q.Begins p) := by
  induction calls generalizing t shown with
  | nil => exact h.congr fun q => by simp [Resolved]
  | cons call rest ih =>
      obtain ⟨-, hcap, hcl⟩ := t.apply_fixed (hf call (by simp))
      have hstep := h.step (hn call (by simp)) (step_apply hc (hf call (by simp)))
      have hrun := ih hstep (hcl.trans hc) (fun c hm => hf c (by simp [hm]))
        (fun c hm => hn c (by simp [hm]))
      refine hrun.congr fun q => ?_
      simp only [hcap, resolved_cons, or_and_right, exists_or, or_assoc]

/-! ### Kinds after a run -/

/-- A resolution makes a resolver of the level at its own text. -/
theorem kind_workAt_resolving (t : Tree) (above : List String) (own : String) (now : Int)
    (text : String) : ((t.resolving above own now).2.workAt text).kind = .resolver
      ↔ (t.workAt text).kind = .resolver ∨ own = text := by
  rw [workAt_resolving]
  by_cases e : text = own
  · rw [if_pos e, Work.kind_resolving, if_neg (t.kind_workAt_ne_nested own)]
    simp [e]
  · rw [if_neg e]
    simp [Ne.symm e]

/-- An end leaves the kind of every level. -/
theorem kind_workAt_ended (t : Tree) (place : Nat) (now : Int) (text : String) :
    ((t.modify place (.ended now)).workAt text).kind = (t.workAt text).kind := by
  rw [workAt_modify _ _ (Work.keepsNested_ended now)]
  split
  · exact Work.kind_ended now _
  · rfl

/-- A call makes a resolver of the level whose text it resolves, and of no other. -/
theorem kind_workAt_step {t u : Tree} {call : Call} (hs : t.Step call u) (text : String) :
    (u.workAt text).kind = .resolver ↔ (t.workAt text).kind = .resolver ∨
      ∃ p, call.Resolves t.capturesScalars p ∧ p.text = text := by
  have quiet : (∀ p, ¬ call.Resolves t.capturesScalars p) →
      ¬ ∃ p, call.Resolves t.capturesScalars p ∧ p.text = text := fun hno ⟨p, hp, _⟩ => hno p hp
  have one : ∀ {path : Path}, call.Resolves t.capturesScalars path →
      (path.text = text ↔ ∃ p, call.Resolves t.capturesScalars p ∧ p.text = text) := fun hp =>
    ⟨fun e => ⟨_, hp, e⟩, fun ⟨p, hp', e⟩ => hp'.unique hp ▸ e⟩
  cases hs with
  | still hno => simp [quiet hno]
  | ended hno place now => simp [quiet hno, kind_workAt_ended]
  | resolved hp now => rw [kind_workAt_resolving, one hp]
  | recorded hp start stop => rw [kind_workAt_ended, kind_workAt_resolving, one hp]
  | nested hno hp label now =>
      rw [or_iff_left (quiet hno), startNested, workAt_push_nested]
      rfl

/-- **A level is a resolver** when it was one before the run or the run resolved its own text. -/
theorem kind_workAt_run {t : Tree} (hc : t.closed = false) {calls : List Call}
    (hf : ∀ call ∈ calls, ¬ call.Finishes) (text : String) :
    ((t.run calls).workAt text).kind = .resolver ↔ (t.workAt text).kind = .resolver ∨
      ∃ p, Resolved t.capturesScalars calls p ∧ p.text = text := by
  induction calls generalizing t with
  | nil => simp [run_nil, Resolved]
  | cons call rest ih =>
      obtain ⟨-, hcap, hcl⟩ := t.apply_fixed (hf call (by simp))
      rw [run_cons, ih (hcl.trans hc) (fun c hm => hf c (by simp [hm])), hcap,
        kind_workAt_step (step_apply hc (hf call (by simp)))]
      simp only [resolved_cons, or_and_right, exists_or, or_assoc]

/-! ### Nested work after a run -/

/-- Whether nested work with this label stands at a place. -/
def NestedAt (t : Tree) (label : String) (k : Nat) : Prop :=
  ∃ s, t.segments[k]? = some s ∧ s.work.kind = .nested ∧ s.label = label

/-- Whether the `i`-th call of a run starts nested work with this label, at place `k`. -/
def Starts (t : Tree) (calls : List Call) (i : Nat) (label : String) (k : Nat) : Prop :=
  calls[i]?.bind Call.nestedLabel? = some label ∧
    (t.answers calls)[i]? = some (.handle (some ⟨t.id, k⟩))

/-- Whether the `i`-th call of a run asks for nested work with this label and is given a handle. -/
def GrantsNested (t : Tree) (calls : List Call) (i : Nat) (label : String) : Prop :=
  calls[i]?.bind Call.nestedLabel? = some label ∧
    ∃ h, (t.answers calls)[i]? = some (.handle (some h))

theorem NestedAt.lt {t : Tree} {label : String} {k : Nat} (h : t.NestedAt label k) :
    k < t.segments.length := by
  obtain ⟨s, hs, -⟩ := h
  exact (List.getElem?_eq_some_iff.mp hs).1

/-- A new segment is nested work if that is its kind. -/
theorem nestedAt_push {t : Tree} {s : Entry} {label : String} {k : Nat} :
    (t.push s).NestedAt label k ↔ t.NestedAt label k ∨
      k = t.segments.length ∧ s.work.kind = .nested ∧ s.label = label := by
  constructor
  · rintro ⟨r, hr, hn, hl⟩
    have hk := (List.getElem?_eq_some_iff.mp hr).1
    by_cases hlt : k < t.segments.length
    · exact .inl ⟨r, (getElem?_push_of_lt hlt).symm.trans hr, hn, hl⟩
    · obtain rfl : k = t.segments.length := by simp [push] at hk; omega
      obtain rfl := Option.some.inj ((t.getElem?_push_length s).symm.trans hr)
      exact .inr ⟨rfl, hn, hl⟩
  · rintro (h | ⟨rfl, hn, hl⟩)
    · obtain ⟨r, hr, hn, hl⟩ := h
      exact ⟨r, (getElem?_push_of_lt (List.getElem?_eq_some_iff.mp hr).1).trans hr, hn, hl⟩
    · exact ⟨s, t.getElem?_push_length s, hn, hl⟩

theorem nestedAt_modify {t : Tree} {place : Nat} {f : Work → Work} (hf : Work.KeepsNested f)
    {label : String} {k : Nat} : (t.modify place f).NestedAt label k ↔ t.NestedAt label k := by
  simp only [NestedAt, modify, List.getElem?_modify, Option.map_eq_map, Option.map_eq_some_iff]
  constructor
  · rintro ⟨_, ⟨s, hs, rfl⟩, hn, hl⟩
    refine ⟨s, hs, ?_, ?_⟩
    · split at hn
      · exact (hf _).mp hn
      · exact hn
    · split at hl <;> exact hl
  · rintro ⟨s, hs, hn, hl⟩
    refine ⟨_, ⟨s, hs, rfl⟩, ?_, ?_⟩
    · split
      · exact (hf _).mpr hn
      · exact hn
    · split <;> exact hl

/-- No change starts nested work or removes any. -/
theorem Change.nestedAt {t u : Tree} (c : Change t u) {label : String} {k : Nat} :
    u.NestedAt label k ↔ t.NestedAt label k := by
  cases c with
  | note now => exact Iff.rfl
  | level hp ht => simp [nestedAt_push, Work.kind]
  | resolve place now => exact nestedAt_modify (Work.keepsNested_resolving now)
  | stop place now => exact nestedAt_modify (Work.keepsNested_ended now)

theorem Changes.nestedAt {t u : Tree} (c : Changes t u) {label : String} {k : Nat} :
    u.NestedAt label k ↔ t.NestedAt label k :=
  c.keeps (P := fun u => u.NestedAt label k ↔ t.NestedAt label k)
    (fun _ _ c h => c.nestedAt.trans h) Iff.rfl

/-- Nested work that starts is at the new place. -/
theorem nestedAt_startNested {t : Tree} {parent : Option Nat} {own : String} {now : Int}
    {label : String} {k : Nat} : (t.startNested parent own now).tree.NestedAt label k ↔
      t.NestedAt label k ∨ k = t.segments.length ∧ own = label := by
  have h : ((t.noteStart now).push ⟨own, parent, .nested ⟨now, none⟩⟩).NestedAt label k ↔ _ :=
    nestedAt_push
  simp only [Work.kind, true_and] at h
  exact h

section Starts

variable {t : Tree} {call : Call} {rest : List Call} {label : String} {k : Nat}

/-- The first call starts nested work if it asks for it and is given the handle. -/
theorem starts_zero : t.Starts (call :: rest) 0 label k ↔
    call.nestedLabel? = some label ∧ (t.apply call).answer = .handle (some ⟨t.id, k⟩) := by
  simp [Starts, answers]

/-- What a later call starts, it starts in what the first one left. -/
theorem starts_succ (hf : ¬ call.Finishes) {i : Nat} :
    t.Starts (call :: rest) (i + 1) label k ↔ (t.apply call).tree.Starts rest i label k := by
  simp [Starts, answers, (t.apply_fixed hf).1]

/-- One call starts work behind all segments there are, and puts it at that place. -/
theorem starts_zero_iff (hf : ¬ call.Finishes) : t.Starts (call :: rest) 0 label k ↔
    (t.apply call).tree.NestedAt label k ∧ ¬ t.NestedAt label k := by
  rw [starts_zero]
  cases hn : call.nestedLabel? with
  | none => simp [(apply_changes t hf hn).nestedAt]
  | some own =>
      rcases t.apply_nested hn with ⟨e, ha⟩ | ⟨parent, now, -, e, ha⟩
      · simp [e, ha]
      · -- The new work stands behind all segments, where nothing was before.
        rw [e, ha, nestedAt_startNested, or_and_right, and_not_self_iff, false_or]
        constructor
        · rintro ⟨hl, hk⟩
          simp only [handle, Answer.handle.injEq, Option.some.injEq, Handle.mk.injEq,
            true_and] at hk
          exact ⟨⟨hk.symm, Option.some.inj hl⟩, fun h => absurd h.lt (by omega)⟩
        · rintro ⟨⟨hk, hl⟩, -⟩
          exact ⟨congrArg some hl, by rw [hk, handle]⟩

/-- Nested work stays where it is through every call. -/
theorem NestedAt.apply (h : t.NestedAt label k) (hf : ¬ call.Finishes) :
    (t.apply call).tree.NestedAt label k := by
  cases hn : call.nestedLabel? with
  | none => exact (apply_changes t hf hn).nestedAt.mpr h
  | some own =>
      rcases t.apply_nested hn with ⟨e, -⟩ | ⟨parent, now, -, e, -⟩
      · rwa [e]
      · rw [e, nestedAt_startNested]
        exact .inl h

end Starts

/-- **The nested work after a run** is what was there before and what its calls started. -/
theorem nestedAt_run {t : Tree} {calls : List Call} (hf : ∀ call ∈ calls, ¬ call.Finishes)
    {label : String} {k : Nat} : (t.run calls).NestedAt label k ↔
      t.NestedAt label k ∨ ∃ i, t.Starts calls i label k := by
  induction calls generalizing t with
  | nil => simp [run_nil, Starts]
  | cons call rest ih =>
      have hf' := hf call (by simp)
      rw [run_cons, ih fun c hm => hf c (by simp [hm]),
        ← Nat.or_exists_add_one (p := fun i => t.Starts (call :: rest) i label k),
        starts_zero_iff hf']
      simp only [starts_succ hf', ← or_assoc]
      refine or_congr_left ⟨fun h => ?_, fun h => h.elim (·.apply hf') (·.1)⟩
      by_cases ht : t.NestedAt label k
      · exact .inl ht
      · exact .inr ⟨h, ht⟩

/-- What a call started is there after the run. -/
theorem Starts.nestedAt {t : Tree} {calls : List Call} (hf : ∀ call ∈ calls, ¬ call.Finishes)
    {i : Nat} {label : String} {k : Nat} (h : t.Starts calls i label k) :
    (t.run calls).NestedAt label k :=
  (nestedAt_run hf).mpr (.inr ⟨i, h⟩)

/-- Nested work has one label. -/
theorem NestedAt.label_eq {t : Tree} {label label' : String} {k : Nat} (h : t.NestedAt label k)
    (h' : t.NestedAt label' k) : label = label' := by
  obtain ⟨s, hs, -, rfl⟩ := h
  obtain ⟨s', hs', -, rfl⟩ := h'
  rw [Option.some.inj (hs.symm.trans hs')]

/-- Where a run starts work there was none before. -/
theorem Starts.not_nestedAt {t : Tree} {calls : List Call} (hf : ∀ call ∈ calls, ¬ call.Finishes)
    {i : Nat} {label label' : String} {k : Nat} (h : t.Starts calls i label k) :
    ¬ t.NestedAt label' k := by
  induction calls generalizing t i with
  | nil => simp [Starts] at h
  | cons call rest ih =>
      have hf' := hf call (by simp)
      intro hold
      cases i with
      | zero =>
          obtain ⟨hnew, hno⟩ := (starts_zero_iff hf').mp h
          exact hno (hnew.label_eq (hold.apply hf') ▸ hold)
      | succ i =>
          exact ih (fun c hm => hf c (by simp [hm])) ((starts_succ hf').mp h) (hold.apply hf')

/-- **A place belongs to one call**: no two calls of a run start their work at the same place. -/
theorem Starts.call_unique {t : Tree} {calls : List Call} (hf : ∀ call ∈ calls, ¬ call.Finishes)
    {i j : Nat} {label label' : String} {k : Nat} (hi : t.Starts calls i label k)
    (hj : t.Starts calls j label' k) : i = j := by
  induction calls generalizing t i j with
  | nil => simp [Starts] at hi
  | cons call rest ih =>
      have hf' := hf call (by simp)
      have hrest : ∀ c ∈ rest, ¬ c.Finishes := fun c hm => hf c (by simp [hm])
      cases i with
      | zero =>
          cases j with
          | zero => rfl
          | succ j =>
              exact absurd ((starts_zero_iff hf').mp hi).1
                (((starts_succ hf').mp hj).not_nestedAt hrest)
      | succ i =>
          cases j with
          | zero =>
              exact absurd ((starts_zero_iff hf').mp hj).1
                (((starts_succ hf').mp hi).not_nestedAt hrest)
          | succ j => rw [ih hrest ((starts_succ hf').mp hi) ((starts_succ hf').mp hj)]

/-- The handle on nested work is one on this tree, at the place where the work started. -/
theorem grantsNested_iff {t : Tree} {calls : List Call} (hf : ∀ call ∈ calls, ¬ call.Finishes)
    {i : Nat} {label : String} :
    t.GrantsNested calls i label ↔ ∃ k, t.Starts calls i label k := by
  refine ⟨fun h => ?_, fun ⟨k, hl, ha⟩ => ⟨hl, _, ha⟩⟩
  induction calls generalizing t i with
  | nil => simp [GrantsNested] at h
  | cons call rest ih =>
      obtain ⟨hl, h, ha⟩ := h
      have hf' := hf call (by simp)
      cases i with
      | zero =>
          have hl' : call.nestedLabel? = some label := by simpa using hl
          have ha' : (t.apply call).answer = .handle (some h) := by simpa [answers] using ha
          rcases t.apply_nested hl' with ⟨-, e⟩ | ⟨parent, now, -, -, e⟩
          · rw [e] at ha'
            simp at ha'
          · exact ⟨t.segments.length, starts_zero.mpr ⟨hl', e⟩⟩
      | succ i =>
          obtain ⟨k, hk⟩ := ih (fun c hm => hf c (by simp [hm]))
            (t := (t.apply call).tree) ⟨by simpa using hl, h, by simpa [answers] using ha⟩
          exact ⟨k, (starts_succ hf').mpr hk⟩

end Tree

end GraphTrace.Segment
