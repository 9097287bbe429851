import GraphTrace.Segment.Call

/-!
# What a call can change in a tree

There are three kinds of calls.  A call about levels takes a tree to another one by a chain of small
changes (`Change`, `apply_changes`): the root's start is moved back, a missing level is created
below a place that exists, or the work at one place is resolved or ended.  A call about nested work
is refused and changes nothing, or starts its work below a place that exists (`apply_nested`).  And
`finish` only closes the tree (`finish_tree`).  So what these three keep, every run keeps
(`run_keeps`).

Two facts about the places of a tree hold of the empty one and of every later one (`Sound`):

* the segment above another one came before it;
* no two levels have the same text, so a level is found at its place and nowhere else.

They hold for all paths, also those whose texts collide.
-/

namespace GraphTrace.Segment

/-! ### Levels and work -/

/-- A segment is a level if it is no nested work, and that of its label. -/
theorem Entry.isLevel_iff {s : Entry} {text : String} :
    s.isLevel text ↔ s.work.kind ≠ .nested ∧ s.label = text := by
  simp [isLevel]

/-- A resolution makes a resolver of everything but nested work. -/
theorem Work.kind_resolving (now : Int) (w : Work) :
    (w.resolving now).kind = if w.kind = .nested then .nested else .resolver := by
  cases w <;> rfl

theorem Work.kind_ended (now : Int) (w : Work) : (w.ended now).kind = w.kind := by
  cases w <;> rfl

/-- Only the root stands for the operation. -/
theorem Work.kind_ne_operation (w : Work) : w.kind ≠ .operation := by
  cases w <;> simp [kind]

/-- Work that is resolved and ended keeps nothing of what was recorded before. -/
theorem Work.ended_resolving {w : Work} (h : w.kind ≠ .nested) (start stop : Int) :
    (w.resolving start).ended stop = .resolver ⟨start, some (Clock.span start stop)⟩ := by
  cases w with
  | level | resolver c => rfl
  | nested c => exact absurd rfl h

/-- Nested work stays nested, and nothing else becomes nested. -/
def Work.KeepsNested (f : Work → Work) : Prop := ∀ w, (f w).kind = .nested ↔ w.kind = .nested

theorem Work.keepsNested_resolving (now : Int) : KeepsNested (.resolving now) := fun w => by
  cases w <;> simp [resolving, kind]

theorem Work.keepsNested_ended (now : Int) : KeepsNested (.ended now) := fun w => by
  rw [kind_ended]

/-- Whether a call asks for the tree to be closed. -/
def Call.Finishes : Call → Prop
  | .finish _ _ => True
  | _           => False

instance : DecidablePred Call.Finishes
  | .finish _ _ => .isTrue trivial
  | .start _ _ _ | .stop _ _ | .record _ _ _ _ | .nested _ _ _ | .nestedIn _ _ _ | .close _ _ =>
    .isFalse fun h => h

/-- The label of the nested work that a call asks for. -/
def Call.nestedLabel? : Call → Option String
  | .nested _ label _ | .nestedIn _ label _ => some label
  | _                                       => none

namespace Tree

/-! ### Finding a level -/

/-- A level that is found nowhere has no segment. -/
theorem place?_eq_none_iff {t : Tree} {text : String} :
    t.place? text = none ↔ ∀ s ∈ t.segments, ¬ s.isLevel text := by
  simp [place?, List.findIdx?_eq_none_iff]

/-- What is found at a text is its level. -/
theorem exists_of_place? {t : Tree} {text : String} {k : Nat} (h : t.place? text = some k) :
    ∃ s, t.segments[k]? = some s ∧ s.isLevel text := by
  obtain ⟨hk, hs, -⟩ := List.findIdx?_eq_some_iff_getElem.mp h
  exact ⟨_, List.getElem?_eq_getElem hk, hs⟩

theorem place?_lt {t : Tree} {text : String} {k : Nat} (h : t.place? text = some k) :
    k < t.segments.length := by
  obtain ⟨s, hs, -⟩ := exists_of_place? h
  exact (List.getElem?_eq_some_iff.mp hs).1

theorem place?_noteStart (t : Tree) (now : Int) (text : String) :
    (t.noteStart now).place? text = t.place? text := rfl

/-- A segment put behind the others is found where none of them is. -/
theorem place?_push (t : Tree) (s : Entry) (text : String) :
    (t.push s).place? text
      = (t.place? text).or (if s.isLevel text then some t.segments.length else none) := by
  simp only [place?, push, List.findIdx?_append, List.findIdx?_cons, List.findIdx?_nil]
  cases s.isLevel text <;> simp

theorem place?_push_of_some {t : Tree} {s : Entry} {text : String} {k : Nat}
    (h : t.place? text = some k) : (t.push s).place? text = some k := by
  rw [place?_push, h, Option.some_or]

theorem place?_push_of_not_isLevel {t : Tree} {s : Entry} {text : String} (h : ¬ s.isLevel text) :
    (t.push s).place? text = t.place? text := by
  rw [place?_push, if_neg h, Option.or_none]

theorem getElem?_push_of_lt {t : Tree} {s : Entry} {k : Nat} (h : k < t.segments.length) :
    (t.push s).segments[k]? = t.segments[k]? :=
  List.getElem?_append_left h

theorem getElem?_push_length (t : Tree) (s : Entry) :
    (t.push s).segments[t.segments.length]? = some s := by
  simp [push]

/-- What other work leaves of a segment, a change leaves of the segments. -/
theorem map_segments_modify {α : Type} {f : Work → Work} {g : Entry → α}
    (h : ∀ s : Entry, g { s with work := f s.work } = g s) (t : Tree) (place : Nat) :
    (t.modify place f).segments.map g = t.segments.map g := by
  refine List.ext_getElem? fun k => ?_
  rw [List.getElem?_map, List.getElem?_map, modify, List.getElem?_modify]
  cases t.segments[k]? with
  | none => rfl
  | some s => by_cases e : place = k <;> simp [e, h]

theorem place?_modify (t : Tree) (place : Nat) {f : Work → Work} (h : Work.KeepsNested f)
    (text : String) : (t.modify place f).place? text = t.place? text := by
  have hlevel : ∀ s : Entry, Entry.isLevel { s with work := f s.work } text = s.isLevel text :=
    fun s => by rw [Bool.eq_iff_iff, Entry.isLevel_iff, Entry.isLevel_iff, ne_eq, h, ne_eq]
  have hsame := congrArg (List.findIdx? fun found => found)
    (map_segments_modify (g := (·.isLevel text)) hlevel t place)
  rwa [List.findIdx?_map, List.findIdx?_map] at hsame

/-! ### Changes -/

/-- The root, or the place of a segment. -/
def HasPlace (t : Tree) (parent : Option Nat) : Prop := ∀ j, parent = some j → j < t.segments.length

theorem hasPlace_root (t : Tree) : t.HasPlace none := fun _ h => nomatch h

theorem hasPlace_of_place? {t : Tree} {text : String} {k : Nat} (h : t.place? text = some k) :
    t.HasPlace (some k) := fun _ e => Option.some.inj e ▸ place?_lt h

/-- A change in which no nested work starts. -/
inductive Change : Tree → Tree → Prop where
  | note (t : Tree) (now : Int) : Change t (t.noteStart now)
  | level {t : Tree} {parent : Option Nat} {text : String} (hp : t.HasPlace parent)
      (ht : t.place? text = none) : Change t (t.push ⟨text, parent, .level⟩)
  | resolve (t : Tree) (place : Nat) (now : Int) : Change t (t.modify place (.resolving now))
  | stop (t : Tree) (place : Nat) (now : Int) : Change t (t.modify place (.ended now))

/-- A chain of changes. -/
inductive Changes : Tree → Tree → Prop where
  | refl (t : Tree) : Changes t t
  | more {t u v : Tree} (h : Change t u) (c : Changes u v) : Changes t v

theorem Changes.one {t u : Tree} (h : Change t u) : Changes t u := .more h (.refl _)

theorem Changes.trans {t u v : Tree} (h₁ : Changes t u) (h₂ : Changes u v) : Changes t v := by
  induction h₁ with
  | refl => exact h₂
  | more h _ ih => exact .more h (ih h₂)

/-- What every change keeps, a chain of changes keeps. -/
theorem Changes.keeps {P : Tree → Prop} (step : ∀ t u, Change t u → P t → P u) {t u : Tree}
    (h : Changes t u) (ht : P t) : P u := by
  induction h with
  | refl => exact ht
  | more h _ ih => exact ih (step _ _ h ht)

/-- What a change never touches: the number of the tree, its flag, and whether it is closed. -/
theorem Changes.fixed {t u : Tree} (h : Changes t u) :
    u.id = t.id ∧ u.capturesScalars = t.capturesScalars ∧ u.closed = t.closed := by
  refine h.keeps (P := fun u => u.id = t.id ∧ u.capturesScalars = t.capturesScalars ∧
    u.closed = t.closed) (fun _ _ c ht => ?_) ⟨rfl, rfl, rfl⟩
  cases c <;> exact ht

/-! ### Calls are chains of changes -/

/-- A level is there, at its place, once it was asked for. -/
theorem place?_ensure (t : Tree) (parent : Option Nat) (text : String) :
    (t.ensure parent text).2.place? text = some (t.ensure parent text).1 := by
  unfold ensure
  split
  · assumption
  case h_2 h =>
    rw [place?_push, h]
    simp [Entry.isLevel, Work.kind]

/-- A level that is asked for is there or is one change away. -/
theorem ensure_changes {t : Tree} {parent : Option Nat} (hp : t.HasPlace parent) (text : String) :
    Changes t (t.ensure parent text).2 := by
  unfold ensure
  split
  · exact .refl t
  case h_2 h => exact .one (.level hp h)

/-- Levels that are asked for are there or are created, and so is the place below which the next one
goes. -/
theorem ensureAll_changes {t : Tree} {parent : Option Nat} (hp : t.HasPlace parent)
    (texts : List String) :
    Changes t (t.ensureAll parent texts).2 ∧
      (t.ensureAll parent texts).2.HasPlace (t.ensureAll parent texts).1 := by
  induction texts generalizing t parent with
  | nil => exact ⟨.refl t, hp⟩
  | cons text rest ih =>
      obtain ⟨h, hplace⟩ := ih (hasPlace_of_place? (place?_ensure t parent text))
      exact ⟨(ensure_changes hp text).trans h, hplace⟩

/-- The last of several levels is asked for below the ones before it. -/
theorem ensureAll_concat (t : Tree) (parent : Option Nat) (texts : List String) (own : String) :
    t.ensureAll parent (texts ++ [own])
      = (some ((t.ensureAll parent texts).2.ensure (t.ensureAll parent texts).1 own).1,
        ((t.ensureAll parent texts).2.ensure (t.ensureAll parent texts).1 own).2) := by
  induction texts generalizing t parent with
  | nil => rfl
  | cons text rest ih => exact ih _ _

/-- A resolution creates what is missing, notes the start and resolves its own level. -/
theorem resolving_eq (t : Tree) (above : List String) (own : String) (now : Int) :
    t.resolving above own now
      = (((t.ensureAll none above).2.ensure (t.ensureAll none above).1 own).1,
        (((t.ensureAll none above).2.ensure (t.ensureAll none above).1 own).2.noteStart now).modify
          ((t.ensureAll none above).2.ensure (t.ensureAll none above).1 own).1 (.resolving now)) :=
  rfl

/-- The place of a resolution is that of its own level. -/
theorem place?_resolving (t : Tree) (above : List String) (own : String) (now : Int) :
    (t.resolving above own now).2.place? own = some (t.resolving above own now).1 := by
  rw [resolving_eq, place?_modify _ _ (Work.keepsNested_resolving now), place?_noteStart,
    place?_ensure]

/-- A resolution is a chain of changes. -/
theorem resolving_changes (t : Tree) (above : List String) (own : String) (now : Int) :
    Changes t (t.resolving above own now).2 := by
  obtain ⟨h, hp⟩ := ensureAll_changes t.hasPlace_root above
  exact (h.trans (ensure_changes hp own)).trans (.more (.note _ now) (.one (.resolve _ _ now)))

theorem start_changes (t : Tree) (path : Response.Path) (leaf : Bool) (now : Int) :
    Changes t (t.start path leaf now).tree := by
  unfold start
  split
  · exact .refl t
  · split
    · exact .refl t
    · split
      · exact .refl t
      · exact resolving_changes t _ _ now

theorem stop_changes (t : Tree) (path : Response.Path) (now : Int) :
    Changes t (t.stop path now).tree := by
  unfold stop
  split
  · exact .refl t
  · split
    · exact .one (.stop t _ now)
    · exact .refl t

theorem close_changes (t : Tree) (h : Handle) (now : Int) : Changes t (t.close h now).tree := by
  unfold close
  split
  · exact .refl t
  · split
    · exact .refl t
    · exact .one (.stop t _ now)

theorem record_changes (t : Tree) (path : Response.Path) (leaf : Bool) (start stop : Int) :
    Changes t (t.record path leaf start stop).tree := by
  simp only [record]
  split
  · exact start_changes t path leaf start
  case h_2 h _ => exact (start_changes t path leaf start).trans (close_changes _ h stop)

/-- **A call about levels is a chain of changes.** -/
theorem apply_changes (t : Tree) {call : Call} (hf : ¬ call.Finishes)
    (hn : call.nestedLabel? = none) : Changes t (t.apply call).tree := by
  cases call with
  | start path leaf now => exact start_changes t path leaf now
  | stop path now => exact stop_changes t path now
  | record path leaf start stop => exact record_changes t path leaf start stop
  | close handle now => exact close_changes t handle now
  | nested owner label now => contradiction
  | nestedIn parent label now => contradiction
  | finish label now => exact absurd trivial hf

/-- Nested work finds the root or a place. -/
theorem closest?_hasPlace (t : Tree) (path : Response.Path) : t.HasPlace (t.closest? path) := by
  intro j hj
  obtain ⟨text, -, h⟩ := List.exists_of_findSome?_eq_some hj
  exact place?_lt h

/-- **A call about nested work** is refused, or starts its work below a place of the tree and
answers with the handle on it. -/
theorem apply_nested (t : Tree) {call : Call} {label : String}
    (h : call.nestedLabel? = some label) :
    ((t.apply call).tree = t ∧ (t.apply call).answer = .handle none) ∨
      ∃ parent now, t.HasPlace parent ∧
        (t.apply call).tree = (t.startNested parent label now).tree ∧
        (t.apply call).answer = .handle (some (t.handle t.segments.length)) := by
  cases call with
  | nested owner label' now =>
      obtain rfl := Option.some.inj h
      simp only [apply, nested]
      split
      · exact .inl ⟨rfl, rfl⟩
      · exact .inr ⟨t.closest? owner, now, t.closest?_hasPlace owner, rfl, rfl⟩
  | nestedIn parent label' now =>
      obtain rfl := Option.some.inj h
      simp only [apply, nestedIn]
      split
      · exact .inl ⟨rfl, rfl⟩
      case h_2 place _ =>
        split
        · exact .inl ⟨rfl, rfl⟩
        case isFalse hb =>
          simp only [Bool.or_eq_true, decide_eq_true_eq, not_or, Nat.not_le] at hb
          exact .inr ⟨some place, now, fun j e => Option.some.inj e ▸ hb.2, rfl, rfl⟩
  | _ => contradiction

/-- What `finish` leaves is the same tree, closed. -/
theorem finish_tree (t : Tree) (label : String) (now : Int) :
    (t.finish label now).tree = { t with closed := true } := by
  unfold finish
  split
  case isTrue h => simp [refuse, ← h]
  · rfl

/-- An open tree is finished. -/
theorem finish_answer {t : Tree} (hc : t.closed = false) (label : String) (now : Int) :
    (t.finish label now).answer = some (t.snapshot label now) := by
  simp [finish, hc]

/-! ### Runs -/

theorem run_nil (t : Tree) : t.run [] = t := rfl

theorem run_cons (t : Tree) (call : Call) (calls : List Call) :
    t.run (call :: calls) = (t.apply call).tree.run calls := rfl

/-- **What the three kinds of calls keep, every run keeps.** -/
theorem run_keeps {P : Tree → Prop} (change : ∀ t u, Change t u → P t → P u)
    (nested : ∀ t parent label now, t.HasPlace parent → P t →
      P (t.startNested parent label now).tree)
    (finish : ∀ t, P t → P { t with closed := true }) {t : Tree} (calls : List Call) (ht : P t) :
    P (t.run calls) := by
  induction calls generalizing t with
  | nil => exact ht
  | cons call rest ih =>
      rw [run_cons]
      refine ih ?_
      by_cases hf : call.Finishes
      · cases call with
        | finish label now =>
            rw [show (t.apply (.finish label now)).tree = _ from t.finish_tree label now]
            exact finish t ht
        | _ => exact hf.elim
      · cases hn : call.nestedLabel? with
        | none => exact (apply_changes t hf hn).keeps change ht
        | some label =>
            rcases t.apply_nested hn with ⟨e, -⟩ | ⟨parent, now, hp, e, -⟩
            · rw [e]; exact ht
            · rw [e]; exact nested t parent label now hp ht

/-! ### Sound trees -/

/-- Segments come after those above them, and no two levels have the same text. -/
structure Sound (t : Tree) : Prop where
  parent_lt : ∀ {k j : Nat} {s : Entry}, t.segments[k]? = some s → s.parent = some j → j < k
  level_unique : ∀ {j k : Nat} {s s' : Entry} {text : String}, t.segments[j]? = some s →
    t.segments[k]? = some s' → s.isLevel text → s'.isLevel text → j = k

namespace Sound

/-- A tree starts sound. -/
theorem fresh (id : Nat) (captures : Bool) : Sound { id, capturesScalars := captures } where
  parent_lt h _ := by simp at h
  level_unique h _ _ _ := by simp at h

/-- In a sound tree a level is found at its place and nowhere else. -/
theorem place?_eq_some_iff {t : Tree} (h : t.Sound) {text : String} {k : Nat} :
    t.place? text = some k ↔ ∃ s, t.segments[k]? = some s ∧ s.isLevel text := by
  refine ⟨exists_of_place?, fun ⟨s, hs, hl⟩ => ?_⟩
  cases e : t.place? text with
  | none => exact absurd hl (place?_eq_none_iff.mp e s (List.mem_of_getElem? hs))
  | some j =>
      obtain ⟨s', hs', hl'⟩ := exists_of_place? e
      rw [h.level_unique hs' hs hl' hl]

/-- A segment may be put behind the others if it hangs below one of them and its level is new. -/
theorem push {t : Tree} (h : t.Sound) {s : Entry} (hp : t.HasPlace s.parent)
    (hl : ∀ text, s.isLevel text → t.place? text = none) : (t.push s).Sound := by
  -- A place of the longer tree is an old one or the new one.
  have split : ∀ {k : Nat} {r : Entry}, (t.push s).segments[k]? = some r →
      t.segments[k]? = some r ∨ k = t.segments.length ∧ r = s := by
    intro k r hr
    simp only [Tree.push, List.getElem?_append, List.getElem?_singleton] at hr
    split at hr
    · exact .inl hr
    · split at hr
      · exact .inr ⟨by omega, (Option.some.inj hr).symm⟩
      · contradiction
  refine ⟨fun {k j r} hr e => ?_, fun {j k r r' text} hr hr' l l' => ?_⟩
  · rcases split hr with hr | ⟨rfl, rfl⟩
    · exact h.parent_lt hr e
    · exact hp j e
  · rcases split hr with h₁ | ⟨rfl, rfl⟩ <;> rcases split hr' with h₂ | ⟨rfl, rfl⟩
    · exact h.level_unique h₁ h₂ l l'
    · exact absurd l (place?_eq_none_iff.mp (hl text l') r (List.mem_of_getElem? h₁))
    · exact absurd l' (place?_eq_none_iff.mp (hl text l) r' (List.mem_of_getElem? h₂))
    · rfl

/-- Work may change at a place as long as nested work stays nested. -/
theorem modify {t : Tree} (h : t.Sound) (place : Nat) {f : Work → Work} (hf : Work.KeepsNested f) :
    (t.modify place f).Sound := by
  have old : ∀ {k : Nat} {r : Entry}, (t.modify place f).segments[k]? = some r →
      ∃ s, t.segments[k]? = some s ∧ r.parent = s.parent ∧
        ∀ text, r.isLevel text → s.isLevel text := by
    intro k r hr
    simp only [Tree.modify, List.getElem?_modify, Option.map_eq_map, Option.map_eq_some_iff] at hr
    obtain ⟨s, hs, rfl⟩ := hr
    refine ⟨s, hs, by split <;> rfl, fun text hl => ?_⟩
    split at hl
    · rw [Entry.isLevel_iff, ne_eq, hf] at hl
      exact Entry.isLevel_iff.mpr hl
    · exact hl
  refine ⟨fun hr e => ?_, fun hr hr' l l' => ?_⟩
  · obtain ⟨s, hs, hp, -⟩ := old hr
    exact h.parent_lt hs (hp ▸ e)
  · obtain ⟨s, hs, -, hl⟩ := old hr
    obtain ⟨s', hs', -, hl'⟩ := old hr'
    exact h.level_unique hs hs' (hl _ l) (hl' _ l')

theorem change {t u : Tree} (h : t.Sound) (c : Change t u) : u.Sound := by
  cases c with
  | note now => exact ⟨h.parent_lt, h.level_unique⟩
  | level hp ht =>
      exact h.push hp fun text hl => (Entry.isLevel_iff.mp hl).2 ▸ ht
  | resolve place now => exact h.modify place (Work.keepsNested_resolving now)
  | stop place now => exact h.modify place (Work.keepsNested_ended now)

theorem changes {t u : Tree} (h : t.Sound) (c : Changes t u) : u.Sound :=
  c.keeps (fun _ _ c h => h.change c) h

/-- Nested work has no level, so it may start below any place. -/
theorem startNested {t : Tree} (h : t.Sound) {parent : Option Nat} (hp : t.HasPlace parent)
    (label : String) (now : Int) : (t.startNested parent label now).tree.Sound :=
  (h.change (.note t now)).push hp fun _ hl => absurd rfl (Entry.isLevel_iff.mp hl).1

/-- **Every run of a sound tree leaves a sound tree**, whether it is closed on the way or not. -/
theorem run {t : Tree} (h : t.Sound) (calls : List Call) : (t.run calls).Sound :=
  run_keeps (fun _ _ c h => h.change c) (fun _ _ label now hp h => h.startNested hp label now)
    (fun _ h => ⟨h.parent_lt, h.level_unique⟩) calls h

end Sound

end Tree

end GraphTrace.Segment
