import GraphTrace.Proofs.Segment.Slots
import Mathlib.Data.List.Nodup

/-!
# Arenas are trees

After any run of calls on a fresh arena, with any paths, labels and handles (also one on the root,
which no call gives), whether it was closed on the way or not (`rooted_run`):

* nothing reached for a slot that is not there;
* the child lists make a tree of the slots (`IsTree`): each slot but the root is in one of them,
  once, and that is the list of an earlier slot;
* the texts of the map are the labels of the levels, each of one level (`IndexesLevels`), so neither
  nested work nor the root is found there;
* a handle that a call answers with is one on a slot of this arena, never on the root;
* the finished tree comes to an end, has no two levels with one label, and counts one segment for
  the root, one for each text of the map, and one for each call that was given a handle on nested
  work.

Paths whose texts collide are not set apart, and none of this needs them to be.

The arena always stands for a tree (`Represents.exists_apply`).  Where no handle on the root
is used the two go together call by call: they give the same answers, log the same events and
finish as the same segments (`follows_reached`).
-/

namespace GraphTrace.Segment

open Response (Path)

/-- A handle as an arena gives it. The root comes first, so a place has the next index. -/
def Handle.inArena (h : Handle) : Handle := ⟨h.tree, h.place + 1⟩

/-- An answer as an arena gives it. -/
def Answer.inArena : Answer → Answer
  | .handle h => .handle (h.map Handle.inArena)
  | answer    => answer

/-- A call as an arena takes it. -/
def Call.inArena : Call → Call
  | .nestedIn parent label now => .nestedIn parent.inArena label now
  | .close handle now          => .close handle.inArena now
  | call                       => call

/-- An arena answers with a handle just if the tree does. -/
theorem Answer.handle?_inArena (answer : Answer) :
    answer.inArena.handle? = answer.handle?.map Handle.inArena := by
  cases answer <;> rfl

/-- A call asks for the same nested work of an arena. -/
theorem Call.nestedLabel?_inArena (call : Call) :
    call.inArena.nestedLabel? = call.nestedLabel? := by
  cases call <;> rfl

/-- Every call on an arena is one on a tree, unless it is about a handle on the root. -/
theorem Call.inArena_cases (call : Call) : (∃ c : Call, call = c.inArena) ∨
    (∃ tree label now, call = .nestedIn ⟨tree, Arena.root⟩ label now) ∨
      ∃ tree now, call = .close ⟨tree, Arena.root⟩ now := by
  cases call with
  | nestedIn parent label now =>
      obtain ⟨tree, _ | place⟩ := parent
      · exact .inr (.inl ⟨tree, label, now, rfl⟩)
      · exact .inl ⟨.nestedIn ⟨tree, place⟩ label now, rfl⟩
  | close handle now =>
      obtain ⟨tree, _ | place⟩ := handle
      · exact .inr (.inr ⟨tree, now, rfl⟩)
      · exact .inl ⟨.close ⟨tree, place⟩ now, rfl⟩
  | start path leaf now => exact .inl ⟨.start path leaf now, rfl⟩
  | stop path now => exact .inl ⟨.stop path now, rfl⟩
  | record path leaf start stop => exact .inl ⟨.record path leaf start stop, rfl⟩
  | nested owner label now => exact .inl ⟨.nested owner label now, rfl⟩
  | finish label now => exact .inl ⟨.finish label now, rfl⟩

namespace Arena

variable {a : Arena} {t : Tree}

/-! ### Calls -/

/-- Whether a call on an arena goes as one on a tree: the arena stands for the tree after it, the
answers are the same up to `f`, and so are the events. -/
def Follows {α β : Type} (o? : Option (Outcome α)) (p : Segment.Outcome β) (f : β → α) : Prop :=
  ∃ b, o? = some ⟨b, f p.answer, p.events⟩ ∧ b.Represents p.tree

/-- Two outcomes that agree still agree when both answers are put in another form. -/
theorem Follows.map {α β γ δ : Type} {o? : Option (Outcome α)} {p : Segment.Outcome β} {f : β → α}
    (h : Follows o? p f) {g : α → γ} {k : β → δ} {f' : δ → γ} (hf : ∀ x, g (f x) = f' (k x)) :
    Follows (o?.map (·.map g)) (p.map k) f' := by
  obtain ⟨b, rfl, hb⟩ := h
  exact ⟨b, congrArg some (congrArg (Outcome.mk b · p.events) (hf p.answer)), hb⟩

/-- A handle has the index after its place. -/
theorem indexOf?_inArena (h : a.Represents t) (handle : Handle) :
    a.indexOf? handle.inArena = (t.placeOf? handle).map (· + 1) := by
  rw [indexOf?, Tree.placeOf?, h.id]
  split
  case isTrue e => rw [if_pos (show handle.tree = t.id from e)]; rfl
  case isFalse e => rw [if_neg (show handle.tree ≠ t.id from e)]; rfl

namespace Represents

section

variable (h : a.Represents t)
include h

theorem stop (path : Path) (now : Int) :
    Follows (a.stop path now) (t.stop path now) fun nothing => nothing := by
  rw [Arena.stop, Tree.stop, h.closed, h.lookup]
  split
  · exact ⟨a, rfl, h⟩
  · cases hk : t.place? path.text with
    | none => exact ⟨a, rfl, h⟩
    | some place =>
        have hlt := h.toHoldsSlots.indexAt_lt (Tree.hasPlace_of_place? hk)
        exact ⟨_, congrArg (Option.map _) (update?_of_lt hlt _), h.ended place now⟩

theorem close (handle : Handle) (now : Int) :
    Follows (a.close handle.inArena now) (t.close handle now) fun nothing => nothing := by
  rw [Arena.close, Tree.close, indexOf?_inArena h]
  cases t.placeOf? handle with
  | none => exact ⟨a, rfl, h⟩
  | some place =>
      dsimp only [Option.map_some]
      by_cases hc : t.closed
      · rw [if_pos hc, if_pos (h.closed.trans hc)]
        exact ⟨a, rfl, h⟩
      · rw [if_neg hc, if_neg (h.closed ▸ hc)]
        exact ⟨_, rfl, h.ended place now⟩

variable (ht : t.Sound)
include ht

theorem start (path : Path) (leaf : Bool) (now : Int) :
    Follows (a.start path leaf now) (t.start path leaf now) (Option.map Handle.inArena) := by
  rw [Arena.start, Tree.start, h.capturesScalars, h.closed]
  split
  · exact ⟨a, rfl, h⟩
  · obtain rfl | ⟨q, e, rfl⟩ := path.eq_empty_or_join
    · exact ⟨a, rfl, h⟩
    · have hown := Response.Path.levels_getLast? (q.join_ne_empty e)
      rw [hown, if_neg (by simp [Response.Path.join])]
      cases t.closed with
      | true => exact ⟨a, rfl, h⟩
      | false =>
          obtain ⟨b, hb, hrb⟩ := h.openResolver ht hown now
          refine ⟨b, ?_, hrb⟩
          simp only [hb, Arena.handle, h.id]
          rfl

theorem record (path : Path) (leaf : Bool) (start stop : Int) :
    Follows (a.record path leaf start stop) (t.record path leaf start stop)
      (Option.map Handle.inArena) := by
  obtain ⟨b, hb, hrb⟩ := h.start ht path leaf start
  simp only [Arena.record, Tree.record, hb, Option.bind_eq_bind, Option.bind_some]
  cases hanswer : (t.start path leaf start).answer with
  | none =>
      refine ⟨b, ?_, hrb⟩
      rw [hanswer]
      rfl
  | some handle =>
      obtain ⟨c, hc, hrc⟩ := hrb.close handle stop
      refine ⟨c, ?_, hrc⟩
      simp only [Option.map_some, hc, Option.bind_some]
      rfl

theorem nested (owner : Path) (label : String) (now : Int) :
    Follows (a.nested owner label now) (t.nested owner label now) (Option.map Handle.inArena) := by
  rw [Arena.nested, Tree.nested, h.closed, h.closest]
  split
  · exact ⟨a, rfl, h⟩
  · exact h.startNested ht (t.closest?_hasPlace owner) label now

theorem nestedIn (handle : Handle) (label : String) (now : Int) :
    Follows (a.nestedIn handle.inArena label now) (t.nestedIn handle label now)
      (Option.map Handle.inArena) := by
  rw [Arena.nestedIn, Tree.nestedIn, indexOf?_inArena h, h.closed, h.length]
  cases t.placeOf? handle with
  | none => exact ⟨a, rfl, h⟩
  | some place =>
      simp only [Option.map_some, Nat.add_le_add_iff_right]
      split
      · exact ⟨a, rfl, h⟩
      case isFalse hopen =>
        simp only [Bool.or_eq_true, decide_eq_true_eq, not_or, Nat.not_le] at hopen
        exact h.startNested ht (fun _ e => Option.some.inj e ▸ hopen.2) label now

/-- **The finished tree is the one that the arena stands for**, and comes to an end. -/
theorem finish (label : String) (now : Int) :
    Follows (a.finish label now) (t.finish label now) fun top => top := by
  rw [Arena.finish, Tree.finish, h.closed]
  cases t.closed with
  | true => exact ⟨a, rfl, h⟩
  | false =>
      have hclosed : HoldsSlots { a with closed := true } { t with closed := true } :=
        ⟨h.id, h.capturesScalars, rfl, h.length, h.root, h.slot⟩
      obtain ⟨b, hb, hended, hpath, hroot⟩ := hclosed.endRoot label now
      have hnode := hended.node?_root ⟨ht.parent_lt, ht.level_unique⟩ hroot
      refine ⟨b, ?_, h.of_path hended hpath (fun _ => rfl) rfl⟩
      simp only [hb, hnode, Option.bind_eq_bind, Option.bind_some]
      rfl

end

/-- **A call goes as on the tree that the arena stands for.** -/
theorem apply (h : a.Represents t) (ht : t.Sound) (call : Call) :
    Follows (a.apply call.inArena) (t.apply call) Answer.inArena := by
  cases call with
  | start path leaf now => exact (h.start ht path leaf now).map fun _ => rfl
  | stop path now => exact (h.stop path now).map fun _ => rfl
  | record path leaf start stop => exact (h.record ht path leaf start stop).map fun _ => rfl
  | nested owner label now => exact (h.nested ht owner label now).map fun _ => rfl
  | nestedIn parent label now => exact (h.nestedIn ht parent label now).map fun _ => rfl
  | close handle now => exact (h.close handle now).map fun _ => rfl
  | finish label now => exact (h.finish ht label now).map fun _ => rfl

end Represents

/-! ### Handles on the root

No call gives such a handle, but a caller can make one up.  Work started in it hangs below the root,
and its end is not seen: the root ends with the operation. -/

section

variable (h : a.Represents t)
include h

theorem indexOf?_root (tree : Nat) :
    a.indexOf? ⟨tree, root⟩ = if tree = t.id then some root else none := by
  rw [indexOf?, h.id]

/-- Work started in the root hangs below it, as if no level of its owner were there. -/
theorem Represents.nestedIn_root (ht : t.Sound) (tree : Nat) (label : String) (now : Int) :
    Follows (a.nestedIn ⟨tree, root⟩ label now)
      (if tree = t.id ∧ t.closed = false then t.startNested none label now else t.refuse none [])
      (Option.map Handle.inArena) := by
  rw [Arena.nestedIn, indexOf?_root h, h.closed, h.length]
  by_cases hopen : tree = t.id ∧ t.closed = false
  · rw [if_pos hopen, if_pos hopen.1, hopen.2]
    exact h.startNested ht t.hasPlace_root label now
  · rw [if_neg hopen]
    refine ⟨a, ?_, h⟩
    by_cases hid : tree = t.id
    · have hc : t.closed = true := Bool.of_not_eq_false fun hc => hopen ⟨hid, hc⟩
      rw [if_pos hid, hc]
      rfl
    · rw [if_neg hid]
      rfl

/-- An end of the root is not seen: the tree is the same. -/
theorem Represents.close_root (tree : Nat) (now : Int) : ∃ events,
    Follows (a.close ⟨tree, root⟩ now) (t.refuse () events) fun nothing => nothing := by
  rw [Arena.close, indexOf?_root h]
  by_cases hid : tree = t.id
  · rw [if_pos hid]
    dsimp only
    by_cases hc : a.closed
    · rw [if_pos hc]
      exact ⟨_, a, rfl, h⟩
    · rw [if_neg hc]
      refine ⟨[], _, rfl, h.of_path (h.toHoldsSlots.onRoot t.started
        fun {label took} htook => ?_) rfl (fun _ => rfl) rfl⟩
      cases hs : t.started with
      | none => exact ⟨label, took, rfl, fun _ => htook hs⟩
      | some started => exact ⟨label, _, rfl, fun e => nomatch e⟩
  · rw [if_neg hid]
    exact ⟨_, a, rfl, h⟩

end

/-! ### Runs -/

/-- What a call accounts for: nested work is new only with a handle to show for it, and a handle is
one on a segment of this tree. -/
structure Accounts (t : Tree) (call : Call) (p : Segment.Outcome Answer) : Prop where
  sound : p.tree.Sound
  id : p.tree.id = t.id
  nestedCount : p.tree.nestedCount
    = (if call.nestedLabel?.isSome && p.answer.handle?.isSome then 1 else 0) + t.nestedCount
  handle : ∀ {h : Handle}, p.answer.handle? = some h →
    h.tree = t.id ∧ h.place < p.tree.segments.length

/-- A call without a handle for an answer accounts for no segment. -/
theorem Accounts.of_none (ht : t.Sound) {call : Call} {answer : Answer}
    (ha : answer.handle? = none) (events : List Log.Event) :
    Accounts t call (t.refuse answer events) where
  sound := ht
  id := rfl
  nestedCount := by simp [Tree.refuse, ha]
  handle e := nomatch ha.symm.trans e

/-- Nested work that was asked for accounts for its own segment. -/
theorem Accounts.startNested (ht : t.Sound) {call : Call} (hcall : call.nestedLabel?.isSome)
    (label : String) (now : Int) :
    Accounts t call ((t.startNested none label now).map .handle) where
  sound := ht.startNested t.hasPlace_root label now
  id := rfl
  nestedCount := by
    rw [hcall, Nat.add_comm]
    exact t.nestedCount_startNested none label now
  handle e := by
    obtain rfl := Option.some.inj e
    exact ⟨rfl, by simp [Tree.startNested, Segment.Outcome.map, Tree.push, Tree.noteStart,
      Tree.handle]⟩

/-- What a tree does for a call is accounted for. -/
theorem Accounts.apply (ht : t.Sound) (call : Call) : Accounts t call (t.apply call) where
  sound := ht.run [call]
  id := t.id_apply call
  nestedCount := t.nestedCount_apply call
  handle := Tree.handle_of_apply

/-- **Every call has an outcome**, which stands for a tree again: what was asked for on a tree, or
nested work below the root, or nothing. -/
theorem Represents.exists_apply (h : a.Represents t) (ht : t.Sound) (call : Call) :
    ∃ p, Follows (a.apply call) p Answer.inArena ∧ Accounts t call p := by
  rcases call.inArena_cases with ⟨c, rfl⟩ | ⟨tree, label, now, rfl⟩ | ⟨tree, now, rfl⟩
  · have hc := Accounts.apply ht c
    exact ⟨_, h.apply ht c, hc.sound, hc.id, c.nestedLabel?_inArena.symm ▸ hc.nestedCount,
      hc.handle⟩
  · refine ⟨_, (h.nestedIn_root ht tree label now).map (k := .handle) fun _ => rfl, ?_⟩
    split
    · exact .startNested ht rfl label now
    · exact .of_none ht rfl []
  · obtain ⟨events, hclose⟩ := h.close_root tree now
    exact ⟨_, hclose.map (k := fun _ => .nothing) fun _ => rfl, .of_none ht rfl events⟩

/-- How many calls of a run ask for nested work and are given a handle. -/
def granted (a : Arena) : List Call → Nat
  | []           => 0
  | call :: rest =>
    match a.apply call with
    | none   => 0
    | some o =>
      (if call.nestedLabel?.isSome && o.answer.handle?.isSome then 1 else 0)
        + o.arena.granted rest

/-- **Every run comes to an end**, and stands for a tree again. -/
theorem Represents.exists_run (h : a.Represents t) (ht : t.Sound) (calls : List Call) :
    ∃ b u, a.run calls = some b ∧ b.Represents u ∧ u.Sound ∧ u.id = t.id ∧
      u.nestedCount = a.granted calls + t.nestedCount := by
  induction calls generalizing a t with
  | nil => exact ⟨a, t, rfl, h, ht, rfl, (Nat.zero_add _).symm⟩
  | cons call rest ih =>
      obtain ⟨p, ⟨b, hb, hrb⟩, hp⟩ := h.exists_apply ht call
      obtain ⟨c, u, hc, hrc, hu, hid, hcount⟩ := ih hrb hp.sound
      refine ⟨c, u, ?_, hrc, hu, hid.trans hp.id, ?_⟩
      · rw [run, hb]
        exact hc
      · rw [hcount, hp.nestedCount, granted, hb]
        simp only [Answer.handle?_inArena, Option.isSome_map]
        omega

/-! ### Trees and indices -/

/-- **The slots form a tree below the root.** -/
structure IsTree (a : Arena) : Prop where
  root : ∃ s, a.slots[Arena.root]? = some s ∧ s.kind = .operation
  /-- What a child list holds is the index of a slot. -/
  child_lt : ∀ {j k : Nat} {s : Slot}, a.slots[j]? = some s → k ∈ s.children → k < a.slots.length
  /-- A slot comes after the one it is below, so the root is below none. -/
  parent_lt : ∀ {j k : Nat} {s : Slot}, a.slots[j]? = some s → k ∈ s.children → j < k
  /-- Every slot but the root is in the child list of one slot. -/
  existsUnique : ∀ {k : Nat}, k ≠ Arena.root → k < a.slots.length →
    ∃! j : Nat, ∃ s : Slot, a.slots[j]? = some s ∧ k ∈ s.children
  /-- It is there once. -/
  nodup : ∀ {j : Nat} {s : Slot}, a.slots[j]? = some s → s.children.Nodup

/-- **The map holds the levels**: each once, under its label, and nothing else. -/
structure IndexesLevels (a : Arena) : Prop where
  nodup : (a.byPath.map (·.1)).Nodup
  mem : ∀ {text : String} {index : Nat}, (text, index) ∈ a.byPath ↔ ∃ s : Slot,
    a.slots[index]? = some s ∧ (s.kind = .resolver ∨ s.kind = .synthetic) ∧ s.label = text

/-- Different places have different indices. -/
theorem indexAt_injective : Function.Injective indexAt := by
  intro p q e
  cases p <;> cases q <;> simp_all [indexAt, root]

namespace HoldsSlots

variable (h : a.HoldsSlots t)
include h

/-- A slot is that of the root or a place, with the slots below it. -/
theorem exists_place {j : Nat} {s : Slot} (hs : a.slots[j]? = some s) :
    ∃ parent, j = indexAt parent ∧ s.children = t.below parent := by
  cases j with
  | zero =>
      obtain ⟨_, _, hroot, -⟩ := h.root
      obtain rfl := Option.some.inj (hroot.symm.trans hs)
      exact ⟨none, rfl, rfl⟩
  | succ k =>
      obtain ⟨_, -, rfl⟩ := Option.map_eq_some_iff.mp ((h.slot k).symm.trans hs)
      exact ⟨some k, rfl, rfl⟩

/-- **A slot is below that of the segment above it** and below no other one. -/
theorem mem_children_iff {j k : Nat} {s : Slot} (hs : a.slots[j]? = some s) : k ∈ s.children ↔
    ∃ i, i < t.segments.length ∧ j = indexAt (t.parent? i) ∧ k = i + 1 := by
  obtain ⟨parent, rfl, hchildren⟩ := h.exists_place hs
  rw [hchildren, Tree.below, List.mem_map]
  refine exists_congr fun i => ?_
  rw [Tree.mem_placesBelow, and_assoc, indexAt_injective.eq_iff, eq_comm (a := parent),
    eq_comm (a := k)]

variable (ht : t.Sound)
include ht

/-- **The slots of a sound tree form a tree.** -/
theorem isTree : a.IsTree where
  root := by
    obtain ⟨_, _, hroot, -⟩ := h.root
    exact ⟨_, hroot, rfl⟩
  child_lt hs hk := by
    obtain ⟨i, hi, -, rfl⟩ := (h.mem_children_iff hs).mp hk
    rw [h.length]
    exact Nat.succ_lt_succ hi
  parent_lt hs hk := by
    obtain ⟨i, hi, rfl, rfl⟩ := (h.mem_children_iff hs).mp hk
    cases hparent : t.parent? i with
    | none => exact Nat.succ_pos i
    | some p => exact Nat.succ_lt_succ (ht.parent?_lt hparent)
  existsUnique := by
    intro k hk hlt
    obtain ⟨i, rfl⟩ := Nat.exists_eq_succ_of_ne_zero hk
    rw [h.length] at hlt
    have hi := Nat.lt_of_succ_lt_succ hlt
    have hp : t.HasPlace (t.parent? i) := fun p e => Nat.lt_trans (ht.parent?_lt e) hi
    have hs := List.getElem?_eq_getElem (h.indexAt_lt hp)
    refine ⟨_, ⟨_, hs, (h.mem_children_iff hs).mpr ⟨i, hi, rfl, rfl⟩⟩, ?_⟩
    rintro j ⟨s, hs, hk⟩
    obtain ⟨i', -, rfl, e⟩ := (h.mem_children_iff hs).mp hk
    rw [Nat.succ.inj e]
  nodup hs := by
    obtain ⟨parent, -, hchildren⟩ := h.exists_place hs
    rw [hchildren]
    exact (t.nodup_placesBelow parent).map fun _ _ => Nat.succ.inj

end HoldsSlots

/-- Where no text comes twice, what stands under a text is what is found there. -/
theorem mem_iff_lookup {found : List (String × Nat)} (h : (found.map (·.1)).Nodup) {text : String}
    {index : Nat} : (text, index) ∈ found ↔ found.lookup text = some index := by
  induction found with
  | nil => simp
  | cons first rest ih =>
      obtain ⟨hfirst, hrest⟩ := List.nodup_cons.mp h
      rw [List.mem_cons, ih hrest, List.lookup_cons]
      by_cases e : text = first.1
      · have hnot : rest.lookup text ≠ some index := fun hfound =>
          hfirst (List.mem_map.mpr ⟨_, (ih hrest).mpr hfound, e⟩)
        subst e
        simp [hnot, Prod.ext_iff, eq_comm]
      · simp [e, beq_eq_false_iff_ne.mpr e, Prod.ext_iff]

/-- **The map of a sound tree holds its levels.** -/
theorem Represents.indexesLevels (h : a.Represents t) (ht : t.Sound) : a.IndexesLevels := by
  have hnodup : (a.byPath.map (·.1)).Nodup := by
    rw [h.keys, List.nodup_reverse]
    exact ht.nodup_keys
  refine ⟨hnodup, fun {text index} => ?_⟩
  rw [mem_iff_lookup hnodup, h.lookup]
  cases index with
  | zero =>
      -- The root is no level, and no place has its index.
      obtain ⟨_, _, hroot, -⟩ := h.root
      have hroot : a.slots[0]? = _ := hroot
      simp [hroot]
  | succ k =>
      simp only [Option.map_eq_some_iff, Nat.add_right_cancel_iff, exists_eq_right, h.slot,
        ht.place?_eq_some_iff, Entry.isLevel_iff, exists_exists_and_eq_and]
      refine exists_congr fun s => and_congr_right fun _ => and_congr_left fun _ => ?_
      rw [Entry.slot]
      cases s.work <;> simp [Work.kind]

/-- The map has an entry for each text. -/
theorem Represents.length_byPath (h : a.Represents t) : a.byPath.length = t.keys.length := by
  rw [← List.length_map, h.keys, List.length_reverse]

/-! ### Fresh arenas -/

/-- **Every run leaves a tree.**  No call of it and none after it reaches for a slot that is not
there; the slots are a tree with its levels in the map; a handle is one on a slot of this arena but
not on the root; and the finished tree comes to an end, labels its levels apart, and counts what the
map holds and what was granted. -/
theorem rooted_run (id : Nat) (captures : Bool) (calls : List Call) :
    ∃ a, run { id, capturesScalars := captures } calls = some a ∧ a.IsTree ∧ a.IndexesLevels ∧
      (∀ call, ∃ o, a.apply call = some o ∧ ∀ h : Handle, o.answer.handle? = some h →
        h.tree = id ∧ h.place ≠ root ∧ h.place < o.arena.slots.length) ∧
      ∀ label now, ∃ o, a.finish label now = some o ∧ (o.answer.isSome ↔ a.closed = false) ∧
        ∀ top, o.answer = some top → top.LabelsLevels ∧ top.count
          = 1 + a.byPath.length + granted { id, capturesScalars := captures } calls := by
  obtain ⟨a, t, hrun, h, ht, hid, hcount⟩ :=
    (represents_fresh id captures).exists_run (.fresh id captures) calls
  refine ⟨a, hrun, h.toHoldsSlots.isTree ht, h.indexesLevels ht, fun call => ?_,
    fun label now => ?_⟩
  · obtain ⟨p, ⟨b, hb, hrb⟩, hp⟩ := h.exists_apply ht call
    refine ⟨_, hb, fun handle hhandle => ?_⟩
    obtain ⟨given, hgiven, rfl⟩ := Option.map_eq_some_iff.mp
      (p.answer.handle?_inArena.symm.trans hhandle)
    obtain ⟨htree, hlt⟩ := hp.handle hgiven
    exact ⟨htree.trans hid, Nat.succ_ne_zero _, hrb.length ▸ Nat.succ_lt_succ hlt⟩
  · obtain ⟨b, hb, -⟩ := h.finish ht label now
    refine ⟨_, hb, ?_, fun top htop => ?_⟩
    · rw [h.closed, Tree.finish]
      cases t.closed <;> simp [Tree.refuse]
    · have hopen : t.closed = false := by
        cases hc : t.closed with
        | false => rfl
        | true =>
            rw [Tree.finish, if_pos hc] at htop
            contradiction
      obtain rfl := Option.some.inj ((Tree.finish_answer hopen label now).symm.trans htop)
      refine ⟨ht.labelsLevels label now, ?_⟩
      rw [Tree.count_snapshot, Tree.length_segments, hcount, h.length_byPath, ← Nat.add_assoc]
      rfl

/-- Two paths with one text, work in the level that they share, and work in the root. -/
def collidingRun : List Call :=
  [.start ⟨[.key "a.b"]⟩ false 0, .start ⟨[.key "a", .key "b"]⟩ false 1,
    .nested ⟨[.key "a.b"]⟩ "load" 2, .nestedIn ⟨7, root⟩ "sweep" 3]

/-- What it leaves. -/
def collidingArena : Arena where
  id := 7
  capturesScalars := false
  slots :=
    [⟨"", .operation, some 0, none, [1, 2, 4]⟩, ⟨"a.b", .resolver, some 1, none, [3]⟩,
      ⟨"a", .synthetic, none, none, []⟩, ⟨"load", .nested, some 2, none, []⟩,
      ⟨"sweep", .nested, some 3, none, []⟩]
  byPath := [("a", 2), ("a.b", 1)]

/-- The run leaves that arena, which is a tree of five segments. -/
theorem rooted_collidingRun :
    run { id := 7, capturesScalars := false } collidingRun = some collidingArena ∧
      collidingArena.IsTree ∧ collidingArena.IndexesLevels ∧
      ∃ o top, collidingArena.finish "op" 4 = some o ∧ o.answer = some top ∧ top.LabelsLevels ∧
        top.count = 5 := by
  obtain ⟨a, hrun, htree, hindexes, -, hfinish⟩ := rooted_run 7 false collidingRun
  have hcolliding : run { id := 7, capturesScalars := false } collidingRun
      = some collidingArena := by decide +kernel
  obtain rfl := Option.some.inj (hcolliding.symm.trans hrun)
  obtain ⟨o, ho, hsome, htop⟩ := hfinish "op" 4
  obtain ⟨top, hanswer⟩ := Option.isSome_iff_exists.mp (hsome.mpr rfl)
  obtain ⟨hlabels, hcount⟩ := htop top hanswer
  refine ⟨hrun, htree, hindexes, o, top, ho, hanswer, hlabels, hcount.trans ?_⟩
  decide +kernel

/-- A run goes as on the tree. -/
theorem Represents.run (h : a.Represents t) (ht : t.Sound) (calls : List Call) :
    ∃ b, a.run (calls.map Call.inArena) = some b ∧ b.Represents (t.run calls) := by
  induction calls generalizing a t with
  | nil => exact ⟨a, rfl, h⟩
  | cons call rest ih =>
      obtain ⟨b, hb, hrb⟩ := h.apply ht call
      obtain ⟨c, hc, hrc⟩ := ih hrb (ht.run [call])
      refine ⟨c, ?_, hrc⟩
      rw [List.map_cons, Arena.run, hb]
      exact hc

/-- **An arena goes as the tree that it stands for**, as long as no caller makes up a handle on the
root: after any run the next call has the same answer and logs the same events. -/
theorem follows_reached (id : Nat) (captures : Bool) (calls : List Call) :
    ∃ a, run { id, capturesScalars := captures } (calls.map Call.inArena) = some a ∧
      a.Represents (Tree.reached id captures calls) ∧ ∀ call,
        Follows (a.apply call.inArena) ((Tree.reached id captures calls).apply call)
          Answer.inArena := by
  have hfresh := Tree.Sound.fresh id captures
  obtain ⟨a, hrun, h⟩ := (represents_fresh id captures).run hfresh calls
  exact ⟨a, hrun, h, h.apply (hfresh.run calls)⟩

end Arena

end GraphTrace.Segment
