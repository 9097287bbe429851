import GraphTrace.Proofs.Segment.Count

/-!
# Trees beside one another

A process makes many trees and numbers them by a counter of 64 bits (`planted`).  A script calls
them in any order, and may give any tree a handle that another one answered with: handles are plain
places, which mostly exist in the wrong tree too.

Nothing passes from tree to tree (`separate_planted`).  A handle has the number of the tree that
answered with it, and as long as the counter does not wrap no other tree has this number; a call
with a handle of another number answers nothing and changes nothing.  So what a tree goes through in
a script, outcome by outcome, is what it goes through alone in its own calls, once those with the
handles of other trees are erased.
-/

namespace GraphTrace.Segment

/-! ### Handles of other trees -/

/-- The handle that a call is given. -/
def Call.handle? : Call → Option Handle
  | .nestedIn h _ _ | .close h _ => some h
  | _                            => none

/-- Whether a call is given a handle of another tree than the one of this number. -/
def Call.Foreign (call : Call) (id : Nat) : Prop := ∃ h ∈ call.handle?, h.tree ≠ id

instance (call : Call) (id : Nat) : Decidable (call.Foreign id) :=
  inferInstanceAs (Decidable (∃ h ∈ call.handle?, h.tree ≠ id))

/-- Whether an answer tells nothing. -/
def Answer.Empty : Answer → Prop
  | .nothing | .handle none | .finished none => True
  | _                                        => False

namespace Tree

/-- **A handle of another tree does nothing.** -/
theorem apply_foreign {t : Tree} {call : Call} (h : call.Foreign t.id) :
    (t.apply call).tree = t ∧ (t.apply call).answer.Empty := by
  obtain ⟨handle, hh, hne⟩ := h
  have hplace : t.placeOf? handle = none := if_neg hne
  cases call with
  | nestedIn parent label now =>
      obtain rfl := Option.some.inj hh
      simp only [apply, nestedIn, hplace]
      exact ⟨rfl, trivial⟩
  | close closed now =>
      obtain rfl := Option.some.inj hh
      simp only [apply, close, hplace]
      exact ⟨rfl, trivial⟩
  | start | stop | record | nested | finish => contradiction

/-- What the calls of a run come to, in order. -/
def outcomes (t : Tree) : List Call → List (Outcome Answer)
  | []           => []
  | call :: rest => t.apply call :: (t.apply call).tree.outcomes rest

end Tree

/-! ### Scripts -/

/-- A call on one of several trees. -/
structure Turn where
  place : Nat
  call : Call

/-- A turn, and what it came to. -/
structure Event extends Turn where
  outcome : Outcome Answer

/-- The trees after a turn. A turn on a tree that is not there is skipped. -/
def turned (trees : List Tree) (turn : Turn) : List Tree :=
  trees.modify turn.place fun t => (t.apply turn.call).tree

/-- The trees after a script. -/
def played (trees : List Tree) (script : List Turn) : List Tree := script.foldl turned trees

/-- What the turns of a script come to, in order. -/
def transcript (trees : List Tree) : List Turn → List Event
  | []           => []
  | turn :: rest =>
    (trees[turn.place]?.toList.map fun t => ⟨turn, t.apply turn.call⟩)
      ++ transcript (turned trees turn) rest

/-- Whether a turn is for the tree at a place, and with no handle of another tree. -/
def Turn.IsFor (turn : Turn) (place id : Nat) : Prop :=
  turn.place = place ∧ ¬ turn.call.Foreign id

instance (turn : Turn) (place id : Nat) : Decidable (turn.IsFor place id) :=
  inferInstanceAs (Decidable (_ ∧ _))

/-- The calls of a script that are for the tree at a place, without those that are given the handles
of other trees. -/
def callsFor (script : List Turn) (place id : Nat) : List Call :=
  (script.filter (·.IsFor place id)).map (·.call)

/-- What the turns for the tree at a place come to in a script. -/
def outcomesFor (trees : List Tree) (script : List Turn) (place id : Nat) :
    List (Outcome Answer) :=
  ((transcript trees script).filter (·.IsFor place id)).map (·.outcome)

section

variable {trees : List Tree} {turn : Turn} {rest : List Turn} {place : Nat} {t : Tree}

theorem played_cons : played trees (turn :: rest) = played (turned trees turn) rest := rfl

/-- A script that goes on goes on with what it left. -/
theorem played_append (trees : List Tree) (earlier later : List Turn) :
    played trees (earlier ++ later) = played (played trees earlier) later := List.foldl_append

/-- A turn is taken by the tree at its place, and no other tree sees it. -/
theorem getElem?_turned : (turned trees turn)[place]?
    = if turn.place = place then (trees[place]?).map fun t => (t.apply turn.call).tree
      else trees[place]? := by
  rw [turned, List.getElem?_modify]
  split <;> simp

/-- A turn that is not for a tree leaves it as it is. -/
theorem getElem?_turned_of_not_isFor (ht : trees[place]? = some t) (h : ¬ turn.IsFor place t.id) :
    (turned trees turn)[place]? = some t := by
  rw [getElem?_turned, ht]
  split
  case isTrue e =>
    have hforeign : turn.call.Foreign t.id := by
      by_contra hno
      exact h ⟨e, hno⟩
    rw [Option.map_some, (Tree.apply_foreign hforeign).1]
  case isFalse => rfl

/-- A turn counts among the calls of a tree if it is for it. -/
theorem callsFor_cons {id : Nat} : callsFor (turn :: rest) place id
    = if turn.IsFor place id then turn.call :: callsFor rest place id
      else callsFor rest place id := by
  rw [callsFor, List.filter_cons]
  by_cases h : turn.IsFor place id <;> simp [h, callsFor]

/-- The outcome of a turn for a tree is that of its call on the tree. -/
theorem outcomesFor_cons (ht : trees[place]? = some t) :
    outcomesFor trees (turn :: rest) place t.id
      = (if turn.IsFor place t.id then [t.apply turn.call] else [])
        ++ outcomesFor (turned trees turn) rest place t.id := by
  rw [outcomesFor, transcript, List.filter_append, List.map_append, ← outcomesFor]
  congr 1
  by_cases h : turn.IsFor place t.id
  · rw [if_pos h, h.1, ht]
    simp [h]
  · rw [if_neg h]
    cases trees[turn.place]? with
    | none => rfl
    | some u => simp [h]

end

/-- **A tree in a script** goes through what it goes through alone. -/
theorem alone {trees : List Tree} {place : Nat} {t : Tree} (ht : trees[place]? = some t)
    (script : List Turn) :
    outcomesFor trees script place t.id = t.outcomes (callsFor script place t.id) ∧
      (played trees script)[place]? = some (t.run (callsFor script place t.id)) := by
  induction script generalizing trees t with
  | nil => exact ⟨rfl, ht⟩
  | cons turn rest ih =>
      rw [outcomesFor_cons ht, callsFor_cons, played_cons]
      by_cases h : turn.IsFor place t.id
      · have hnext : (turned trees turn)[place]? = some (t.apply turn.call).tree := by
          rw [getElem?_turned, if_pos h.1, ht, Option.map_some]
        obtain ⟨houtcomes, hplayed⟩ := ih hnext
        rw [t.id_apply] at houtcomes hplayed
        rw [if_pos h, if_pos h, List.singleton_append, houtcomes, Tree.outcomes, Tree.run_cons]
        exact ⟨rfl, hplayed⟩
      · rw [if_neg h, if_neg h, List.nil_append]
        exact ih (getElem?_turned_of_not_isFor ht h)

/-- A handle that a script answers with has the number of the tree that answered. -/
theorem tree_of_transcript {trees : List Tree} {script : List Turn} {event : Event}
    (he : event ∈ transcript trees script) {h : Handle}
    (ha : event.outcome.answer.handle? = some h) :
    ∃ t, trees[event.place]? = some t ∧ h.tree = t.id := by
  induction script generalizing trees with
  | nil => contradiction
  | cons turn rest ih =>
      rcases List.mem_append.mp he with he | he
      · obtain ⟨t, ht, rfl⟩ := List.mem_map.mp he
        exact ⟨t, Option.mem_toList.mp ht, (Tree.handle_of_apply ha).1⟩
      · obtain ⟨u, hu, hid⟩ := ih he
        rw [getElem?_turned] at hu
        split at hu
        · obtain ⟨t, ht, rfl⟩ := Option.map_eq_some_iff.mp hu
          exact ⟨t, ht, hid.trans (t.id_apply turn.call)⟩
        · exact ⟨u, hu, hid⟩

/-! ### The trees of a process -/

/-- The trees that a process makes with these flags, one after the other, when its counter stands at
`first`. The counter wraps. -/
def planted (first : UInt64) (flags : List Bool) : List Tree :=
  flags.mapIdx fun i captures =>
    { id := (first + UInt64.ofNat i).toNat, capturesScalars := captures }

/-- Before the counter wraps, no two trees have one number. -/
theorem place_unique_planted {first : UInt64} {flags : List Bool} (h : flags.length < UInt64.size)
    {i j : Nat} {t u : Tree} (ht : (planted first flags)[i]? = some t)
    (hu : (planted first flags)[j]? = some u) (e : t.id = u.id) : i = j := by
  rw [planted, List.getElem?_mapIdx] at ht hu
  obtain ⟨_, hi, rfl⟩ := Option.map_eq_some_iff.mp ht
  obtain ⟨_, hj, rfl⟩ := Option.map_eq_some_iff.mp hu
  have hi := (List.getElem?_eq_some_iff.mp hi).1
  have hj := (List.getElem?_eq_some_iff.mp hj).1
  have hof : UInt64.ofNat i = UInt64.ofNat j := by
    simpa using UInt64.toNat_inj.mp e
  have hnat := congrArg UInt64.toNat hof
  rw [UInt64.toNat_ofNat_of_lt' (by simpa using Nat.lt_trans hi h),
    UInt64.toNat_ofNat_of_lt' (by simpa using Nat.lt_trans hj h)] at hnat
  exact hnat

/-- Trees between which nothing passes in a script. -/
structure Separate (trees : List Tree) (script : List Turn) : Prop where
  /-- What a tree goes through is what it goes through alone in its own calls. -/
  alone : ∀ {place : Nat} {t : Tree}, trees[place]? = some t →
    outcomesFor trees script place t.id = t.outcomes (callsFor script place t.id) ∧
      (played trees script)[place]? = some (t.run (callsFor script place t.id))
  /-- A call with the handle of another tree answers nothing and changes no tree. -/
  foreign : ∀ {earlier later : List Turn} {turn : Turn} {t : Tree},
    script = earlier ++ turn :: later → (played trees earlier)[turn.place]? = some t →
    turn.call.Foreign t.id →
    (t.apply turn.call).answer.Empty ∧ played trees (earlier ++ [turn]) = played trees earlier
  /-- A handle that a tree answers with is one of another tree to every tree but this one. -/
  answered : ∀ {event : Event} {h : Handle}, event ∈ transcript trees script →
    event.outcome.answer.handle? = some h →
    ∀ {place : Nat} {t : Tree} {call : Call}, trees[place]? = some t → call.handle? = some h →
      (call.Foreign t.id ↔ place ≠ event.place)

/-- **Trees do not interfere.**  In a script on the trees of a process, of which there are too few
to wrap the counter, each tree goes through what it goes through alone in its own calls, without
those that were given handles of other trees; and these do nothing. -/
theorem separate_planted (first : UInt64) {flags : List Bool} (h : flags.length < UInt64.size)
    (script : List Turn) : Separate (planted first flags) script where
  alone ht := GraphTrace.Segment.alone ht script
  foreign := by
    rintro earlier later turn t - ht hforeign
    obtain ⟨htree, hanswer⟩ := Tree.apply_foreign hforeign
    refine ⟨hanswer, List.ext_getElem? fun i => ?_⟩
    rw [played_append, played_cons, played, List.foldl_nil, getElem?_turned]
    split
    case isTrue e => rw [← e, ht, Option.map_some, htree]
    case isFalse => rfl
  answered := by
    intro event handle he ha place t call ht hcall
    obtain ⟨u, hu, hid⟩ := tree_of_transcript he ha
    have hforeign : call.Foreign t.id ↔ handle.tree ≠ t.id := by
      rw [Call.Foreign, hcall]
      exact ⟨fun ⟨_, e, hne⟩ => Option.some.inj e ▸ hne, fun hne => ⟨_, rfl, hne⟩⟩
    rw [hforeign, hid, not_iff_not]
    refine ⟨fun e => place_unique_planted h ht hu e.symm, ?_⟩
    rintro rfl
    rw [Option.some.inj (ht.symm.trans hu)]

/-- Each of two trees is called with the handle of the other's first segment, which is also a place
of its own. -/
def crossingScript : List Turn :=
  [⟨0, .start ⟨[.key "library"]⟩ false 0⟩, ⟨1, .start ⟨[.key "books"]⟩ false 1⟩,
    ⟨0, .close ⟨1, 0⟩ 2⟩, ⟨1, .nestedIn ⟨0, 0⟩ "load" 3⟩, ⟨0, .finish "op" 4⟩]

/-- Two trees that are given each other's handles go as if each were alone. -/
theorem separate_crossingScript : [false, false].length < UInt64.size ∧
    (played (planted 0 [false, false]) crossingScript)[0]?
      = some (Tree.run { id := 0, capturesScalars := false }
        [.start ⟨[.key "library"]⟩ false 0, .finish "op" 4]) ∧
    (played (planted 0 [false, false]) crossingScript)[1]?
      = some (Tree.run { id := 1, capturesScalars := false }
        [.start ⟨[.key "books"]⟩ false 1]) := by
  have hfew : [false, false].length < UInt64.size := by decide
  have h := separate_planted 0 hfew crossingScript
  have hfirst : (planted 0 [false, false])[0]? = some { id := 0, capturesScalars := false } := rfl
  have hsecond : (planted 0 [false, false])[1]? = some { id := 1, capturesScalars := false } := rfl
  exact ⟨hfew, (h.alone hfirst).2, (h.alone hsecond).2⟩

end GraphTrace.Segment
