import GraphTrace.Proofs.Segment.Durations
import GraphTrace.Proofs.Segment.Relabel

/-!
# Nested work keeps its place

Nested work hangs below the segment that owns it when it starts: that of the longest beginning of
the owner's path that has one (`exists_longestRecorded`), or that of a handle.  It is put behind all
segments, so it is the last child there (`placesBelow_push`).

What happens later does not move it.  The levels above its owner may be reported, and the owner may
be restarted, but a segment keeps its position (`Keeps`), so in the finished tree all nested work is
still below its owner (`keepsOwners_reached`).  Its label plays no part in this
(`nested_keeps_place`).
-/

namespace GraphTrace.Segment

open Response (Path Element)

namespace Tree

/-! ### What a call keeps -/

/-- What a tree keeps of its segments when it becomes another: their labels, the places they stand
at and hang below, and their rank among the segments there. -/
structure Keeps (t u : Tree) : Prop where
  grows : t.Grows u
  /-- New segments come last, wherever they hang. -/
  last : ∀ parent, t.placesBelow parent <+: u.placesBelow parent
  position : ∀ {k : Nat}, k < t.segments.length → u.position k = t.position k

/-- **Every call keeps the segments there are** and puts new ones last. -/
theorem Sound.keeps_apply {t : Tree} (h : t.Sound) (call : Call) :
    t.Keeps (t.apply call).tree where
  grows := t.grows_apply call
  last := (t.grows_apply call).placesBelow_extends
  position := (t.grows_apply call).position_eq h (h.after call)

/-! ### Where nested work belongs -/

/-- Whether a place, or the root, is that of the segment for a path. -/
def StandsAt (t : Tree) (q : Path) : Option Nat → Prop
  | none   => q = .empty
  | some k => q ≠ .empty ∧
    ∃ s, t.segments[k]? = some s ∧ s.work.kind ≠ .nested ∧ s.label = q.text

/-- The longest beginning of a path that has a segment; the empty one is the root. -/
structure LongestRecorded (t : Tree) (owner q : Path) : Prop where
  begins : q.Begins owner
  recorded : ∃ parent, t.StandsAt q parent
  longest : ∀ {r : Path} {parent : Option Nat}, r.Begins owner → t.StandsAt r parent → r.Begins q

/-- A path stands somewhere just if its level is found. -/
theorem exists_standsAt_iff {t : Tree} {q : Path} (hq : q ≠ .empty) :
    (∃ parent, t.StandsAt q parent) ↔ ∃ k, t.place? q.text = some k := by
  constructor
  · rintro ⟨_ | k, hk⟩
    · exact absurd hk hq
    · obtain ⟨-, s, hs, hl⟩ := hk
      rw [← Option.ne_none_iff_exists', ne_eq, place?_eq_none_iff]
      exact fun hno => hno s (List.mem_of_getElem? hs) (Entry.isLevel_iff.mpr hl)
  · rintro ⟨k, hk⟩
    obtain ⟨s, hs, hl⟩ := exists_of_place? hk
    exact ⟨some k, hq, s, hs, Entry.isLevel_iff.mp hl⟩

/-- Where the level of a path is found, the path stands. -/
theorem standsAt_placeFor? {t : Tree} {q : Path} (h : ∃ parent, t.StandsAt q parent) :
    t.StandsAt q (t.placeFor? q) := by
  by_cases hq : q = .empty
  · subst hq
    exact (placeFor?_empty t).symm ▸ rfl
  · obtain ⟨k, hk⟩ := (exists_standsAt_iff hq).mp h
    obtain ⟨s, hs, hl⟩ := exists_of_place? hk
    rw [placeFor?_of_ne hq, hk]
    exact ⟨hq, s, hs, Entry.isLevel_iff.mp hl⟩

/-- The deepest level of a path is its own or the deepest of the path above it. -/
theorem closest?_join (t : Tree) (q : Path) (e : Element) :
    t.closest? (q.join e) = (t.place? (q.join e).text).or (t.closest? q) := by
  rw [closest?, Response.Path.levels_join, List.reverse_concat, List.findSome?_cons]
  cases t.place? (q.join e).text <;> rfl

/-- **Nested work belongs to the longest beginning of its owner** that has a segment. -/
theorem exists_longestRecorded (t : Tree) (owner : Path) :
    ∃ q, t.LongestRecorded owner q ∧ t.closest? owner = t.placeFor? q := by
  induction owner using Response.Path.induction with
  | empty =>
      exact ⟨.empty, ⟨.refl _, ⟨none, rfl⟩, fun hr _ => hr⟩, rfl⟩
  | join q e ih =>
      rw [closest?_join]
      cases h : t.place? (q.join e).text with
      | some k =>
          refine ⟨q.join e, ⟨.refl _, (exists_standsAt_iff (q.join_ne_empty e)).mpr ⟨k, h⟩,
            fun hr _ => hr⟩, ?_⟩
          rw [placeFor?_join, h, Option.some_or]
      | none =>
          -- The path itself has no segment, so the longest beginning is one of the path above.
          obtain ⟨r, hr, hclosest⟩ := ih
          refine ⟨r, ⟨Response.Path.begins_join.mpr (.inl hr.begins), hr.recorded, ?_⟩, hclosest⟩
          intro r' parent hr' hat
          rcases Response.Path.begins_join.mp hr' with hr' | rfl
          · exact hr.longest hr' hat
          · obtain ⟨k, hk⟩ := (exists_standsAt_iff (q.join_ne_empty e)).mp ⟨parent, hat⟩
            rw [h] at hk
            contradiction

/-- Whether a call starts nested work below a place. -/
structure StartsBelow (t : Tree) (call : Call) (label : String) (now : Int)
    (parent : Option Nat) : Prop where
  hasPlace : t.HasPlace parent
  /-- The work is a segment behind the others, the root starts with the earliest work, and nothing
  else changes. -/
  tree : (t.apply call).tree = { t with
    started := some (t.started.elim now (min now))
    segments := t.segments ++ [⟨label, parent, .nested ⟨now, none⟩⟩] }
  /-- The answer is the handle on that segment. -/
  answer : (t.apply call).answer = .handle (some ⟨t.id, t.segments.length⟩)

/-- Nested work is put behind the segments of a tree whose root started. -/
theorem StartsBelow.tree_eq {t : Tree} {call : Call} {label : String} {now : Int}
    {parent : Option Nat} (h : t.StartsBelow call label now parent) :
    (t.apply call).tree = (t.noteStart now).push ⟨label, parent, .nested ⟨now, none⟩⟩ :=
  h.tree

/-- Nested work starts below the segment that its owner names. -/
structure NestsByOwner (t : Tree) : Prop where
  nested : ∀ (owner : Path) (label : String) (now : Int), ∃ q parent,
    t.LongestRecorded owner q ∧ t.StandsAt q parent ∧
      t.StartsBelow (.nested owner label now) label now parent
  nestedIn : ∀ {h : Handle}, h.tree = t.id → h.place < t.segments.length →
    ∀ (label : String) (now : Int),
      t.StartsBelow (.nestedIn h label now) label now (some h.place)

/-- **In an open tree nested work starts below the segment that its owner names.** -/
theorem nestsByOwner {t : Tree} (hc : t.closed = false) : t.NestsByOwner where
  nested owner label now := by
    obtain ⟨q, hq, e⟩ := t.exists_longestRecorded owner
    refine ⟨q, _, hq, standsAt_placeFor? hq.recorded, e ▸ t.closest?_hasPlace owner, ?_, ?_⟩
    · rw [apply, nested_of_open hc, e]
      rfl
    · rw [apply, nested_of_open hc]
      rfl
  nestedIn hid hlt label now := by
    refine ⟨fun j e => Option.some.inj e ▸ hlt, ?_, ?_⟩
    · rw [apply, nestedIn_of_own hc hid hlt]
      rfl
    · rw [apply, nestedIn_of_own hc hid hlt]
      rfl

/-! ### The place of new nested work -/

/-- A new segment stands behind those that hang below the same place. -/
theorem position_push {t : Tree} (h : t.Sound) (s : Entry) (hp : t.HasPlace s.parent)
    (hs : (t.push s).Sound) : (t.push s).position t.segments.length
      = t.positionOf s.parent ++ [(t.placesBelow s.parent).length] := by
  have hnew : t.segments.length ∉ t.placesBelow s.parent := fun hm =>
    absurd (mem_placesBelow.mp hm).1 (Nat.lt_irrefl _)
  rw [hs.position_eq, parent?_push, placesBelow_push, if_pos rfl,
    (Grows.push t s).positionOf_eq h hs hp, List.idxOf_append, if_neg hnew,
    List.idxOf_cons_self, Nat.zero_add]

/-- **New nested work is the last child of its owner**, and stays where it was put. -/
theorem StartsBelow.position {t : Tree} (ht : t.Sound) {call : Call} {label : String} {now : Int}
    {parent : Option Nat} (h : t.StartsBelow call label now parent) (later : List Call) :
    ((t.apply call).tree.run later).position t.segments.length
      = t.positionOf parent ++ [(t.placesBelow parent).length] := by
  have hsound := ht.after call
  have hlater := hsound.run later
  have hlt : t.segments.length < (t.apply call).tree.segments.length := by
    simp [h.tree]
  rw [(grows_run _ later).position_eq hsound hlater hlt]
  rw [h.tree_eq] at hsound ⊢
  have hnoted := ht.change (.note t now)
  rw [← (Grows.change (.note t now)).positionOf_eq ht hnoted h.hasPlace]
  exact position_push hnoted ⟨label, parent, .nested ⟨now, none⟩⟩ h.hasPlace hsound

end Tree

/-! ### The finished tree -/

/-- Whether nested work that was started below a place of a tree hangs there in a finished tree. -/
structure Node.NestsAt (root : Node) (t : Tree) (parent : Option Nat) (label : String)
    (p : List Nat) : Prop where
  position : p = t.positionOf parent ++ [(t.placesBelow parent).length]
  self : ∃ n, root.at? p = some n ∧ n.kind = .nested ∧ n.label = label
  /-- Where the owner was, it still is. -/
  owner : ∃ n, root.at? (t.positionOf parent) = some n ∧ ∀ {k : Nat} {s : Entry},
    parent = some k → t.segments[k]? = some s → n.label = s.label ∧ s.work.kind.Becomes n.kind

/-- Whether all nested work of a finished tree hangs below the segment in which a call of the run
started it. -/
def Node.KeepsOwners (root : Node) (t : Tree) (calls : List Call) : Prop :=
  ∀ p ∈ root.positions .nested, ∃ earlier call later label now parent,
    calls = earlier ++ call :: later ∧ (t.run earlier).StartsBelow call label now parent ∧
      root.NestsAt (t.run earlier) parent label p

namespace Tree

/-- A segment stands in the finished tree where it stood before. -/
theorem Grows.exists_node {t u : Tree} (h : t.Grows u) (ht : t.Sound) (hu : u.Sound)
    (label : String) (now : Int) {parent : Option Nat} (hp : t.HasPlace parent) :
    ∃ n, (u.snapshot label now).at? (t.positionOf parent) = some n ∧ ∀ {k : Nat} {s : Entry},
      parent = some k → t.segments[k]? = some s → n.label = s.label ∧
        s.work.kind.Becomes n.kind := by
  cases parent with
  | none => exact ⟨_, rfl, fun e _ => by contradiction⟩
  | some j =>
      have hj := hp j rfl
      refine ⟨u.node j, ?_, fun e hs => ?_⟩
      · rw [positionOf, ← h.position_eq ht hu hj]
        exact hu.at?_position label now (Nat.lt_of_lt_of_le hj h.length_le)
      · obtain rfl := Option.some.inj e
        obtain ⟨w, hw, hb⟩ := h.kept hs
        rw [hu.node_eq hw]
        exact ⟨rfl, hb⟩

/-- **Nested work stays below its owner**, whatever is called later. -/
theorem StartsBelow.nestsAt {t : Tree} (ht : t.Sound) {call : Call} {label : String} {now : Int}
    {parent : Option Nat} (h : t.StartsBelow call label now parent) (later : List Call)
    (rootLabel : String) (finished : Int) :
    (((t.apply call).tree.run later).snapshot rootLabel finished).NestsAt t parent label
      (((t.apply call).tree.run later).position t.segments.length) where
  position := h.position ht later
  self := by
    have hlater := (ht.after call).run later
    have hnew : (t.apply call).tree.segments[t.segments.length]?
        = some ⟨label, parent, .nested ⟨now, none⟩⟩ := by
      rw [h.tree_eq]
      exact (t.noteStart now).getElem?_push_length _
    obtain ⟨w, hw, hb⟩ := (grows_run _ later).kept hnew
    refine ⟨_, hlater.at?_position rootLabel finished (List.getElem?_eq_some_iff.mp hw).1, ?_⟩
    rw [hlater.node_eq hw]
    exact ⟨hb.nested_iff.mpr rfl, rfl⟩
  owner := ((t.grows_apply call).trans (grows_run _ later)).exists_node ht
    ((ht.after call).run later) rootLabel finished h.hasPlace

/-- **All nested work is below its owner in the finished tree.** -/
theorem keepsOwners_reached (id : Nat) (captures : Bool) {calls : List Call}
    (hf : ∀ call ∈ calls, ¬ call.Finishes) (label : String) (now : Int) :
    ((reached id captures calls).snapshot label now).KeepsOwners
      { id, capturesScalars := captures } calls := by
  intro p hp
  obtain ⟨k, s, hs, hw, rfl⟩ := ((sound_reached id captures calls).mem_positions label now).mp hp
  -- The segment was given as a handle, and where it was it is behind all that there were.
  obtain ⟨call, own, ⟨earlier, later, rfl, ha⟩, hl⟩ := handsOut_of_nested id captures hf hs hw
  rcases (reached id captures earlier).apply_nested hl with ⟨-, e⟩ | ⟨parent, started, hp, htree, e⟩
  · exact absurd (e.symm.trans ha) (by simp)
  · have hk : (reached id captures earlier).segments.length = k :=
      congrArg Handle.place (Option.some.inj (Answer.handle.inj (e.symm.trans ha)))
    have hstarts : (reached id captures earlier).StartsBelow call own started parent :=
      ⟨hp, htree, e⟩
    refine ⟨earlier, call, later, own, started, parent, rfl, hstarts, ?_⟩
    rw [reached_append, run_cons, ← hk]
    exact hstarts.nestsAt (sound_reached id captures earlier) later label now

/-- **Nested work keeps its place.**  Calls on an open tree add segments behind the others and move
none; nested work starts below its owner and is found there in the finished tree; and the labels of
nested work change nothing but themselves. -/
theorem nested_keeps_place (id : Nat) (captures : Bool) (calls : List Call)
    (hf : ∀ call ∈ calls, ¬ call.Finishes) :
    (∀ call, (reached id captures calls).Keeps ((reached id captures calls).apply call).tree) ∧
      (reached id captures calls).NestsByOwner ∧
      ∀ label now, ∃ root, ((reached id captures calls).finish label now).answer = some root ∧
        root.label = label ∧ root.KeepsOwners { id, capturesScalars := captures } calls ∧
        ∀ calls', calls'.map Call.unlabelled = calls.map Call.unlabelled →
          answers { id, capturesScalars := captures } calls'
            = answers { id, capturesScalars := captures } calls ∧
          ∃ root', ((reached id captures calls').finish label now).answer = some root' ∧
            root'.unlabelled = root.unlabelled := by
  have hopen := open_reached id captures hf
  refine ⟨(sound_reached id captures calls).keeps_apply, nestsByOwner hopen, fun label now => ?_⟩
  refine ⟨_, finish_answer hopen label now, rfl, keepsOwners_reached id captures hf label now, ?_⟩
  intro calls' h
  refine ⟨answers_eq_of_relabelled h _ hf, _, finish_answer ?_ label now,
    snapshot_eq_of_relabelled h _ label now⟩
  exact open_reached id captures (finishes_of_relabelled h hf)

/-- Work inside a field that has no segment yet, work inside that work, and the field and the level
above it reported later. -/
def labelledRun (outer inner : String) : List Call :=
  [.start ⟨[.key "a", .key "b"]⟩ false 1, .nested ⟨[.key "a", .key "b", .key "c"]⟩ outer 2,
    .nestedIn ⟨4, 2⟩ inner 3, .start ⟨[.key "a", .key "b", .key "c"]⟩ false 4,
    .start ⟨[.key "a"]⟩ false 5]

/-- What the run leaves: the work hangs below the field above the one that had no segment. -/
def labelledRoot (outer inner : String) : Node :=
  ⟨"op", .operation, some 8,
    [⟨"a", .resolver, none,
      [⟨"a.b", .resolver, none,
        [⟨outer, .nested, none, [⟨inner, .nested, none, []⟩]⟩, ⟨"a.b.c", .resolver, none, []⟩]⟩]⟩]⟩

/-- Labels that look like the paths of the run. -/
theorem nested_keeps_place_labelledRun :
    (∀ call ∈ labelledRun "a.b.c" "a", ¬ call.Finishes) ∧
      ((reached 4 false (labelledRun "a.b.c" "a")).finish "op" 9).answer
        = some (labelledRoot "a.b.c" "a") ∧
      (labelledRoot "a.b.c" "a").at? [0, 0, 0]
        = some ⟨"a.b.c", .nested, none, [⟨"a", .nested, none, []⟩]⟩ ∧
      (labelledRoot "a.b.c" "a").at? [0, 0, 0, 0] = some ⟨"a", .nested, none, []⟩ ∧
      (labelledRoot "a.b.c" "a").KeepsOwners { id := 4, capturesScalars := false }
        (labelledRun "a.b.c" "a") ∧
      ((reached 4 false (labelledRun "load" "retry")).finish "op" 9).answer
        = some (labelledRoot "load" "retry") ∧
      (labelledRoot "load" "retry").unlabelled = (labelledRoot "a.b.c" "a").unlabelled := by
  have hf : ∀ call ∈ labelledRun "a.b.c" "a", ¬ call.Finishes := by
    simp [labelledRun, Call.Finishes]
  have hfinished : ((reached 4 false (labelledRun "a.b.c" "a")).finish "op" 9).answer
      = some (labelledRoot "a.b.c" "a") := by decide +kernel
  have hfinished' : ((reached 4 false (labelledRun "load" "retry")).finish "op" 9).answer
      = some (labelledRoot "load" "retry") := by decide +kernel
  obtain ⟨-, -, hfinish⟩ := nested_keeps_place 4 false (labelledRun "a.b.c" "a") hf
  obtain ⟨root, hroot, -, hkeeps, hlabels⟩ := hfinish "op" 9
  obtain ⟨-, root', hroot', hsame⟩ := hlabels (labelledRun "load" "retry") rfl
  obtain rfl := Option.some.inj (hroot.symm.trans hfinished)
  obtain rfl := Option.some.inj (hroot'.symm.trans hfinished')
  exact ⟨hf, hfinished, rfl, rfl, hkeeps, hfinished', hsame⟩

end Tree

end GraphTrace.Segment
