import GraphTrace.Proofs.Segment.Clocks

/-!
# Durations and their history

The duration of a finished segment is told by the calls that reached it, whatever their order
(`durations_of_run`).  Every resolver and every piece of nested work is the segment of one handle
that the run answered with, and has the duration that its history tells: the last end less the
latest start before it, if an end came after a start.  A level whose resolution was never reported
has no duration.

An end that finds nothing started leaves the tree as it was, and so does one through a handle that
was not given; a further start leaves every duration (`Unnoticed`).
-/

namespace GraphTrace.Segment

open Response (Path)

/-- How the durations of a finished tree follow from its run: `segmentAt` is the position of the
segment with a handle. -/
structure Node.FollowsHistory (root : Node) (t : Tree) (calls : List Call)
    (segmentAt : Handle → List Nat) : Prop where
  /-- The resolvers and the nested segments are those of the handles that the run gave. -/
  oneToOne : Set.BijOn segmentAt {h | ∃ call, t.HandsOut calls call h}
    (root.positions .resolver ∪ root.positions .nested)
  synthetic : ∀ {p : List Nat} {n : Node}, root.at? p = some n → n.kind = .synthetic →
    n.duration = none
  /-- A resolver has the duration that its text and its handle were told. -/
  resolver : ∀ {call : Call} {q : Path} {h : Handle}, t.HandsOut calls call h →
    call.resolution? = some q → ∃ n, root.at? (segmentAt h) = some n ∧ n.kind = .resolver ∧
      n.label = q.text ∧ Timed (Tree.gather (Call.levelMarks q.text h) t calls) n.duration
  /-- Nested work has the duration that its handle was told. -/
  nested : ∀ {call : Call} {label : String} {h : Handle}, t.HandsOut calls call h →
    call.nestedLabel? = some label → ∃ n, root.at? (segmentAt h) = some n ∧ n.kind = .nested ∧
      n.label = label ∧ Timed (Tree.gather (Call.nestedMarks h) t calls) n.duration

namespace Tree

/-- What leaves no trace after a run. -/
structure Unnoticed (t : Tree) (calls : List Call) : Prop where
  /-- The end of a path, none of which was resolved so far. -/
  stop : ∀ {path : Path}, (∀ call q h, t.HandsOut calls call h → call.resolution? = some q →
      q.text ≠ path.text) →
    ∀ now, ((t.run calls).apply (.stop path now)).tree = t.run calls
  /-- The end of a handle that was not given so far. -/
  close : ∀ {h : Handle}, (∀ call, ¬ t.HandsOut calls call h) →
    ∀ now, ((t.run calls).apply (.close h now)).tree = t.run calls
  /-- One more start, in the durations that there are. -/
  start : ∀ (path : Path) (leaf : Bool) (started : Int) (label : String) (now : Int)
      {p : List Nat} {n : Node}, p ≠ [] → ((t.run calls).snapshot label now).at? p = some n →
    ∃ m, (((t.run calls).apply (.start path leaf started)).tree.snapshot label now).at? p = some m ∧
      m.duration = n.duration

/-! ### Handles that a run gives -/

section HandsOut

variable {t : Tree} {calls : List Call} {call : Call} {h : Handle}

/-- The handle on a resolver is that of the level with its text. -/
theorem HandsOut.resolver (hg : t.HandsOut calls call h) (ht : t.Sound) (hc : t.closed = false)
    (hf : ∀ c ∈ calls, ¬ c.Finishes) {q : Path} (hq : call.resolution? = some q) :
    h.tree = t.id ∧ ∃ s, (t.run calls).segments[h.place]? = some s ∧
      s.work.kind = .resolver ∧ s.label = q.text := by
  obtain ⟨earlier, later, rfl, ha⟩ := hg
  obtain ⟨hid, hcap, hdoes⟩ := does_after hc hf
  obtain ⟨hres, htree, hplace⟩ := hdoes.place?_of_resolution hq
    (show ((t.run earlier).apply call).answer.handle? = some h by rw [ha]; rfl)
  have hsound := ht.run (earlier ++ call :: later)
  have hlast : (t.run (earlier ++ call :: later)).place? q.text = some h.place := by
    rw [run_append, run_cons] at hsound ⊢
    exact (grows_run _ later).place?_eq hsound hplace
  obtain ⟨s, hs, hl⟩ := exists_of_place? hlast
  refine ⟨htree.trans hid, s, hs, ?_, (Entry.isLevel_iff.mp hl).2⟩
  rw [← workAt_eq hlast hs, kind_workAt_run hc hf]
  exact .inr ⟨q, ⟨call, by simp, hcap ▸ hres⟩, rfl⟩

/-- The handle on nested work is that of the place where it stands. -/
theorem HandsOut.nested (hg : t.HandsOut calls call h) (hf : ∀ c ∈ calls, ¬ c.Finishes)
    {label : String} (hl : call.nestedLabel? = some label) :
    h.tree = t.id ∧ (t.run calls).NestedAt label h.place := by
  obtain ⟨earlier, later, rfl, ha⟩ := hg
  obtain ⟨hid, -, -⟩ := t.run_fixed fun c (hm : c ∈ earlier) => hf c (by simp [hm])
  rcases (t.run earlier).apply_nested hl with ⟨-, e⟩ | ⟨parent, now, -, htree, e⟩
  · rw [e] at ha
    simp at ha
  · rw [e] at ha
    obtain rfl := Option.some.inj (Answer.handle.inj ha)
    refine ⟨hid, ?_⟩
    rw [run_append, run_cons, htree]
    exact (nestedAt_run fun c hm => hf c (by simp [hm])).mpr
      (.inl (nestedAt_startNested.mpr (.inr ⟨rfl, rfl⟩)))

end HandsOut

section Reached

variable (id : Nat) (captures : Bool) {calls : List Call} (hf : ∀ call ∈ calls, ¬ call.Finishes)
include hf

/-- The clock of a level is that of the marks which its text and its handle gathered. -/
theorem clock?_workAt_reached {text : String} {h : Handle} (hid : h.tree = id)
    (hk : (reached id captures calls).place? text = some h.place) :
    ((reached id captures calls).workAt text).clock?
      = clockOf (gather (Call.levelMarks text h) { id, capturesScalars := captures } calls) := by
  have hfresh : workAt { id, capturesScalars := captures } text = .level := workAt_of_none rfl
  have hrun := clock?_workAt_run (Sound.fresh id captures) rfl hf hid hk
  rwa [hfresh] at hrun

/-- The clock of nested work is that of the marks which its handle gathered. -/
theorem nestedClock?_reached {h : Handle} (hid : h.tree = id) :
    (reached id captures calls).nestedClock? h.place
      = clockOf (gather (Call.nestedMarks h) { id, capturesScalars := captures } calls) :=
  nestedClock?_run (t := { id, capturesScalars := captures }) rfl hf hid

/-- Every resolver was given as a handle, in answer to a resolution with its text. -/
theorem handsOut_of_resolver {k : Nat} {s : Entry}
    (hs : (reached id captures calls).segments[k]? = some s) (hw : s.work.kind = .resolver) :
    ∃ call q, HandsOut { id, capturesScalars := captures } calls call ⟨id, k⟩ ∧
      call.resolution? = some q ∧ q.text = s.label := by
  have hsound := sound_reached id captures calls
  have hk : (reached id captures calls).place? s.label = some k :=
    hsound.place?_eq_some_iff.mpr ⟨s, hs, Entry.isLevel_iff.mpr ⟨by simp [hw], rfl⟩⟩
  have hclock := clock?_workAt_reached id captures hf (h := ⟨id, k⟩) rfl hk
  -- The clock of a resolver was told a start, and the call that told it was given a handle.
  obtain ⟨now, hm⟩ := isSome_clockOf.mp (show (clockOf _).isSome by
    rw [← hclock, workAt_eq hk hs]
    cases e : s.work with
    | level | nested c => rw [e] at hw; contradiction
    | resolver c => rfl)
  obtain ⟨earlier, call, later, hcalls, hm⟩ := mem_gather.mp hm
  obtain ⟨q, given, hq, htext, ha⟩ := Call.start_mem_levelMarks hm
  have hg : HandsOut { id, capturesScalars := captures } calls call given :=
    ⟨earlier, later, hcalls, ha⟩
  obtain ⟨htree, r, hr, hrk, hrl⟩ := hg.resolver (Sound.fresh id captures) rfl hf hq
  have hplace : given.place = k := hsound.level_unique hr hs
    (Entry.isLevel_iff.mpr ⟨by simp [hrk], hrl.trans htext⟩)
    (Entry.isLevel_iff.mpr ⟨by simp [hw], rfl⟩)
  obtain rfl : given = ⟨id, k⟩ := by rw [← hplace, ← show given.tree = id from htree]
  exact ⟨call, q, hg, hq, htext⟩

/-- All nested work was given as a handle, in answer to the call that asked for it. -/
theorem handsOut_of_nested {k : Nat} {s : Entry}
    (hs : (reached id captures calls).segments[k]? = some s) (hw : s.work.kind = .nested) :
    ∃ call label, HandsOut { id, capturesScalars := captures } calls call ⟨id, k⟩ ∧
      call.nestedLabel? = some label := by
  have hclock := nestedClock?_reached id captures hf (h := ⟨id, k⟩) rfl
  obtain ⟨now, hm⟩ := isSome_clockOf.mp (show (clockOf _).isSome by
    rw [← hclock, nestedClock?_eq hs hw]
    cases e : s.work with
    | level | resolver c => rw [e] at hw; contradiction
    | nested c => rfl)
  obtain ⟨earlier, call, later, hcalls, hm⟩ := mem_gather.mp hm
  obtain ⟨label, hl, ha⟩ := Call.start_mem_nestedMarks hm
  exact ⟨call, label, ⟨earlier, later, hcalls, ha⟩, hl⟩

/-- A handle that was given is one on a segment that started. -/
theorem HandsOut.started {call : Call} {h : Handle}
    (hg : HandsOut { id, capturesScalars := captures } calls call h) :
    h.tree = id ∧ ∃ s, (reached id captures calls).segments[h.place]? = some s ∧
      (s.work.kind = .resolver ∨ s.work.kind = .nested) := by
  have ⟨_, _, _, ha⟩ := hg
  rcases Call.asks_of_handle ha with ⟨q, hq⟩ | ⟨label, hl⟩
  · obtain ⟨hid, s, hs, hw, -⟩ := hg.resolver (Sound.fresh id captures) rfl hf hq
    exact ⟨hid, s, hs, .inl hw⟩
  · obtain ⟨hid, s, hs, hw, -⟩ := hg.nested hf hl
    exact ⟨hid, s, hs, .inr hw⟩

/-- **The resolvers and the nested segments are those of the handles that the run gave.** -/
theorem bijOn_handsOut (label : String) (now : Int) :
    Set.BijOn (fun h => (reached id captures calls).position h.place)
      {h | ∃ call, HandsOut { id, capturesScalars := captures } calls call h}
      (((reached id captures calls).snapshot label now).positions .resolver ∪
        ((reached id captures calls).snapshot label now).positions .nested) := by
  have hsound := sound_reached id captures calls
  refine ⟨?_, ?_, ?_⟩
  · rintro h ⟨call, hg⟩
    obtain ⟨-, s, hs, hw | hw⟩ := hg.started id captures hf
    · exact .inl ((hsound.mem_positions label now).mpr ⟨h.place, s, hs, hw, rfl⟩)
    · exact .inr ((hsound.mem_positions label now).mpr ⟨h.place, s, hs, hw, rfl⟩)
  · rintro ⟨tree, place⟩ ⟨call, hg⟩ ⟨tree', place'⟩ ⟨call', hg'⟩ e
    obtain ⟨htree, s, hs, -⟩ := hg.started id captures hf
    obtain ⟨htree', s', hs', -⟩ := hg'.started id captures hf
    have hplace := hsound.position_injective (List.getElem?_eq_some_iff.mp hs).1
      (List.getElem?_eq_some_iff.mp hs').1 e
    exact Handle.mk.injEq .. ▸ ⟨htree.trans htree'.symm, hplace⟩
  · rintro p (hp | hp)
    · obtain ⟨k, s, hs, hw, rfl⟩ := (hsound.mem_positions label now).mp hp
      obtain ⟨call, q, hg, -⟩ := handsOut_of_resolver id captures hf hs hw
      exact ⟨⟨id, k⟩, ⟨call, hg⟩, rfl⟩
    · obtain ⟨k, s, hs, hw, rfl⟩ := (hsound.mem_positions label now).mp hp
      obtain ⟨call, label, hg, -⟩ := handsOut_of_nested id captures hf hs hw
      exact ⟨⟨id, k⟩, ⟨call, hg⟩, rfl⟩

/-- **Durations follow from the history** of each segment. -/
theorem followsHistory_reached (label : String) (now : Int) :
    ((reached id captures calls).snapshot label now).FollowsHistory
      { id, capturesScalars := captures } calls
      (fun h => (reached id captures calls).position h.place) where
  oneToOne := bijOn_handsOut id captures hf label now
  synthetic := by
    intro p n hn hk
    have hsound := sound_reached id captures calls
    by_cases hp : p = []
    · subst hp
      obtain rfl := Option.some.inj hn
      contradiction
    · obtain ⟨k, hlt, rfl, rfl⟩ := hsound.exists_position label now hn hp
      rw [hsound.node_eq (List.getElem?_eq_getElem hlt)] at hk ⊢
      cases e : (reached id captures calls).segments[k].work with
      | level => rfl
      | resolver c | nested c => simp [e, Work.kind] at hk
  resolver := by
    intro call q h hg hq
    have hsound := sound_reached id captures calls
    obtain ⟨hid, s, hs, hw, hl⟩ := hg.resolver (Sound.fresh id captures) rfl hf hq
    have hplace : (reached id captures calls).place? q.text = some h.place :=
      hsound.place?_eq_some_iff.mpr ⟨s, hs, Entry.isLevel_iff.mpr ⟨by simp [hw], hl⟩⟩
    refine ⟨_, hsound.at?_position label now (List.getElem?_eq_some_iff.mp hs).1, ?_⟩
    rw [hsound.node_eq hs]
    refine ⟨hw, hl, ?_⟩
    rw [← workAt_eq hplace hs, clock?_workAt_reached id captures hf hid hplace]
    exact timed_clockOf _
  nested := by
    intro call label' h hg hl
    have hsound := sound_reached id captures calls
    obtain ⟨hid, s, hs, hw, hlabel⟩ := hg.nested hf hl
    refine ⟨_, hsound.at?_position label now (List.getElem?_eq_some_iff.mp hs).1, ?_⟩
    rw [hsound.node_eq hs]
    refine ⟨hw, hlabel, ?_⟩
    rw [← nestedClock?_eq hs hw]
    exact nestedClock?_reached id captures hf hid ▸ timed_clockOf _

end Reached

/-! ### What leaves no trace -/

/-- An end at a place where nothing started changes nothing. -/
theorem modify_ended_of_level {t : Tree} {k : Nat}
    (h : ∀ s, t.segments[k]? = some s → s.work = .level) (now : Int) :
    t.modify k (.ended now) = t := by
  have hsegments : t.segments.modify k (fun s => { s with work := s.work.ended now })
      = t.segments := by
    refine List.ext_getElem? fun j => ?_
    rw [List.getElem?_modify]
    split
    case isTrue e =>
      subst e
      cases hs : t.segments[k]? with
      | none => rfl
      | some s =>
          obtain ⟨text, parent, work⟩ := s
          obtain rfl : work = .level := h _ hs
          rfl
    case isFalse => cases t.segments[j]? <;> rfl
  rw [modify, hsegments]

/-- **A start leaves every duration** that there is. -/
theorem took_of_start {t : Tree} (ht : t.Sound) (hc : t.closed = false) (path : Path) (leaf : Bool)
    (now : Int) {k : Nat} {s s' : Entry} (hs : t.segments[k]? = some s)
    (hs' : (t.apply (.start path leaf now)).tree.segments[k]? = some s') :
    s'.work.clock?.bind (·.took) = s.work.clock?.bind (·.took) := by
  have hstart : ¬ (Call.start path leaf now).Finishes := fun h => h
  have hsound := ht.after (.start path leaf now)
  obtain ⟨w, hw, hkind⟩ := (t.grows_apply (.start path leaf now)).kept hs
  obtain rfl := Option.some.inj (hw.symm.trans hs')
  by_cases hn : s.work.kind = .nested
  · have hclock : (t.apply (.start path leaf now)).tree.nestedClock? k = t.nestedClock? k :=
      (does_apply hc hstart).nestedClock? (h := t.handle k) rfl
    rw [nestedClock?_eq hs' (hkind.nested_iff.mpr hn), nestedClock?_eq hs hn] at hclock
    rw [hclock]
  · have hk : t.place? s.label = some k :=
      ht.place?_eq_some_iff.mpr ⟨s, hs, Entry.isLevel_iff.mpr ⟨hn, rfl⟩⟩
    have hclock := (does_apply hc hstart).clock?_workAt (h := t.handle k) rfl
      fun j e => Option.some.inj (e.symm.trans hk)
    rw [workAt_eq ((t.grows_apply _).place?_eq hsound hk) hs', workAt_eq hk hs] at hclock
    rw [hclock, Call.took_levelMarks_start]

/-- **What leaves no trace** after a run of a fresh tree. -/
theorem unnoticed_fresh (id : Nat) (captures : Bool) {calls : List Call}
    (hf : ∀ call ∈ calls, ¬ call.Finishes) :
    Unnoticed { id, capturesScalars := captures } calls where
  stop := by
    intro path hno now
    have hopen := open_reached id captures hf
    change ((reached id captures calls).stop path now).tree = reached id captures calls
    cases hk : (reached id captures calls).place? path.text with
    | none => exact stop_of_missing hk now
    | some k =>
        rw [stop_of_place? hopen hk]
        refine modify_ended_of_level (fun s hs => ?_) now
        obtain ⟨s', hs', hl⟩ := exists_of_place? hk
        obtain rfl := Option.some.inj (hs.symm.trans hs')
        obtain ⟨hn, hlabel⟩ := Entry.isLevel_iff.mp hl
        cases hw : s.work with
        | level => rfl
        | nested c => exact absurd (by rw [hw]; rfl) hn
        | resolver c =>
            obtain ⟨call, q, hg, hq, htext⟩ :=
              handsOut_of_resolver id captures hf hs (by rw [hw]; rfl)
            exact absurd (htext.trans hlabel) (hno call q _ hg hq)
  close := by
    intro h hno now
    have hopen := open_reached id captures hf
    change ((reached id captures calls).close h now).tree = reached id captures calls
    by_cases hid : h.tree = id
    · rw [close_of_own hopen (hid.trans (reached_id id captures calls).symm)]
      refine modify_ended_of_level (fun s hs => ?_) now
      obtain ⟨tree, place⟩ := h
      obtain rfl : tree = id := hid
      cases hw : s.work with
      | level => rfl
      | nested c =>
          obtain ⟨call, label, hg, -⟩ := handsOut_of_nested tree captures hf hs (by rw [hw]; rfl)
          exact absurd hg (hno call)
      | resolver c =>
          obtain ⟨call, q, hg, -⟩ := handsOut_of_resolver tree captures hf hs (by rw [hw]; rfl)
          exact absurd hg (hno call)
    · exact close_of_foreign (fun e => hid (e.trans (reached_id id captures calls))) now
  start := by
    intro path leaf started label now p n hp hn
    have hsound := sound_reached id captures calls
    have hgrows := (reached id captures calls).grows_apply (.start path leaf started)
    obtain ⟨k, hk, rfl, rfl⟩ := hsound.exists_position label now hn hp
    have hs := List.getElem?_eq_getElem hk
    obtain ⟨w, hw, -⟩ := hgrows.kept hs
    refine ⟨_, hgrows.position_eq hsound (hsound.after _) hk ▸
      (hsound.after _).at?_position label now (List.getElem?_eq_some_iff.mp hw).1, ?_⟩
    rw [(hsound.after _).node_eq hw, hsound.node_eq hs]
    exact took_of_start hsound (open_reached id captures hf) path leaf started hs hw

/-- **Durations follow the history of the calls.**  After any run, every resolver and every nested
segment of the finished tree is that of one handle that the run gave, and its duration is the last
end that reached it less the latest start before that, if there was an end after a start. -/
theorem durations_of_run (id : Nat) (captures : Bool) (calls : List Call) (label : String)
    (now : Int) (hf : ∀ call ∈ calls, ¬ call.Finishes) :
    ∃ root segmentAt, ((reached id captures calls).finish label now).answer = some root ∧
      root.FollowsHistory { id, capturesScalars := captures } calls segmentAt ∧
      Unnoticed { id, capturesScalars := captures } calls :=
  ⟨_, _, finish_answer (open_reached id captures hf) label now,
    followsHistory_reached id captures hf label now, unnoticed_fresh id captures hf⟩

/-- A level that ends before it is resolved and is resolved again after it ended, a record that is
older than the resolution before it, and work that is ended twice. -/
def restartedRun : List Call :=
  [.start ⟨[.key "a", .key "b"]⟩ false 10, .stop ⟨[.key "a"]⟩ 11, .start ⟨[.key "a"]⟩ false 12,
    .nested ⟨[.key "a"]⟩ "load" 13, .close ⟨5, 2⟩ 15, .stop ⟨[.key "a"]⟩ 16, .close ⟨5, 2⟩ 19,
    .start ⟨[.key "a"]⟩ false 20, .record ⟨[.key "a", .key "b"]⟩ false 3 9]

/-- What the run leaves: `a` ran from 12 to 16, `a.b` from 3 to 9, and the work from 13 to 19. -/
def restartedRoot : Node :=
  ⟨"op", .operation, some 27,
    [⟨"a", .resolver, some 4, [⟨"a.b", .resolver, some 6, []⟩, ⟨"load", .nested, some 6, []⟩]⟩]⟩

/-- The run finishes as that tree, with the durations that its history gives. -/
theorem durations_of_restartedRun :
    (∀ call ∈ restartedRun, ¬ call.Finishes) ∧
      ((reached 5 false restartedRun).finish "op" 30).answer = some restartedRoot ∧
      (∃ segmentAt, restartedRoot.FollowsHistory { id := 5, capturesScalars := false } restartedRun
        segmentAt) ∧
      Unnoticed { id := 5, capturesScalars := false } restartedRun := by
  have hf : ∀ call ∈ restartedRun, ¬ call.Finishes := by decide
  obtain ⟨root, segmentAt, hroot, hfollows, hunnoticed⟩ :=
    durations_of_run 5 false restartedRun "op" 30 hf
  have hfinished : ((reached 5 false restartedRun).finish "op" 30).answer = some restartedRoot := by
    decide +kernel
  obtain rfl := Option.some.inj (hroot.symm.trans hfinished)
  exact ⟨hf, hfinished, ⟨segmentAt, hfollows⟩, hunnoticed⟩

end Tree

end GraphTrace.Segment
