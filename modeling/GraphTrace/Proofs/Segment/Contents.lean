import GraphTrace.Proofs.Segment.History
import GraphTrace.Proofs.Segment.Position

/-!
# The contents of a finished tree

After any run of calls with named paths, in any order and with any repetitions, the finished tree
holds exactly two kinds of things below its root (`contents_of_run`):

* one resolver or synthetic segment for each beginning of a resolved path, the empty one aside.  It
  is labelled with the text of its path, hangs below the segment of the path one step shorter, and
  is a resolver when the path itself was resolved;
* one nested segment for each call that asked for nested work and was given a handle.

The two correspondences are maps into the positions of the finished tree.
-/

namespace GraphTrace.Segment

open Response (Path Element)

/-- The beginnings of the paths that a run resolves, the empty one aside. -/
def Recorded (captures : Bool) (calls : List Call) (q : Path) : Prop :=
  q ≠ .empty ∧ ∃ p, Resolved captures calls p ∧ q.Begins p

/-- What a finished tree holds of the resolutions of a run: `levelAt` is the position of the segment
for a path, and the root for the empty one. -/
structure Node.HasLevels (root : Node) (captures : Bool) (calls : List Call)
    (levelAt : Path → List Nat) : Prop where
  oneToOne : Set.BijOn levelAt {q | Recorded captures calls q}
    (root.positions .resolver ∪ root.positions .synthetic)
  empty : levelAt .empty = []
  below : ∀ {q : Path} {e : Element}, Recorded captures calls (q.join e) →
    ∃ i, levelAt (q.join e) = levelAt q ++ [i]
  labelled : ∀ {q : Path}, Recorded captures calls q →
    ∃ n, root.at? (levelAt q) = some n ∧ n.label = q.text
  resolver_iff : ∀ {q : Path}, Recorded captures calls q →
    (levelAt q ∈ root.positions .resolver ↔ Resolved captures calls q)

/-- What a finished tree holds of the nested work of a run: `nestedAt` is the position of the
segment for the call with an index. -/
structure Node.HasNested (root : Node) (t : Tree) (calls : List Call) (nestedAt : Nat → List Nat) :
    Prop where
  oneToOne : Set.BijOn nestedAt {i | ∃ label, t.GrantsNested calls i label} (root.positions .nested)
  labelled : ∀ {i : Nat} {label : String}, t.GrantsNested calls i label →
    ∃ n, root.at? (nestedAt i) = some n ∧ n.label = label

namespace Tree

/-- The position of the segment for a path. -/
def levelAt (t : Tree) (p : Path) : List Nat := t.positionOf (t.placeFor? p)

/-! ### Levels -/

namespace Shows

variable {t : Tree} {shown : Path → Prop}

/-- A shown path has a level, which carries its text. -/
theorem exists_level (h : t.Shows shown) {p : Path} (hp : p ≠ .empty) (hs : shown p) :
    ∃ k s, t.placeFor? p = some k ∧ t.segments[k]? = some s ∧ s.work.kind ≠ .nested ∧
      s.label = p.text := by
  obtain ⟨k, hk⟩ := h.exists_place hp hs
  obtain ⟨s, hks, hl⟩ := exists_of_place? hk
  exact ⟨k, s, (placeFor?_of_ne hp).trans hk, hks, Entry.isLevel_iff.mp hl⟩

/-- Different paths have their levels at different positions. -/
theorem levelAt_injective (h : t.Shows shown) {p q : Path} (hp : p ≠ .empty) (hq : q ≠ .empty)
    (hsp : shown p) (hsq : shown q) (e : t.levelAt p = t.levelAt q) : p = q := by
  obtain ⟨j, r, hj, hr, -, -⟩ := h.exists_level hp hsp
  obtain ⟨k, s, hk, hs, -, -⟩ := h.exists_level hq hsq
  rw [levelAt, levelAt, hj, hk] at e
  have hjk := h.sound.position_injective (List.getElem?_eq_some_iff.mp hr).1
    (List.getElem?_eq_some_iff.mp hs).1 e
  exact h.placeFor?_injective hsp hsq (by rw [hj, hk, hjk])

/-- No level is at the position of the root. -/
theorem levelAt_ne_nil (h : t.Shows shown) {p : Path} (hp : p ≠ .empty) (hs : shown p) :
    t.levelAt p ≠ [] := by
  obtain ⟨k, s, hk, -⟩ := h.exists_level hp hs
  rw [levelAt, hk]
  exact h.sound.position_ne_nil k

theorem exists_levelAt (h : t.Shows shown) {k : Nat} {s : Entry} (hs : t.segments[k]? = some s)
    (hn : s.work.kind ≠ .nested) :
    ∃ p, p ≠ .empty ∧ shown p ∧ t.levelAt p = t.position k := by
  have hl : s.isLevel s.label := Entry.isLevel_iff.mpr ⟨hn, rfl⟩
  obtain ⟨p, hne, hp, e⟩ := h.covers (List.mem_of_getElem? hs) hl
  refine ⟨p, hne, hp, ?_⟩
  rw [levelAt, placeFor?_of_ne hne, ← e, h.sound.place?_eq_some_iff.mpr ⟨s, hs, hl⟩, positionOf]

/-- A level is directly below that of the path above it. -/
theorem levelAt_join (h : t.Shows shown) {p : Path} {e : Element} (hs : shown (p.join e)) :
    ∃ i, t.levelAt (p.join e) = t.levelAt p ++ [i] := by
  obtain ⟨k, s, hk, hks, hpar⟩ := h.place_of_join hs
  have hp : t.parent? k = t.placeFor? p := by rw [parent?, hks, Option.bind_some, hpar]
  rw [levelAt, hk, positionOf, h.sound.position_eq, hp]
  exact ⟨_, rfl⟩

section Finished

variable (h : t.Shows shown) (label : String) (now : Int)
include h

/-- **The segment of a shown path** carries the text of the path and the work recorded there. -/
theorem exists_node {p : Path} (hp : p ≠ .empty) (hs : shown p) :
    ∃ n, (t.snapshot label now).at? (t.levelAt p) = some n ∧ n.label = p.text ∧
      n.kind = (t.workAt p.text).kind ∧
      n.duration = (t.workAt p.text).clock?.bind (·.took) := by
  obtain ⟨k, s, hk, hks, -, hl⟩ := h.exists_level hp hs
  have hw := workAt_eq ((placeFor?_of_ne hp).symm.trans hk) hks
  refine ⟨t.node k, ?_, ?_⟩
  · rw [levelAt, hk, positionOf]
    exact h.sound.at?_position label now (List.getElem?_eq_some_iff.mp hks).1
  · rw [h.sound.node_eq hks, hw]
    exact ⟨hl, rfl, rfl⟩

/-- The kind at the position of a level is that of the work recorded there. -/
theorem levelAt_mem_positions_iff {p : Path} (hp : p ≠ .empty) (hs : shown p) {kind : Kind} :
    t.levelAt p ∈ (t.snapshot label now).positions kind ↔ (t.workAt p.text).kind = kind := by
  obtain ⟨n, hn, -, hk, -⟩ := h.exists_node label now hp hs
  constructor
  · rintro ⟨-, m, hm, rfl⟩
    rw [Option.some.inj (hm.symm.trans hn), hk]
  · exact fun e => ⟨h.levelAt_ne_nil hp hs, n, hn, hk.trans e⟩

/-- **The resolvers and the synthetic segments are the segments of the shown paths.** -/
theorem bijOn_levelAt : Set.BijOn t.levelAt {p | p ≠ .empty ∧ shown p}
    ((t.snapshot label now).positions .resolver ∪ (t.snapshot label now).positions .synthetic) := by
  refine ⟨fun p hp => ?_, fun p hp q hq e => h.levelAt_injective hp.1 hq.1 hp.2 hq.2 e, ?_⟩
  · rw [Set.mem_union, h.levelAt_mem_positions_iff label now hp.1 hp.2,
      h.levelAt_mem_positions_iff label now hp.1 hp.2]
    have hne := t.kind_workAt_ne_nested p.text
    cases hw : t.workAt p.text with
    | level => exact .inr rfl
    | resolver c => exact .inl rfl
    | nested c => exact absurd (by rw [hw]; rfl) hne
  · intro pos hpos
    obtain ⟨k, s, hs, hne, rfl⟩ :
        ∃ k s, t.segments[k]? = some s ∧ s.work.kind ≠ .nested ∧ pos = t.position k := by
      rcases hpos with hpos | hpos
      · obtain ⟨k, s, hs, hk, e⟩ := (h.sound.mem_positions label now).mp hpos
        exact ⟨k, s, hs, by simp [hk], e⟩
      · obtain ⟨k, s, hs, hk, e⟩ := (h.sound.mem_positions label now).mp hpos
        exact ⟨k, s, hs, by simp [hk], e⟩
    obtain ⟨p, hp, hshown, e⟩ := h.exists_levelAt hs hne
    exact ⟨p, ⟨hp, hshown⟩, e⟩

end Finished

end Shows

/-- A path that named calls resolve is named. -/
theorem resolved_named {captures : Bool} {calls : List Call} (hn : ∀ call ∈ calls, call.Named)
    {p : Path} (h : Resolved captures calls p) : p.Named := by
  obtain ⟨call, hm, hr⟩ := h
  exact hr.named (hn call hm)

section Run

variable (id : Nat) (captures : Bool) {calls : List Call}
  (hf : ∀ call ∈ calls, ¬ call.Finishes) (hn : ∀ call ∈ calls, call.Named)
include hf hn

/-- A fresh tree shows, after a run, the root and what the run recorded. -/
theorem shows_run : (run { id, capturesScalars := captures } calls).Shows
    (fun q => q = .empty ∨ ∃ p, Resolved captures calls p ∧ q.Begins p) :=
  (Shows.fresh id captures).run rfl hf hn

/-- The level of a recorded path is a resolver when the path itself was resolved. -/
theorem kind_workAt_fresh {q : Path} (hq : q.Named) :
    ((run { id, capturesScalars := captures } calls).workAt q.text).kind = .resolver
      ↔ Resolved captures calls q := by
  have hfresh : (workAt { id, capturesScalars := captures } q.text).kind ≠ .resolver := by
    rw [workAt_of_none rfl]
    simp [Work.kind]
  rw [kind_workAt_run rfl hf, or_iff_right hfresh]
  constructor
  · rintro ⟨p, hp, e⟩
    exact Response.Path.text_injective (resolved_named hn hp) hq e ▸ hp
  · exact fun h => ⟨q, h, rfl⟩

/-- The finished tree has the levels of the paths that were resolved. -/
theorem hasLevels_run (label : String) (now : Int) :
    ((run { id, capturesScalars := captures } calls).snapshot label now).HasLevels captures calls
      (run { id, capturesScalars := captures } calls).levelAt := by
  have h := shows_run id captures hf hn
  have hset : {q | Recorded captures calls q}
      = {q | q ≠ .empty ∧ (q = .empty ∨ ∃ p, Resolved captures calls p ∧ q.Begins p)} := by
    ext q
    exact and_congr_right fun hq => (or_iff_right hq).symm
  refine ⟨hset ▸ h.bijOn_levelAt label now, ?_, fun hq => h.levelAt_join (.inr hq.2), fun hq => ?_,
    fun hq => ?_⟩
  · rw [levelAt, placeFor?_empty, positionOf]
  · obtain ⟨n, hn, hl, -⟩ := h.exists_node label now hq.1 (.inr hq.2)
    exact ⟨n, hn, hl⟩
  · rw [h.levelAt_mem_positions_iff label now hq.1 (.inr hq.2)]
    exact kind_workAt_fresh id captures hf hn (h.named (.inr hq.2))

end Run

/-! ### Nested work -/

/-- The position of the nested segment that a call of a run started. -/
def nestedAt (t : Tree) (calls : List Call) (i : Nat) : List Nat :=
  match (t.answers calls)[i]? with
  | some (.handle (some h)) => (t.run calls).position h.place
  | _                       => []

/-- Work that a call started is at the position of its place. -/
theorem Starts.nestedAt_eq {t : Tree} {calls : List Call} {i : Nat} {label : String} {k : Nat}
    (h : t.Starts calls i label k) : t.nestedAt calls i = (t.run calls).position k := by
  rw [Tree.nestedAt, h.2]

/-- The finished tree has the nested work that was granted. -/
theorem hasNested_run (id : Nat) (captures : Bool) {calls : List Call}
    (hf : ∀ call ∈ calls, ¬ call.Finishes) (label : String) (now : Int) :
    ((run { id, capturesScalars := captures } calls).snapshot label now).HasNested
      { id, capturesScalars := captures } calls
      (nestedAt { id, capturesScalars := captures } calls) := by
  have h := (Sound.fresh id captures).run calls
  generalize hfresh : (⟨id, captures, false, none, []⟩ : Tree) = fresh at *
  -- A granted call is one that started work at a place, and the work is still there at the end.
  refine ⟨⟨?_, ?_, ?_⟩, ?_⟩
  · rintro i ⟨l, hi⟩
    obtain ⟨k, hk⟩ := (grantsNested_iff hf).mp hi
    obtain ⟨s, hs, hw, -⟩ := hk.nestedAt hf
    exact (h.mem_positions label now).mpr ⟨k, s, hs, hw, hk.nestedAt_eq⟩
  · rintro i ⟨l, hi⟩ j ⟨l', hj⟩ e
    obtain ⟨k, hk⟩ := (grantsNested_iff hf).mp hi
    obtain ⟨k', hk'⟩ := (grantsNested_iff hf).mp hj
    rw [hk.nestedAt_eq, hk'.nestedAt_eq] at e
    obtain rfl := h.position_injective (hk.nestedAt hf).lt (hk'.nestedAt hf).lt e
    exact hk.call_unique hf hk'
  · intro pos hpos
    obtain ⟨k, s, hs, hw, rfl⟩ := (h.mem_positions label now).mp hpos
    rcases (nestedAt_run hf).mp ⟨s, hs, hw, rfl⟩ with ⟨r, hr, -⟩ | ⟨i, hi⟩
    · rw [← hfresh] at hr
      simp at hr
    · exact ⟨i, ⟨s.label, (grantsNested_iff hf).mpr ⟨k, hi⟩⟩, hi.nestedAt_eq⟩
  · intro i l hi
    obtain ⟨k, hk⟩ := (grantsNested_iff hf).mp hi
    obtain ⟨s, hs, -, hl⟩ := hk.nestedAt hf
    refine ⟨_, hk.nestedAt_eq ▸ h.at?_position label now (hk.nestedAt hf).lt, ?_⟩
    rw [h.node_eq hs, hl]

/-! ### The whole tree -/

/-- **The contents of a finished tree.**  After a run of calls with named paths, `finish` returns a
tree whose resolver and synthetic segments stand for the beginnings of the resolved paths, and whose
other segments below the root are the nested work that was granted. -/
theorem contents_of_run (id : Nat) (captures : Bool) (calls : List Call) (label : String)
    (now : Int) (hf : ∀ call ∈ calls, ¬ call.Finishes) (hn : ∀ call ∈ calls, call.Named) :
    ∃ root levelAt nestedAt,
      ((run { id, capturesScalars := captures } calls).finish label now).answer = some root ∧
      root.label = label ∧ root.kind = .operation ∧
      root.HasLevels captures calls levelAt ∧
      root.HasNested { id, capturesScalars := captures } calls nestedAt ∧
      root.positions .operation = ∅ := by
  have hopen := (run_fixed { id, capturesScalars := captures } hf).2.2
  have h := (Sound.fresh id captures).run calls
  refine ⟨_, _, _, finish_answer hopen label now, rfl, rfl,
    hasLevels_run id captures hf hn label now, hasNested_run id captures hf label now, ?_⟩
  refine Set.eq_empty_of_forall_notMem fun pos hpos => ?_
  obtain ⟨k, s, -, hw, -⟩ := (h.mem_positions label now).mp hpos
  exact s.work.kind_ne_operation hw

/-- A run out of order: a level before the one above it, a leaf, nested work of a field that has no
segment and inside that work, and a resolution that is reported twice. -/
def libraryRun : List Call :=
  [.start ⟨[.key "library", .key "books"]⟩ false 20,
    .record ⟨[.key "library", .key "books", .index 0, .key "title"]⟩ true 30 35,
    .nested ⟨[.key "library", .key "books", .index 0, .key "author"]⟩ "fetch" 31,
    .nestedIn ⟨7, 4⟩ "retry" 33,
    .start ⟨[.key "library"]⟩ false 10,
    .close ⟨7, 5⟩ 36,
    .start ⟨[.key "library", .key "books"]⟩ false 40,
    .stop ⟨[.key "library", .key "books"]⟩ 50]

/-- What the run leaves: the list item was never resolved, and the work of the missing author hangs
below it. -/
def libraryRoot : Node :=
  ⟨"/library", .operation, some 50,
    [⟨"library", .resolver, none,
      [⟨"library.books", .resolver, some 10,
        [⟨"library.books.0", .synthetic, none,
          [⟨"library.books.0.title", .resolver, some 5, []⟩,
            ⟨"fetch", .nested, none, [⟨"retry", .nested, some 3, []⟩]⟩]⟩]⟩]⟩]⟩

/-- The run finishes as that tree, which has its levels and its nested work and nothing else. -/
theorem contents_of_libraryRun :
    (∀ call ∈ libraryRun, ¬ call.Finishes) ∧ (∀ call ∈ libraryRun, call.Named) ∧
      ((run { id := 7, capturesScalars := true } libraryRun).finish "/library" 60).answer
        = some libraryRoot ∧
      ∃ levelAt nestedAt,
        libraryRoot.HasLevels true libraryRun levelAt ∧
        libraryRoot.HasNested { id := 7, capturesScalars := true } libraryRun nestedAt ∧
        libraryRoot.positions .operation = ∅ := by
  have hf : ∀ call ∈ libraryRun, ¬ call.Finishes := by decide
  have hn : ∀ call ∈ libraryRun, call.Named := by decide
  obtain ⟨root, levelAt, nestedAt, hroot, -, -, hlevels, hnested, hrest⟩ :=
    contents_of_run 7 true libraryRun "/library" 60 hf hn
  have hfinished : ((run { id := 7, capturesScalars := true } libraryRun).finish "/library"
      60).answer = some libraryRoot := by decide +kernel
  obtain rfl := Option.some.inj (hroot.symm.trans hfinished)
  exact ⟨hf, hn, hfinished, levelAt, nestedAt, hlevels, hnested, hrest⟩

end Tree

end GraphTrace.Segment
