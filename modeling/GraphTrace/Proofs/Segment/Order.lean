import GraphTrace.Proofs.Segment.Contents
import Mathlib.Data.List.Forall2
import Mathlib.Data.List.Nodup

/-!
# The order in which resolutions are recorded

A tree that records resolutions of different paths does not show in which order they came
(`finish_perm`): the finished trees of two orders have the same segments with the same durations,
each below the same segment, and only the children of a node may stand in another order
(`Node.Reordered`).

The places of the segments do depend on the order, and so does what a place holds on the way.  Three
things do not: the paths that are shown (`shows_recording`), the work at a text
(`workAt_recording_perm`), and the earliest start (`started_recording`).  The finished tree depends
on nothing else, up to the order of children (`Shows.snapshot_reordered`).
-/

namespace GraphTrace.Segment

open Response (Path Element)

/-- Two finished trees that differ in nothing but the order of the children of their nodes. -/
inductive Node.Reordered : Node → Node → Prop where
  | node {label : String} {kind : Kind} {duration : Option Nat}
      {children moved children' : List Node} (order : children.Perm moved)
      (each : List.Forall₂ Reordered moved children') :
      Reordered ⟨label, kind, duration, children⟩ ⟨label, kind, duration, children'⟩

/-- A resolution whose start and end are both known. -/
structure Resolution where
  path : Path
  leaf : Bool
  start : Int
  stop : Int

namespace Resolution

/-- The call that records a resolution. -/
def call (r : Resolution) : Call := .record r.path r.leaf r.start r.stop

/-- Whether a tree with this flag records the resolution. -/
def Counts (captures : Bool) (r : Resolution) : Prop :=
  r.path ≠ .empty ∧ (r.leaf = false ∨ captures = true)

instance (captures : Bool) : DecidablePred (Counts captures) := fun r =>
  inferInstanceAs (Decidable (r.path ≠ .empty ∧ (r.leaf = false ∨ captures = true)))

theorem not_finishes (r : Resolution) : ¬ r.call.Finishes := fun h => h

theorem forall_not_finishes (events : List Resolution) :
    ∀ c ∈ events.map call, ¬ c.Finishes := by
  simp [not_finishes]

/-- The work of a resolution, once it is recorded. -/
def work (r : Resolution) : Work := .resolver ⟨r.start, some (Clock.span r.start r.stop)⟩

end Resolution

/-- When the first of the resolutions that count started. -/
def earliest (captures : Bool) (events : List Resolution) : Option Int :=
  ((events.filter (·.Counts captures)).map (·.start)).min?

/-- The earliest start does not depend on the order. -/
theorem earliest_perm (captures : Bool) {events events' : List Resolution}
    (h : events.Perm events') : earliest captures events = earliest captures events' := by
  have hp := (h.filter (·.Counts captures)).map (·.start)
  ext now
  simp only [earliest, List.min?_eq_some_iff, hp.mem_iff]

namespace Tree

/-! ### Trees with the same levels -/

/-- Whether all segments of a tree are levels. -/
def OnlyLevels (t : Tree) : Prop := ∀ s ∈ t.segments, s.work.kind ≠ .nested

/-- The place in `t` of the level that stands at a place in `u`. -/
def counterpart (t u : Tree) (k : Nat) : Nat := (u.segments[k]?.bind (t.place? ·.label)).getD 0

namespace Shows

variable {t u : Tree} {shown : Path → Prop}

/-- Directly below the level of a path stand the levels of the paths one step deeper. -/
theorem mem_placesBelow_iff (h : t.Shows shown) (ho : t.OnlyLevels) {p : Path} (hp : shown p)
    {k : Nat} : k ∈ t.placesBelow (t.placeFor? p) ↔
      ∃ e, shown (p.join e) ∧ t.placeFor? (p.join e) = some k := by
  rw [mem_placesBelow]
  constructor
  · rintro ⟨hk, hpar⟩
    obtain ⟨q, hne, hq, hat⟩ : ∃ q, q ≠ .empty ∧ shown q ∧ t.placeFor? q = some k := by
      have hl : t.segments[k].isLevel t.segments[k].label :=
        Entry.isLevel_iff.mpr ⟨ho _ (List.getElem_mem hk), rfl⟩
      obtain ⟨q, hne, hq, e⟩ := h.covers (List.getElem_mem hk) hl
      refine ⟨q, hne, hq, (placeFor?_of_ne hne).trans ?_⟩
      exact h.sound.place?_eq_some_iff.mpr ⟨_, List.getElem?_eq_getElem hk, e ▸ hl⟩
    obtain rfl | ⟨r, e, rfl⟩ := q.eq_empty_or_join
    · exact absurd rfl hne
    · obtain ⟨k', s, hk', hs, habove⟩ := h.place_of_join hq
      obtain rfl := Option.some.inj (hat.symm.trans hk')
      rw [parent?, hs, Option.bind_some, habove] at hpar
      obtain rfl := h.placeFor?_injective (h.above hq) hp hpar
      exact ⟨e, hq, hat⟩
  · rintro ⟨e, hs, hk⟩
    obtain ⟨k', s, hk', hks, hpar⟩ := h.place_of_join hs
    obtain rfl := Option.some.inj (hk.symm.trans hk')
    exact ⟨(List.getElem?_eq_some_iff.mp hks).1, by rw [parent?, hks, Option.bind_some, hpar]⟩

/-- The level of a path stands in `t` at the counterpart of its place in `u`. -/
theorem placeFor?_counterpart (h : t.Shows shown) (h' : u.Shows shown) {p : Path} {e : Element}
    (hs : shown (p.join e)) {k : Nat} (hk : u.placeFor? (p.join e) = some k) :
    t.placeFor? (p.join e) = some (t.counterpart u k) := by
  obtain ⟨k', s, hk', hks, hl⟩ : ∃ k' s, u.placeFor? (p.join e) = some k' ∧
      u.segments[k']? = some s ∧ s.label = (p.join e).text := by
    obtain ⟨k', s, hk', hks, -, hl⟩ := h'.exists_level (p.join_ne_empty e) hs
    exact ⟨k', s, hk', hks, hl⟩
  obtain rfl := Option.some.inj (hk.symm.trans hk')
  obtain ⟨j, hj⟩ := h.exists_place (p.join_ne_empty e) hs
  rw [placeFor?_join, counterpart, hks, Option.bind_some, hl, hj, Option.getD_some]

section Two

variable (h : t.Shows shown) (ho : t.OnlyLevels) (h' : u.Shows shown) (ho' : u.OnlyLevels)
include h ho h' ho'

/-- Below the level of a path, two trees that show the same have the same levels in some order. -/
theorem placesBelow_perm {p : Path} (hp : shown p) : (t.placesBelow (t.placeFor? p)).Perm
    ((u.placesBelow (u.placeFor? p)).map (t.counterpart u)) := by
  -- Two places with one counterpart are those of one path, so the counterparts do not repeat.
  have hinj : ∀ j ∈ u.placesBelow (u.placeFor? p), ∀ k ∈ u.placesBelow (u.placeFor? p),
      t.counterpart u j = t.counterpart u k → j = k := by
    intro j hj k hk e
    obtain ⟨f, hf, hfj⟩ := (h'.mem_placesBelow_iff ho' hp).mp hj
    obtain ⟨g, hg, hgk⟩ := (h'.mem_placesBelow_iff ho' hp).mp hk
    have hfg : t.placeFor? (p.join f) = t.placeFor? (p.join g) := by
      rw [h.placeFor?_counterpart h' hf hfj, h.placeFor?_counterpart h' hg hgk, e]
    rw [h.placeFor?_injective hf hg hfg, hgk] at hfj
    exact (Option.some.inj hfj).symm
  refine (List.perm_ext_iff_of_nodup (t.nodup_placesBelow _)
    ((u.nodup_placesBelow _).map_on hinj)).mpr fun j => ?_
  rw [h.mem_placesBelow_iff ho hp, List.mem_map]
  constructor
  · rintro ⟨e, hs, hj⟩
    obtain ⟨k, hk⟩ := h'.exists_place (p.join_ne_empty e) hs
    rw [← placeFor?_join] at hk
    refine ⟨k, (h'.mem_placesBelow_iff ho' hp).mpr ⟨e, hs, hk⟩, ?_⟩
    exact Option.some.inj ((h.placeFor?_counterpart h' hs hk).symm.trans hj)
  · rintro ⟨k, hk, rfl⟩
    obtain ⟨e, hs, hk⟩ := (h'.mem_placesBelow_iff ho' hp).mp hk
    exact ⟨e, hs, h.placeFor?_counterpart h' hs hk⟩

/-- The nodes below the level of a path are reordered if those of the paths one step deeper are. -/
theorem below_reordered {p : Path} (hp : shown p)
    (hbelow : ∀ e, shown (p.join e) → ∀ j k, t.placeFor? (p.join e) = some j →
      u.placeFor? (p.join e) = some k → (t.node j).Reordered (u.node k)) :
    ∃ moved, ((t.placesBelow (t.placeFor? p)).map t.node).Perm moved ∧
      List.Forall₂ Node.Reordered moved ((u.placesBelow (u.placeFor? p)).map u.node) := by
  refine ⟨_, (h.placesBelow_perm ho h' ho' hp).map t.node, ?_⟩
  rw [List.map_map, List.forall₂_map_left_iff, List.forall₂_map_right_iff, List.forall₂_same]
  intro k hk
  obtain ⟨e, hs, hk⟩ := (h'.mem_placesBelow_iff ho' hp).mp hk
  exact hbelow e hs _ k (h.placeFor?_counterpart h' hs hk) hk

/-- **Levels with the same work finish as the same nodes**, up to the order of children. -/
theorem node_reordered (hw : ∀ text, t.workAt text = u.workAt text) {p : Path} {e : Element}
    (hs : shown (p.join e)) {j k : Nat} (hj : t.placeFor? (p.join e) = some j)
    (hk : u.placeFor? (p.join e) = some k) : (t.node j).Reordered (u.node k) := by
  -- The children of a segment come after it, so there are fewer segments from their places on.
  induction hn : t.segments.length - j using Nat.strongRecOn generalizing p e j k with
  | ind n ih =>
      obtain ⟨j', r, hj', hr, -, hlr⟩ := h.exists_level (p.join_ne_empty e) hs
      obtain ⟨k', s, hk', hks, -, hls⟩ := h'.exists_level (p.join_ne_empty e) hs
      obtain rfl := Option.some.inj (hj.symm.trans hj')
      obtain rfl := Option.some.inj (hk.symm.trans hk')
      have hwork : r.work = s.work := by
        rw [← workAt_eq ((t.placeFor?_join p e).symm.trans hj) hr,
          ← workAt_eq ((u.placeFor?_join p e).symm.trans hk) hks, hw]
      obtain ⟨moved, hperm, hall⟩ := h.below_reordered ho h' ho' hs fun f hf c d hc hd => by
        have hbelow := mem_placesBelow.mp ((h.mem_placesBelow_iff ho hs).mpr ⟨f, hf, hc⟩)
        have hlt := h.sound.parent?_lt (hbelow.2.trans hj)
        exact ih _ (by omega) hf hc hd rfl
      rw [hj] at hperm
      rw [hk] at hall
      rw [h.sound.node_eq hr, h'.sound.node_eq hks, hlr, hls, hwork]
      exact .node hperm hall

/-- **The finished tree depends on the levels, their work and the earliest start**, up to the order
of children. -/
theorem snapshot_reordered (hw : ∀ text, t.workAt text = u.workAt text)
    (hs : t.started = u.started) (label : String) (now : Int) :
    (t.snapshot label now).Reordered (u.snapshot label now) := by
  obtain ⟨moved, hperm, hall⟩ := h.below_reordered ho h' ho' h.root fun e he j k hj hk =>
    h.node_reordered ho h' ho' hw he hj hk
  rw [placeFor?_empty] at hperm hall
  rw [h.sound.snapshot_eq, h'.sound.snapshot_eq, hs]
  exact .node hperm hall

end Two

end Shows

/-! ### What recorded resolutions leave -/

/-- Recording a resolution resolves and ends its own level, if the resolution counts. -/
theorem apply_call {t : Tree} (hc : t.closed = false) (r : Resolution) :
    r.Counts t.capturesScalars ∧ (t.apply r.call).tree
        = (t.resolving r.path.levels.dropLast r.path.text r.start).2.modify
            (t.resolving r.path.levels.dropLast r.path.text r.start).1 (.ended r.stop) ∨
      ¬ r.Counts t.capturesScalars ∧ (t.apply r.call).tree = t := by
  by_cases h : r.Counts t.capturesScalars
  · exact .inl ⟨h, (record_of_accepts hc h r.start r.stop).1⟩
  · exact .inr ⟨h, (record_of_not_accepts h r.start r.stop).1⟩

/-- A resolution starts the root if it is the earliest one that counts. -/
theorem started_call {t : Tree} (hc : t.closed = false) (r : Resolution) :
    (t.apply r.call).tree.started = if r.Counts t.capturesScalars
      then some (t.started.elim r.start (min r.start)) else t.started := by
  rcases apply_call hc r with ⟨h, e⟩ | ⟨h, e⟩
  · rw [e, if_pos h]
    exact t.started_resolving _ _ _
  · rw [e, if_neg h]

/-- A resolution is recorded at its own text if it counts. -/
theorem workAt_call {t : Tree} (hc : t.closed = false) (r : Resolution) (text : String) :
    (t.apply r.call).tree.workAt text
      = if r.Counts t.capturesScalars ∧ r.path.text = text then r.work else t.workAt text := by
  rcases apply_call hc r with ⟨h, e⟩ | ⟨h, e⟩
  · rw [e, workAt_modify _ _ (Work.keepsNested_ended r.stop), workAt_resolving]
    by_cases ht : r.path.text = text
    · subst ht
      rw [if_pos (t.place?_resolving _ _ _), if_pos rfl, if_pos ⟨h, rfl⟩,
        Work.ended_resolving (t.kind_workAt_ne_nested _)]
      rfl
    · rw [if_neg fun hp => ht (place?_inj (t.place?_resolving _ _ _) hp), if_neg (Ne.symm ht),
        if_neg fun hr => ht hr.2]
  · rw [e, if_neg fun hr => h hr.1]

/-- A run records no work at a text that none of its resolutions has. -/
theorem workAt_others {t : Tree} (hc : t.closed = false) {events : List Resolution} {text : String}
    (h : ∀ r ∈ events, r.Counts t.capturesScalars → r.path.text ≠ text) :
    (t.run (events.map Resolution.call)).workAt text = t.workAt text := by
  induction events generalizing t with
  | nil => rfl
  | cons r rest ih =>
      obtain ⟨-, hcap, hcl⟩ := t.apply_fixed r.not_finishes
      rw [List.map_cons, run_cons, ih (hcl.trans hc) fun s hs => hcap ▸ h s (by simp [hs]),
        workAt_call hc, if_neg fun hr => h r (by simp) hr.1 hr.2]

/-- **A run leaves the work of a resolution at its text**, where no other resolution has it. -/
theorem workAt_run {t : Tree} (hc : t.closed = false) {events : List Resolution}
    (hd : (events.map (·.path.text)).Nodup) {r : Resolution} (hr : r ∈ events)
    (hcount : r.Counts t.capturesScalars) :
    (t.run (events.map Resolution.call)).workAt r.path.text = r.work := by
  induction events generalizing t with
  | nil => contradiction
  | cons s rest ih =>
      obtain ⟨-, hcap, hcl⟩ := t.apply_fixed s.not_finishes
      rw [List.map_cons, List.nodup_cons, List.mem_map] at hd
      rw [List.map_cons, run_cons]
      rcases List.mem_cons.mp hr with rfl | hr
      · rw [workAt_others (hcl.trans hc) fun s hs _ e => hd.1 ⟨s, hs, e⟩, workAt_call hc,
          if_pos ⟨hcount, rfl⟩]
      · exact ih (hcl.trans hc) hd.2 hr (hcap ▸ hcount)

/-- **A run moves the start of the root to its earliest resolution.** -/
theorem started_run {t : Tree} (hc : t.closed = false) (events : List Resolution) :
    (t.run (events.map Resolution.call)).started
      = (t.started.toList
          ++ (events.filter (·.Counts t.capturesScalars)).map (·.start)).min? := by
  induction events generalizing t with
  | nil => cases h : t.started <;> simp [run_nil, h]
  | cons r rest ih =>
      obtain ⟨-, hcap, hcl⟩ := t.apply_fixed r.not_finishes
      rw [List.map_cons, run_cons, ih (hcl.trans hc), hcap, started_call hc]
      by_cases h : r.Counts t.capturesScalars
      · rw [if_pos h, List.filter_cons_of_pos (by simpa using h)]
        cases t.started with
        | none => rfl
        | some now =>
            simp only [Option.elim_some, Option.toList_some, List.singleton_append, List.map_cons,
              List.min?_cons', List.foldl_cons, min_comm r.start]
      · rw [if_neg h, List.filter_cons_of_neg (by simpa using h)]

/-! ### A fresh tree that records resolutions -/

/-- A fresh tree after some resolutions were recorded, in order. -/
def recording (id : Nat) (captures : Bool) (events : List Resolution) : Tree :=
  run { id, capturesScalars := captures } (events.map Resolution.call)

section Recording

variable (id : Nat) (captures : Bool) {events : List Resolution}

theorem closed_recording : (recording id captures events).closed = false :=
  (run_fixed _ (Resolution.forall_not_finishes events)).2.2

/-- The root starts with the earliest resolution that counts. -/
theorem started_recording : (recording id captures events).started = earliest captures events :=
  started_run (t := { id, capturesScalars := captures }) rfl events

/-- Nothing is nested where only resolutions are recorded. -/
theorem onlyLevels_recording : (recording id captures events).OnlyLevels := by
  intro s hs hn
  obtain ⟨k, hk⟩ := List.getElem?_of_mem hs
  rcases (nestedAt_run (Resolution.forall_not_finishes events)).mp ⟨s, hk, hn, rfl⟩ with
    ⟨r, hr, -⟩ | ⟨i, hi, -⟩
  · simp at hr
  · simp only [List.getElem?_map, Option.bind_eq_some_iff, Option.map_eq_some_iff] at hi
    obtain ⟨_, ⟨r, -, rfl⟩, hr⟩ := hi
    contradiction

variable (hn : ∀ r ∈ events, r.path.Named)
include hn

/-- A recording shows the beginnings of the paths that count. -/
theorem shows_recording : (recording id captures events).Shows
    (fun q => q = .empty ∨ ∃ r ∈ events, r.Counts captures ∧ q.Begins r.path) := by
  have hnamed : ∀ call ∈ events.map Resolution.call, call.Named := by
    intro call hm p hp
    obtain ⟨r, hr, rfl⟩ := List.mem_map.mp hm
    exact Option.some.inj hp ▸ hn r hr
  refine (shows_run id captures (Resolution.forall_not_finishes events) hnamed).congr fun q =>
    or_congr_right ?_
  constructor
  · rintro ⟨p, ⟨_, hm, hp⟩, hq⟩
    obtain ⟨r, hr, rfl⟩ := List.mem_map.mp hm
    obtain ⟨rfl, hcount⟩ := hp
    exact ⟨r, hr, hcount, hq⟩
  · rintro ⟨r, hr, hcount, hq⟩
    exact ⟨r.path, ⟨r.call, List.mem_map_of_mem hr, rfl, hcount⟩, hq⟩

variable (hd : (events.map (·.path)).Nodup)
include hd

omit id captures in
/-- Different named paths have different texts. -/
theorem nodup_texts : (events.map (·.path.text)).Nodup := by
  rw [show (fun r : Resolution => r.path.text) = Path.text ∘ (·.path) from rfl, ← List.map_map]
  refine hd.map_on fun p hp q hq e => ?_
  obtain ⟨r, hr, rfl⟩ := List.mem_map.mp hp
  obtain ⟨s, hs, rfl⟩ := List.mem_map.mp hq
  exact Response.Path.text_injective (hn r hr) (hn s hs) e

/-- A resolution that counts is a resolver of the finished tree, with its own duration. -/
theorem exists_node_recording (label : String) (now : Int) {r : Resolution} (hr : r ∈ events)
    (hcount : r.Counts captures) :
    ∃ pos n, ((recording id captures events).snapshot label now).at? pos = some n ∧
      n.label = r.path.text ∧ n.kind = .resolver ∧
      n.duration = some (r.stop - r.start).toNat := by
  obtain ⟨n, hn', hl, hk, hdur⟩ := (shows_recording id captures hn).exists_node label now hcount.1
    (.inr ⟨r, hr, hcount, .refl r.path⟩)
  have hw : (recording id captures events).workAt r.path.text = r.work :=
    workAt_run rfl (nodup_texts hn hd) hr hcount
  rw [hw] at hk hdur
  exact ⟨_, n, hn', hl, hk, hdur⟩

/-- **Two orders leave the same work at every text.** -/
theorem workAt_recording_perm (id' : Nat) {events' : List Resolution} (hp : events'.Perm events)
    (text : String) :
    (recording id captures events).workAt text = (recording id' captures events').workAt text := by
  have htexts := nodup_texts hn hd
  -- Either one of the resolutions has this text, or nothing is recorded there in any order.
  by_cases h : ∃ r ∈ events, r.Counts captures ∧ r.path.text = text
  · obtain ⟨r, hr, hcount, rfl⟩ := h
    rw [recording, recording, workAt_run rfl htexts hr hcount,
      workAt_run rfl ((hp.map _).nodup_iff.mpr htexts) (hp.mem_iff.mpr hr) hcount]
  · have hno : ∀ r ∈ events, r.Counts captures → r.path.text ≠ text :=
      fun r hr hcount e => h ⟨r, hr, hcount, e⟩
    rw [recording, recording, workAt_others rfl hno,
      workAt_others rfl fun r hr => hno r (hp.mem_iff.mp hr)]
    rfl

end Recording

/-- **The order of resolutions does not matter.**  Recorded in two orders, resolutions of different
named paths give finished trees that differ in the order of children alone.  The root spans from the
earliest of them, and each one that counts is a resolver with its own duration. -/
theorem finish_perm (id id' : Nat) (captures : Bool) (events events' : List Resolution)
    (hn : ∀ r ∈ events, r.path.Named) (hd : (events.map (·.path)).Nodup)
    (hp : events'.Perm events) (label : String) (now : Int) :
    ∃ root root',
      ((recording id captures events).finish label now).answer = some root ∧
      ((recording id' captures events').finish label now).answer = some root' ∧
      root.Reordered root' ∧
      root.duration = (earliest captures events).map (fun first => (now - first).toNat) ∧
      ∀ r ∈ events, r.Counts captures → ∃ pos n, root.at? pos = some n ∧
        n.label = r.path.text ∧ n.kind = .resolver ∧
        n.duration = some (r.stop - r.start).toNat := by
  have h := shows_recording id captures hn
  have h' : (recording id' captures events').Shows
      (fun q => q = .empty ∨ ∃ r ∈ events, r.Counts captures ∧ q.Begins r.path) :=
    (shows_recording id' captures fun r hr => hn r (hp.mem_iff.mp hr)).congr fun q => by
      simp only [hp.mem_iff]
  have hstart : (recording id captures events).started
      = (recording id' captures events').started := by
    rw [started_recording, started_recording, earliest_perm captures hp]
  refine ⟨_, _, finish_answer (closed_recording id captures) label now,
    finish_answer (closed_recording id' captures) label now, ?_,
    congrArg (Option.map _) (started_recording id captures), fun r hr hcount =>
      exists_node_recording id captures hn hd label now hr hcount⟩
  exact h.snapshot_reordered (onlyLevels_recording id captures) h'
    (onlyLevels_recording id' captures) (workAt_recording_perm id captures hn hd id' hp) hstart
    label now

/-- A title before the list it is in, a field beside that list, and the field above both last. -/
def library : List Resolution :=
  [⟨⟨[.key "library", .key "books", .index 0, .key "title"]⟩, true, 30, 35⟩,
    ⟨⟨[.key "library", .key "books"]⟩, false, 20, 50⟩,
    ⟨⟨[.key "library", .key "address"]⟩, false, 21, 22⟩, ⟨⟨[.key "library"]⟩, false, 10, 60⟩]

/-- The list of books, with its one title. -/
def booksNode : Node :=
  ⟨"library.books", .resolver, some 30,
    [⟨"library.books.0", .synthetic, none, [⟨"library.books.0.title", .resolver, some 5, []⟩]⟩]⟩

/-- The field beside the list. -/
def addressNode : Node := ⟨"library.address", .resolver, some 1, []⟩

/-- The finished tree, with the two fields of the library in some order. -/
def libraryNode (fields : List Node) : Node :=
  ⟨"/library", .operation, some 60, [⟨"library", .resolver, some 50, fields⟩]⟩

/-- Two orders of the same resolutions finish as trees that differ in the order of the segments
alone. -/
theorem finish_library_perm :
    (∀ r ∈ library, r.path.Named) ∧ (library.map (·.path)).Nodup ∧
      library.reverse.Perm library ∧
      ((recording 1 true library).finish "/library" 70).answer
        = some (libraryNode [booksNode, addressNode]) ∧
      ((recording 2 true library.reverse).finish "/library" 70).answer
        = some (libraryNode [addressNode, booksNode]) ∧
      (libraryNode [booksNode, addressNode]).Reordered (libraryNode [addressNode, booksNode]) ∧
      ∀ r ∈ library, r.Counts true →
        ∃ pos n, (libraryNode [booksNode, addressNode]).at? pos = some n ∧
          n.label = r.path.text ∧ n.kind = .resolver ∧
          n.duration = some (r.stop - r.start).toNat := by
  have hn : ∀ r ∈ library, r.path.Named := by decide
  have hd : (library.map (·.path)).Nodup := by decide
  have hp : library.reverse.Perm library := List.reverse_perm library
  obtain ⟨root, root', hroot, hroot', hsame, -, hnodes⟩ :=
    finish_perm 1 2 true library library.reverse hn hd hp "/library" 70
  have hfinished : ((recording 1 true library).finish "/library" 70).answer
      = some (libraryNode [booksNode, addressNode]) := by decide +kernel
  have hfinished' : ((recording 2 true library.reverse).finish "/library" 70).answer
      = some (libraryNode [addressNode, booksNode]) := by decide +kernel
  obtain rfl := Option.some.inj (hroot.symm.trans hfinished)
  obtain rfl := Option.some.inj (hroot'.symm.trans hfinished')
  exact ⟨hn, hd, hp, hfinished, hfinished', hsame, hnodes⟩

end Tree

end GraphTrace.Segment
