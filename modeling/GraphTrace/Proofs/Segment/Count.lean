import GraphTrace.Proofs.Segment.History
import GraphTrace.Proofs.Segment.Position

/-!
# How many segments there are

A finished tree has one node for the root and one for each segment (`count_snapshot`), and a segment
is either a level or nested work (`length_segments`).  The levels are counted by their texts, which
are all different in a sound tree (`Sound.nodup_keys`, `Sound.labelsLevels`), and the nested work by
the calls that were given a handle on it (`nestedCount_apply`).
-/

namespace GraphTrace.Segment

/-- The handle that a call was given, if it was given one. -/
def Answer.handle? : Answer → Option Handle
  | .handle h => h
  | _         => none

/-! ### Counting nodes -/

namespace Node

theorem countAll_append (ns ms : List Node) : countAll (ns ++ ms) = countAll ns + countAll ms := by
  induction ns with
  | nil => exact (Nat.zero_add _).symm
  | cons n rest ih => rw [List.cons_append, countAll, ih, countAll, Nat.add_assoc]

/-- The order of segments does not count. -/
theorem countAll_perm {ns ms : List Node} (h : ns.Perm ms) : countAll ns = countAll ms := by
  induction h with
  | nil => rfl
  | cons n _ ih => rw [countAll, ih, countAll]
  | swap n m rest => simp only [countAll, Nat.add_left_comm]
  | trans _ _ ih ih' => exact ih.trans ih'

/-- Whether a node stands for a level of the response. -/
def IsLevel (n : Node) : Prop := n.kind = .resolver ∨ n.kind = .synthetic

/-- Whether a level is told by its label: no two levels below a root have the same one. -/
def LabelsLevels (root : Node) : Prop :=
  ∀ {p q : List Nat} {n m : Node}, root.at? p = some n → root.at? q = some m →
    n.IsLevel → m.IsLevel → n.label = m.label → p = q

end Node

namespace Tree

/-- Assembling loses no segment and doubles none. -/
theorem countAll_assemble (i : Nat) (segments : List Entry) :
    Node.countAll ((assemble i segments).map (·.2)) = segments.length := by
  induction segments generalizing i with
  | nil => rfl
  | cons s rest ih =>
      -- Of the segments further on, some go below `s` and the others stay beside it.
      have hsplit := Node.countAll_perm
        ((List.filter_append_perm (·.1 == some i) (assemble (i + 1) rest)).map (·.2))
      rw [List.map_append, Node.countAll_append, ih] at hsplit
      rw [assemble, List.map_cons, Node.countAll, Node.count, List.length_cons, ← hsplit]
      simp only [bne]
      omega

/-- The finished tree has the root and every segment. -/
theorem count_snapshot (t : Tree) (label : String) (now : Int) :
    (t.snapshot label now).count = 1 + t.segments.length := by
  rw [snapshot, Node.count, countAll_assemble]

/-! ### Levels and nested work -/

/-- The texts of the levels, in the order in which they were created. -/
def keys (t : Tree) : List String :=
  (t.segments.filter (·.work.kind != .nested)).map (·.label)

/-- How many segments are nested work. -/
def nestedCount (t : Tree) : Nat := t.segments.countP (·.work.kind == .nested)

/-- A segment is a level or nested work. -/
theorem length_segments (t : Tree) : t.segments.length = t.keys.length + t.nestedCount := by
  have h := List.length_eq_countP_add_countP (·.work.kind == .nested) (l := t.segments)
  rw [keys, List.length_map, nestedCount, ← List.countP_eq_length_filter, Nat.add_comm, h]
  congr 2
  funext s
  cases s.work <;> rfl

/-- A new level brings its text, and nested work brings none. -/
theorem keys_push (t : Tree) (s : Entry) :
    (t.push s).keys = t.keys ++ if s.work.kind = .nested then [] else [s.label] := by
  rw [keys, push, List.filter_append, List.map_append, keys]
  cases hw : s.work <;> simp [hw, Work.kind]

theorem keys_eq_filterMap (t : Tree) :
    t.keys = t.segments.filterMap fun s =>
      if s.work.kind = .nested then none else some s.label := by
  rw [keys, ← List.filterMap_eq_map, List.filterMap_filter]
  refine congrArg (List.filterMap · _) (funext fun s => ?_)
  cases s.work <;> simp [Work.kind]

theorem keys_modify (t : Tree) (place : Nat) {f : Work → Work} (hf : Work.KeepsNested f) :
    (t.modify place f).keys = t.keys := by
  have hkey : ∀ s : Entry,
      (if (f s.work).kind = .nested then none else some s.label)
        = if s.work.kind = .nested then none else some s.label := fun s => by
    simp only [show _ ↔ _ from hf s.work]
  have hsame := congrArg (List.filterMap fun key => key) (map_segments_modify (f := f)
    (g := fun s => if s.work.kind = .nested then none else some s.label) hkey t place)
  rw [List.filterMap_map, List.filterMap_map] at hsame
  rw [keys_eq_filterMap, keys_eq_filterMap]
  exact hsame

/-- **No two levels have one text.** -/
theorem Sound.nodup_keys {t : Tree} (h : t.Sound) : t.keys.Nodup := by
  rw [keys, List.Nodup, List.pairwise_map, List.pairwise_filter, List.pairwise_iff_getElem]
  intro i j hi hj hlt hli hlj e
  have hij := h.level_unique (List.getElem?_eq_getElem hi) (List.getElem?_eq_getElem hj)
    (Entry.isLevel_iff.mpr ⟨by simpa using hli, rfl⟩)
    (Entry.isLevel_iff.mpr ⟨by simpa using hlj, e.symm⟩)
  omega

theorem nestedCount_modify (t : Tree) (place : Nat) {f : Work → Work} (hf : Work.KeepsNested f) :
    (t.modify place f).nestedCount = t.nestedCount := by
  have hkind : ∀ s : Entry, (({ s with work := f s.work } : Entry).work.kind == .nested)
      = (s.work.kind == .nested) := fun s => by
    rw [Bool.eq_iff_iff, beq_iff_eq, beq_iff_eq, hf]
  have hsame := congrArg (List.countP fun nested => nested)
    (map_segments_modify (g := (·.work.kind == .nested)) hkind t place)
  rwa [List.countP_map, List.countP_map] at hsame

/-- A chain of changes starts no nested work. -/
theorem Changes.nestedCount_eq {t u : Tree} (c : Changes t u) : u.nestedCount = t.nestedCount := by
  refine c.keeps (P := fun u => u.nestedCount = t.nestedCount) (fun u v c h => ?_) rfl
  rw [← h]
  cases c with
  | note now => rfl
  | level hp ht => simp [nestedCount, push, Work.kind]
  | resolve place now => exact nestedCount_modify _ _ (Work.keepsNested_resolving now)
  | stop place now => exact nestedCount_modify _ _ (Work.keepsNested_ended now)

theorem nestedCount_startNested (t : Tree) (parent : Option Nat) (label : String) (now : Int) :
    (t.startNested parent label now).tree.nestedCount = t.nestedCount + 1 := by
  simp [nestedCount, startNested, push, noteStart, Work.kind]

/-- **A call starts nested work** when it asks for it and is given a handle. -/
theorem nestedCount_apply (t : Tree) (call : Call) : (t.apply call).tree.nestedCount
    = (if call.nestedLabel?.isSome && (t.apply call).answer.handle?.isSome then 1 else 0)
      + t.nestedCount := by
  by_cases hf : call.Finishes
  · cases call with
    | finish label now =>
        rw [show (t.apply (.finish label now)).tree = _ from t.finish_tree label now]
        exact (Nat.zero_add _).symm
    | _ => exact hf.elim
  · cases hn : call.nestedLabel? with
    | none => rw [(apply_changes t hf hn).nestedCount_eq]; simp
    | some label =>
        rcases t.apply_nested hn with ⟨e, ha⟩ | ⟨parent, now, -, e, ha⟩
        · rw [e, ha]; simp [Answer.handle?]
        · rw [e, ha, nestedCount_startNested, Nat.add_comm]; simp [Answer.handle?]

/-! ### Handles -/

/-- No call changes the number of a tree. -/
theorem id_apply (t : Tree) (call : Call) : (t.apply call).tree.id = t.id := by
  by_cases hf : call.Finishes
  · cases call with
    | finish label now =>
        rw [show (t.apply (.finish label now)).tree = _ from t.finish_tree label now]
    | _ => exact hf.elim
  · exact (t.apply_fixed hf).1

/-- A chain of changes loses no segment. -/
theorem Changes.length_le {t u : Tree} (c : Changes t u) :
    t.segments.length ≤ u.segments.length := by
  refine c.keeps (P := fun u => t.segments.length ≤ u.segments.length) (fun u v c h => ?_)
    (Nat.le_refl _)
  cases c with
  | note now => exact h
  | level hp ht => exact Nat.le_trans h (by simp [push])
  | resolve place now | stop place now => exact Nat.le_trans h (by simp [modify])

/-- A resolution is given the handle on its own level. -/
theorem handle_of_start {t : Tree} {path : Response.Path} {leaf : Bool} {now : Int} {h : Handle}
    (ha : (t.start path leaf now).answer = some h) :
    h.tree = t.id ∧ h.place < (t.start path leaf now).tree.segments.length := by
  revert ha
  unfold start
  split
  · intro ha
    contradiction
  · split
    · intro ha
      contradiction
    · split
      · intro ha
        contradiction
      · intro ha
        obtain rfl := Option.some.inj ha
        exact ⟨rfl, place?_lt (place?_resolving t _ _ now)⟩

/-- Nested work is given the handle on the new place. -/
theorem handle_of_nested {t : Tree} {call : Call} {label : String} {h : Handle}
    (hn : call.nestedLabel? = some label) (ha : (t.apply call).answer.handle? = some h) :
    h.tree = t.id ∧ h.place < (t.apply call).tree.segments.length := by
  rcases t.apply_nested hn with ⟨-, e⟩ | ⟨parent, now, -, e, e'⟩
  · rw [e] at ha
    contradiction
  · rw [e'] at ha
    obtain rfl := Option.some.inj ha
    rw [e]
    exact ⟨rfl, by simp [startNested, push, noteStart, handle]⟩

/-- **A handle is one on a segment** of the tree that answered with it. -/
theorem handle_of_apply {t : Tree} {call : Call} {h : Handle}
    (ha : (t.apply call).answer.handle? = some h) :
    h.tree = t.id ∧ h.place < (t.apply call).tree.segments.length := by
  cases call with
  | start path leaf now => exact handle_of_start ha
  | record path leaf start stop =>
      have hrecord : (t.record path leaf start stop).answer = some h := ha
      rw [show (t.apply (.record path leaf start stop)).tree = (t.record path leaf start stop).tree
        from rfl]
      simp only [record] at hrecord ⊢
      split at hrecord
      case h_1 e => rw [e] at hrecord; contradiction
      case h_2 h' e =>
        obtain rfl := Option.some.inj hrecord
        obtain ⟨htree, hlt⟩ := handle_of_start e
        exact ⟨htree, Nat.lt_of_lt_of_le hlt (close_changes _ h' stop).length_le⟩
  | nested _ label _ | nestedIn _ label _ =>
      exact handle_of_nested (show _ = some label from rfl) ha
  | stop | close | finish => contradiction

/-! ### Levels of a finished tree -/

/-- A level of the finished tree is that of a place. -/
theorem Sound.exists_level {t : Tree} (h : t.Sound) {label : String} {now : Int} {p : List Nat}
    {n : Node} (hn : (t.snapshot label now).at? p = some n) (hl : n.IsLevel) :
    ∃ k s, t.segments[k]? = some s ∧ s.isLevel n.label ∧ p = t.position k := by
  have hp : p ≠ [] := by
    rintro rfl
    obtain rfl := Option.some.inj hn
    rcases hl with hl | hl
    · exact absurd hl (by simp [snapshot])
    · exact absurd hl (by simp [snapshot])
  obtain ⟨k, hk, rfl, rfl⟩ := h.exists_position label now hn hp
  have hs := List.getElem?_eq_getElem hk
  refine ⟨k, _, hs, ?_, rfl⟩
  rw [h.node_eq hs] at hl ⊢
  rw [Entry.isLevel_iff]
  refine ⟨fun hk => ?_, rfl⟩
  rcases hl with hl | hl
  · exact Kind.noConfusion (hk.symm.trans hl)
  · exact Kind.noConfusion (hk.symm.trans hl)

/-- **No two levels of a finished tree have the same label.** -/
theorem Sound.labelsLevels {t : Tree} (h : t.Sound) (label : String) (now : Int) :
    (t.snapshot label now).LabelsLevels := by
  intro p q n m hn hm hl hl' e
  obtain ⟨j, r, hr, hlr, rfl⟩ := h.exists_level hn hl
  obtain ⟨k, s, hs, hls, rfl⟩ := h.exists_level hm hl'
  rw [h.level_unique hr hs hlr (e ▸ hls)]

/-! ### Runs of a fresh tree -/

/-- A fresh tree after a run of calls. -/
def reached (id : Nat) (captures : Bool) (calls : List Call) : Tree :=
  run { id, capturesScalars := captures } calls

/-- A run keeps the number of its tree. -/
theorem reached_id (id : Nat) (captures : Bool) (calls : List Call) :
    (reached id captures calls).id = id :=
  run_keeps (P := fun t => t.id = id) (fun _ _ c h => (Changes.one c).fixed.1.trans h)
    (fun _ _ _ _ _ h => h) (fun _ h => h) calls rfl

end Tree

end GraphTrace.Segment
