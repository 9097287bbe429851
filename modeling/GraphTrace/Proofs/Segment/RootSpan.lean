import GraphTrace.Proofs.Segment.Durations

/-!
# The span of the root

The root of a finished tree covers what was recorded below it (`root_covers`).  It has no duration
just if nothing is below it; otherwise it spans from the earliest start that the tree accepted,
which may be that of a resolution that was restarted since, or of an event that was recorded late.

Where the clock does not run backwards and no recorded event ends after the tree, no segment takes
longer than the root: every duration is an end less a start (`FollowsHistory.exists_span`), the
start is one of those that the root covers, and the end is not after the tree's.
-/

namespace GraphTrace.Segment

/-! ### Instants that calls tell -/

/-- When the work that an answered call asked for started, if it was accepted. -/
def Call.starts : Call → Answer → List Int
  | .start _ _ now, .handle (some _) | .nested _ _ now, .handle (some _)
  | .nestedIn _ _ now, .handle (some _)   => [now]
  | .record _ _ begun _, .handle (some _) => [begun]
  | _, _                                  => []

/-- When an answered call ends what it is about. -/
def Call.stops : Call → Answer → List Int
  | .stop _ now, _ | .close _ now, _     => [now]
  | .record _ _ _ done, .handle (some _) => [done]
  | _, _                                 => []

/-- The reading of the clock that comes with a call. Recorded events bring their own instants. -/
def Call.reading? : Call → Option Int
  | .start _ _ now | .stop _ now | .nested _ _ now | .nestedIn _ _ now | .close _ now
  | .finish _ now => some now
  | .record ..    => none

namespace Call

variable {call : Call} {answer : Answer} {text : String} {h : Handle} {now : Int}

theorem mem_starts_of_levelMarks (hm : .start now ∈ call.levelMarks text h answer) :
    now ∈ call.starts answer := by
  unfold levelMarks at hm
  split at hm
  case h_1 | h_2 => split at hm <;> simp_all [starts]
  case h_3 | h_4 => split at hm <;> simp at hm
  case h_5 => simp at hm

theorem mem_starts_of_nestedMarks (hm : .start now ∈ call.nestedMarks h answer) :
    now ∈ call.starts answer := by
  unfold nestedMarks at hm
  split at hm
  case h_1 | h_2 => split at hm <;> simp_all [starts]
  case h_3 => split at hm <;> simp at hm
  case h_4 => simp at hm

theorem mem_stops_of_levelMarks (hm : .stop now ∈ call.levelMarks text h answer) :
    now ∈ call.stops answer := by
  unfold levelMarks at hm
  split at hm
  case h_1 => split at hm <;> simp at hm
  case h_2 | h_3 | h_4 => split at hm <;> simp_all [stops]
  case h_5 => simp at hm

theorem mem_stops_of_nestedMarks (hm : .stop now ∈ call.nestedMarks h answer) :
    now ∈ call.stops answer := by
  unfold nestedMarks at hm
  split at hm
  case h_1 | h_2 => split at hm <;> simp at hm
  case h_3 => split at hm <;> simp_all [stops]
  case h_4 => simp at hm

end Call

/-- How the root of a finished tree covers a run that was finished at `now`. -/
structure Node.Covers (root : Node) (t : Tree) (calls : List Call) (now : Int) : Prop where
  /-- The root has no duration just if nothing is below it. -/
  isNone_iff : root.duration = none ↔ root.children = []
  /-- It starts with the earliest of all starts, also where that was overwritten. -/
  span : root.duration = (Tree.gather Call.starts t calls).min?.map fun first =>
    (now - first).toNat
  /-- Nothing takes longer, if the clock does not run backwards and no recorded event ends after
  the tree. -/
  longest : (calls.filterMap Call.reading? ++ [now]).Pairwise (· ≤ ·) →
    (∀ path leaf start stop h, t.HandsOut calls (.record path leaf start stop) h → stop ≤ now) →
    ∀ {p : List Nat} {n : Node} {d : Nat}, root.at? p = some n → n.duration = some d →
      ∃ whole, root.duration = some whole ∧ d ≤ whole

namespace Tree

/-- What one reading of a run tells, another reading that tells it too tells as well. -/
theorem mem_gather_of {α β : Type} {f : Call → Answer → List α} {g : Call → Answer → List β} {a : α}
    {b : β} (h : ∀ {call answer}, a ∈ f call answer → b ∈ g call answer) {t : Tree}
    {calls : List Call} (ha : a ∈ gather f t calls) : b ∈ gather g t calls := by
  obtain ⟨earlier, call, later, e, ha⟩ := mem_gather.mp ha
  exact mem_gather.mpr ⟨earlier, call, later, e, h ha⟩

/-! ### When the root starts -/

/-- The earlier of two instants, the first of which may be missing. -/
def earlierOf (first : Option Int) (now : Int) : Option Int := some (first.elim now (min now))

/-- The earliest of some instants and one more. -/
theorem foldl_earlierOf_some (now : Int) (l : List Int) :
    l.foldl earlierOf (some now) = some (l.foldl min now) := by
  induction l generalizing now with
  | nil => rfl
  | cons a rest ih =>
      rw [List.foldl_cons, List.foldl_cons, min_comm]
      exact ih _

theorem foldl_earlierOf_none (l : List Int) : l.foldl earlierOf none = l.min? := by
  cases l with
  | nil => rfl
  | cons a rest =>
      rw [List.min?_cons', ← foldl_earlierOf_some]
      rfl

/-- **One call moves the start of the root** to that of what it starts, if this is earlier. -/
theorem Does.started {t u : Tree} {call : Call} {answer : Answer} (hd : t.Does call u answer) :
    u.started = (call.starts answer).foldl earlierOf t.started := by
  cases hd with
  | start hacc now => exact t.started_resolving _ _ now
  | record hacc start stop => exact t.started_resolving _ _ start
  | nested | nestedIn | stop | close => rfl
  | refuseStart | refuseRecord | missStop | refuseClose | refuseNestedIn => rfl

/-- **The root starts with the earliest start of a run.** -/
theorem started_reached (id : Nat) (captures : Bool) {calls : List Call}
    (hf : ∀ call ∈ calls, ¬ call.Finishes) : (reached id captures calls).started
      = (gather Call.starts { id, capturesScalars := captures } calls).min? := by
  rw [← foldl_earlierOf_none]
  refine observe_run (·.started) fun earlier call later e => ?_
  subst e
  exact (does_after rfl hf).2.2.started

/-- Whether a tree has started just if it has segments. -/
def StartsWhenUsed (t : Tree) : Prop := t.started = none ↔ t.segments = []

/-- A tree that started has segments. -/
theorem startsWhenUsed_of {t : Tree} {now : Int} (hs : t.started = some now)
    (hne : t.segments ≠ []) : t.StartsWhenUsed := by
  simp [StartsWhenUsed, hs, hne]

/-- A fresh tree has nothing below its root. -/
theorem startsWhenUsed_fresh (id : Nat) (captures : Bool) :
    StartsWhenUsed { id, capturesScalars := captures } := by
  simp [StartsWhenUsed]

theorem StartsWhenUsed.modify {t : Tree} (h : t.StartsWhenUsed) (place : Nat) (f : Work → Work) :
    (t.modify place f).StartsWhenUsed := by
  simpa [StartsWhenUsed, Tree.modify] using h

theorem startsWhenUsed_resolving (t : Tree) (above : List String) (own : String) (now : Int) :
    (t.resolving above own now).2.StartsWhenUsed :=
  startsWhenUsed_of (t.started_resolving above own now)
    (List.ne_nil_of_length_pos (Nat.zero_lt_of_lt (place?_lt (t.place?_resolving above own now))))

theorem startsWhenUsed_startNested (t : Tree) (parent : Option Nat) (label : String) (now : Int) :
    (t.startNested parent label now).tree.StartsWhenUsed :=
  startsWhenUsed_of (t := (t.startNested parent label now).tree) rfl (by simp [startNested, push])

/-- What a call does to an open tree starts the root if anything is below it. -/
theorem StartsWhenUsed.does {t u : Tree} (h : t.StartsWhenUsed) {call : Call} {answer : Answer}
    (hd : t.Does call u answer) : u.StartsWhenUsed := by
  cases hd with
  | start hacc now => exact t.startsWhenUsed_resolving _ _ now
  | record hacc start stop => exact (t.startsWhenUsed_resolving _ _ start).modify _ _
  | stop | close => exact h.modify _ _
  | nested owner label now => exact t.startsWhenUsed_startNested _ label now
  | nestedIn hin label now => exact t.startsWhenUsed_startNested _ label now
  | refuseStart | refuseRecord | missStop | refuseClose | refuseNestedIn => exact h

theorem StartsWhenUsed.run {t : Tree} (h : t.StartsWhenUsed) (hc : t.closed = false)
    {calls : List Call} (hf : ∀ call ∈ calls, ¬ call.Finishes) : (t.run calls).StartsWhenUsed := by
  induction calls generalizing t with
  | nil => exact h
  | cons call rest ih =>
      have hfirst := hf call (by simp)
      obtain ⟨-, -, hc'⟩ := t.apply_fixed hfirst
      exact ih (h.does (does_apply hc hfirst)) (hc'.trans hc) fun c hm => hf c (by simp [hm])

/-- The finished root has no children just if the tree has no segments. -/
theorem children_snapshot_eq_nil (t : Tree) (label : String) (now : Int) :
    (t.snapshot label now).children = [] ↔ t.segments = [] := by
  cases h : t.segments with
  | nil => simp [snapshot, h, assemble]
  | cons s rest => simp [snapshot, h, assemble]

end Tree

/-! ### What the root covers -/

/-- **A duration is an end less a start** that the run told. -/
theorem Node.FollowsHistory.exists_span {root : Node} {t : Tree} {calls : List Call}
    {segmentAt : Handle → List Nat} (h : root.FollowsHistory t calls segmentAt) {p : List Nat}
    {n : Node} {d : Nat} (hp : p ≠ []) (hn : root.at? p = some n) (hk : n.kind ≠ .operation)
    (hd : n.duration = some d) :
    ∃ start ∈ Tree.gather Call.starts t calls, ∃ stop ∈ Tree.gather Call.stops t calls,
      d = (stop - start).toNat := by
  -- What has a duration is not synthetic, so it is the segment of a handle.
  obtain ⟨given, ⟨call, hg⟩, rfl⟩ : p ∈ segmentAt '' {h | ∃ call, t.HandsOut calls call h} := by
    refine h.oneToOne.surjOn ?_
    cases e : n.kind with
    | operation => exact absurd e hk
    | synthetic => rw [h.synthetic hn e] at hd; contradiction
    | resolver => exact .inl ⟨hp, n, hn, e⟩
    | nested => exact .inr ⟨hp, n, hn, e⟩
  have ⟨_, _, _, ha⟩ := hg
  rcases Call.asks_of_handle ha with ⟨q, hq⟩ | ⟨label, hl⟩
  · obtain ⟨m, hm, -, -, htimed⟩ := h.resolver hg hq
    obtain rfl := Option.some.inj (hm.symm.trans hn)
    obtain ⟨start, stop, hspan, rfl⟩ := htimed.span hd
    exact ⟨start, Tree.mem_gather_of Call.mem_starts_of_levelMarks hspan.start_mem,
      stop, Tree.mem_gather_of Call.mem_stops_of_levelMarks hspan.stop_mem, rfl⟩
  · obtain ⟨m, hm, -, -, htimed⟩ := h.nested hg hl
    obtain rfl := Option.some.inj (hm.symm.trans hn)
    obtain ⟨start, stop, hspan, rfl⟩ := htimed.span hd
    exact ⟨start, Tree.mem_gather_of Call.mem_starts_of_nestedMarks hspan.start_mem,
      stop, Tree.mem_gather_of Call.mem_stops_of_nestedMarks hspan.stop_mem, rfl⟩

namespace Tree

/-- Where nothing is read or recorded after an instant, nothing ends after it. -/
theorem stops_le {t : Tree} {calls : List Call} {now : Int}
    (hread : ∀ reading ∈ calls.filterMap Call.reading?, reading ≤ now)
    (hrecord : ∀ path leaf start stop h,
      t.HandsOut calls (.record path leaf start stop) h → stop ≤ now)
    {stop : Int} (hs : stop ∈ gather Call.stops t calls) : stop ≤ now := by
  obtain ⟨earlier, call, later, rfl, hm⟩ := mem_gather.mp hs
  have hof : call.reading? = some stop → stop ≤ now := fun e =>
    hread stop (List.mem_filterMap.mpr ⟨call, by simp, e⟩)
  unfold Call.stops at hm
  split at hm
  case h_1 | h_2 =>
    obtain rfl := List.mem_singleton.mp hm
    exact hof rfl
  case h_3 path leaf start done h ha =>
    obtain rfl := List.mem_singleton.mp hm
    exact hrecord path leaf start _ h ⟨earlier, later, rfl, ha⟩
  case h_4 => contradiction

/-- **The finished root** starts with the earliest work and covers all segments. -/
theorem covers_reached (id : Nat) (captures : Bool) {calls : List Call} (label : String) (now : Int)
    (hf : ∀ call ∈ calls, ¬ call.Finishes) :
    ((reached id captures calls).snapshot label now).Covers
      { id, capturesScalars := captures } calls now := by
  have hsound := sound_reached id captures calls
  have hused : (reached id captures calls).StartsWhenUsed :=
    (startsWhenUsed_fresh id captures).run rfl hf
  have hspan : ((reached id captures calls).snapshot label now).duration
      = (gather Call.starts { id, capturesScalars := captures } calls).min?.map fun first =>
        (now - first).toNat := by
    rw [← started_reached id captures hf]
    rfl
  refine ⟨?_, hspan, fun hread hrecord p n d hn hd => ?_⟩
  · rw [children_snapshot_eq_nil, ← show _ ↔ _ from hused, snapshot, Option.map_eq_none_iff]
  · by_cases hp : p = []
    · subst hp
      obtain rfl := Option.some.inj hn
      exact ⟨d, hd, le_rfl⟩
    · obtain ⟨k, hk, -, hnode⟩ := hsound.exists_position label now hn hp
      have hkind : n.kind ≠ .operation := by
        rw [hnode, hsound.node_eq (List.getElem?_eq_getElem hk)]
        exact Work.kind_ne_operation _
      obtain ⟨start, hstart, stop, hstop, rfl⟩ :=
        (followsHistory_reached id captures hf label now).exists_span hp hn hkind hd
      have hlast := stops_le (fun reading hm => (List.pairwise_append.mp hread).2.2 reading hm now
        (List.mem_singleton.mpr rfl)) hrecord hstop
      -- There was a start, so there is an earliest one.
      obtain ⟨first, hfirst⟩ := Option.isSome_iff_exists.mp (List.isSome_min?_of_mem hstart)
      refine ⟨(now - first).toNat, by rw [hspan, hfirst, Option.map_some], ?_⟩
      have hearliest := (List.min?_eq_some_iff.mp hfirst).2 start hstart
      exact Int.toNat_le_toNat (Int.sub_le_sub hlast hearliest)

/-- **The root covers what was recorded below it.** -/
theorem root_covers (id : Nat) (captures : Bool) (calls : List Call) (label : String) (now : Int)
    (hf : ∀ call ∈ calls, ¬ call.Finishes) :
    ∃ root, ((reached id captures calls).finish label now).answer = some root ∧
      root.Covers { id, capturesScalars := captures } calls now :=
  ⟨_, finish_answer (open_reached id captures hf) label now,
    covers_reached id captures label now hf⟩

/-- A resolution that is restarted, work inside it, and an event that is recorded late and started
before all else. -/
def lateRun : List Call :=
  [.start ⟨[.key "a"]⟩ false 10, .nested ⟨[.key "a"]⟩ "load" 12, .start ⟨[.key "a"]⟩ false 15,
    .record ⟨[.key "b"]⟩ false (-4) 20, .stop ⟨[.key "a"]⟩ 30]

/-- The root starts with the work that was recorded late, and takes 44. -/
theorem root_covers_lateRun : (∀ call ∈ lateRun, ¬ call.Finishes) ∧
    ∃ root, ((reached 3 false lateRun).finish "op" 40).answer = some root ∧
      root.duration = some 44 ∧
      ∀ {p : List Nat} {n : Node} {d : Nat}, root.at? p = some n → n.duration = some d →
        d ≤ 44 := by
  have hf : ∀ call ∈ lateRun, ¬ call.Finishes := by decide
  obtain ⟨root, hroot, hcovers⟩ := root_covers 3 false lateRun "op" 40 hf
  have hspan : root.duration = some 44 := hcovers.span.trans (by decide +kernel)
  refine ⟨hf, root, hroot, hspan, fun hn hd => ?_⟩
  obtain ⟨whole, hwhole, hle⟩ := hcovers.longest (by decide) (by
    rintro path leaf start stop h ⟨earlier, later, e, -⟩
    have hm : Call.record path leaf start stop ∈ lateRun := by rw [e]; simp
    simp [lateRun] at hm
    omega) hn hd
  rwa [Option.some.inj (hwhole.symm.trans hspan)] at hle

end Tree

end GraphTrace.Segment
