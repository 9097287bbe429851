import GraphTrace.Proofs.Segment.Count

/-!
# How a tree grows

A call never takes a segment away, moves it or gives it another label (`grows_apply`).  What a
segment is changes in one way only, from a level that was not reported to a resolver; and new
segments come after all others, so below each segment they come last.

Hence what is found once is found for good:

* a level keeps its place (`Grows.place?_eq`), and a place keeps its parent;
* a segment keeps its position in the finished tree (`Grows.position_eq`), however many come later.

Nothing here asks for paths whose texts do not collide.
-/

namespace GraphTrace.Segment

/-- What a segment of a kind can become: a level that was not reported may be reported later. -/
def Kind.Becomes (kind later : Kind) : Prop := later = kind ∨ kind = .synthetic ∧ later = .resolver

namespace Kind.Becomes

theorem refl (kind : Kind) : kind.Becomes kind := .inl rfl

theorem trans {a b c : Kind} (h : a.Becomes b) (h' : b.Becomes c) : a.Becomes c := by
  rcases h' with rfl | ⟨rfl, rfl⟩
  · exact h
  · rcases h with rfl | ⟨rfl, h⟩
    · exact .inr ⟨rfl, rfl⟩
    · exact absurd h (by decide)

/-- Nested work is never anything else. -/
theorem nested_iff {a b : Kind} (h : a.Becomes b) : b = .nested ↔ a = .nested := by
  rcases h with rfl | ⟨rfl, rfl⟩
  · exact Iff.rfl
  · decide

end Kind.Becomes

/-- A level becomes a resolver when it is resolved. -/
theorem Work.becomes_resolving (now : Int) (w : Work) : w.kind.Becomes (w.resolving now).kind := by
  cases w with
  | level => exact .inr ⟨rfl, rfl⟩
  | resolver c | nested c => exact .refl _

theorem Work.becomes_ended (now : Int) (w : Work) : w.kind.Becomes (w.ended now).kind :=
  .inl (w.kind_ended now)

namespace Tree

/-- A tree and what it grew to: every segment is still at its place, with its label, below the same
place. -/
structure Grows (t u : Tree) : Prop where
  kept : ∀ {k : Nat} {s : Entry}, t.segments[k]? = some s →
    ∃ w, u.segments[k]? = some { s with work := w } ∧ s.work.kind.Becomes w.kind

namespace Grows

variable {t u : Tree}

theorem refl (t : Tree) : t.Grows t := ⟨fun {_ s} hs => ⟨s.work, hs, .refl _⟩⟩

theorem trans {v : Tree} (h : t.Grows u) (h' : u.Grows v) : t.Grows v := by
  refine ⟨fun hs => ?_⟩
  obtain ⟨w, hu, hw⟩ := h.kept hs
  obtain ⟨w', hv, hw'⟩ := h'.kept hu
  exact ⟨w', hv, hw.trans hw'⟩

/-- A segment put behind the others leaves them alone. -/
theorem push (t : Tree) (s : Entry) : t.Grows (t.push s) := ⟨fun {_ r} hr =>
  ⟨r.work, (getElem?_push_of_lt (List.getElem?_eq_some_iff.mp hr).1).trans hr, .refl _⟩⟩

/-- Work may change as long as its kind only changes to that of a resolver. -/
theorem modify (t : Tree) (place : Nat) {f : Work → Work}
    (hf : ∀ w : Work, w.kind.Becomes (f w).kind) :
    t.Grows (t.modify place f) := by
  refine ⟨fun {k s} hs => ?_⟩
  by_cases hk : place = k
  · exact ⟨f s.work, by simp [Tree.modify, hs, hk], hf s.work⟩
  · exact ⟨s.work, by simp [Tree.modify, hs, hk], .refl _⟩

theorem change (c : Change t u) : t.Grows u := by
  cases c with
  | note now => exact ⟨(Grows.refl t).kept⟩
  | level hp ht => exact .push t _
  | resolve place now => exact .modify t place (Work.becomes_resolving now)
  | stop place now => exact .modify t place (Work.becomes_ended now)

/-! ### Places -/

section Kept

variable (h : t.Grows u)
include h

theorem length_le : t.segments.length ≤ u.segments.length := by
  by_contra hlt
  obtain ⟨w, hw, -⟩ := h.kept (List.getElem?_eq_getElem (Nat.not_le.mp hlt))
  exact absurd (List.getElem?_eq_some_iff.mp hw).1 (Nat.lt_irrefl _)

/-- What a segment hangs below does not change. -/
theorem parent?_eq {k : Nat} (hk : k < t.segments.length) : u.parent? k = t.parent? k := by
  have hs := List.getElem?_eq_getElem hk
  obtain ⟨w, hw, -⟩ := h.kept hs
  rw [parent?, parent?, hs, hw]
  rfl

/-- **A level keeps its place.** -/
theorem place?_eq (hu : u.Sound) {text : String} {k : Nat} (hk : t.place? text = some k) :
    u.place? text = some k := by
  obtain ⟨s, hs, hl⟩ := exists_of_place? hk
  obtain ⟨w, hw, hb⟩ := h.kept hs
  obtain ⟨hn, hlabel⟩ := Entry.isLevel_iff.mp hl
  refine hu.place?_eq_some_iff.mpr ⟨_, hw, Entry.isLevel_iff.mpr ⟨?_, hlabel⟩⟩
  rwa [ne_eq, hb.nested_iff]

/-- **New segments come last** below every segment. -/
theorem placesBelow_extends (parent : Option Nat) :
    t.placesBelow parent <+: u.placesBelow parent := by
  obtain ⟨n, hn⟩ := Nat.exists_eq_add_of_le h.length_le
  have hold : t.placesBelow parent
      = (List.range' 0 t.segments.length).filter (u.parent? · == parent) := by
    rw [placesBelow, List.range_eq_range']
    refine List.filter_congr fun k hk => ?_
    rw [h.parent?_eq (by simpa using hk)]
  rw [hold, placesBelow, hn, List.range_eq_range', ← List.range'_append_1, List.filter_append]
  exact List.prefix_append _ _

/-- **A segment keeps its position.** -/
theorem position_eq (ht : t.Sound) (hu : u.Sound) {k : Nat} (hk : k < t.segments.length) :
    u.position k = t.position k := by
  induction k using Nat.strongRecOn with
  | ind k ih =>
      obtain ⟨later, hlater⟩ := h.placesBelow_extends (t.parent? k)
      -- The rank among the siblings is the same, as the new ones come after this one.
      have hrank : (u.placesBelow (t.parent? k)).idxOf k
          = (t.placesBelow (t.parent? k)).idxOf k := by
        rw [← hlater, List.idxOf_append, if_pos (mem_placesBelow.mpr ⟨hk, rfl⟩)]
      rw [ht.position_eq, hu.position_eq, h.parent?_eq hk, hrank]
      congr 1
      cases e : t.parent? k with
      | none => rfl
      | some j =>
          have hj := ht.parent?_lt e
          exact ih j hj (Nat.lt_trans hj hk)

/-- The root and all segments keep their positions. -/
theorem positionOf_eq (ht : t.Sound) (hu : u.Sound) {parent : Option Nat}
    (hp : t.HasPlace parent) : u.positionOf parent = t.positionOf parent := by
  cases parent with
  | none => rfl
  | some k => exact h.position_eq ht hu (hp k rfl)

end Kept

end Grows

/-! ### New segments -/

theorem parent?_push (t : Tree) (s : Entry) : (t.push s).parent? t.segments.length = s.parent := by
  rw [parent?, getElem?_push_length, Option.bind_some]

/-- **What is pushed is the last child** of the segment it hangs below, and of no other. -/
theorem placesBelow_push (t : Tree) (s : Entry) (parent : Option Nat) :
    (t.push s).placesBelow parent
      = t.placesBelow parent ++ if s.parent = parent then [t.segments.length] else [] := by
  have hold : (List.range t.segments.length).filter ((t.push s).parent? · == parent)
      = t.placesBelow parent := by
    refine List.filter_congr fun k hk => ?_
    rw [(Grows.push t s).parent?_eq (List.mem_range.mp hk)]
  rw [placesBelow, show (t.push s).segments.length = t.segments.length + 1 by simp [push],
    List.range_succ, List.filter_append, hold, List.filter_cons, parent?_push, List.filter_nil]
  simp only [beq_iff_eq]

/-! ### Calls and runs -/

/-- **A run lets a tree grow**, whether it closes it or not. -/
theorem grows_run (t : Tree) (calls : List Call) : t.Grows (t.run calls) :=
  run_keeps (P := t.Grows) (fun _ _ c h => h.trans (.change c))
    (fun u _ _ now _ h => h.trans ((Grows.change (.note u now)).trans (.push _ _)))
    (fun _ h => ⟨h.kept⟩) calls (.refl t)

/-- Every call lets a tree grow. -/
theorem grows_apply (t : Tree) (call : Call) : t.Grows (t.apply call).tree := t.grows_run [call]

theorem run_append (t : Tree) (earlier later : List Call) :
    t.run (earlier ++ later) = (t.run earlier).run later := List.foldl_append

theorem Sound.after {t : Tree} (h : t.Sound) (call : Call) : (t.apply call).tree.Sound :=
  h.run [call]

/-! ### Trees that a run reaches -/

/-- Every tree that calls lead to is sound. -/
theorem sound_reached (id : Nat) (captures : Bool) (calls : List Call) :
    (reached id captures calls).Sound :=
  (Sound.fresh id captures).run calls

/-- A tree is open until it is finished. -/
theorem open_reached (id : Nat) (captures : Bool) {calls : List Call}
    (hf : ∀ call ∈ calls, ¬ call.Finishes) : (reached id captures calls).closed = false :=
  (run_fixed _ hf).2.2

theorem reached_append (id : Nat) (captures : Bool) (earlier later : List Call) :
    reached id captures (earlier ++ later) = (reached id captures earlier).run later :=
  run_append _ earlier later

end Tree

end GraphTrace.Segment
