import GraphTrace.Proofs.Segment.Growth
import GraphTrace.Segment.Arena

/-!
# Slots that stand for segments

An arena keeps what a tree keeps, in another way (`Arena.Represents`): a slot for the root and one
for each segment, in order, each with the indices of the slots below it in place of the one above;
and a map in place of the search for a level.

Whatever is done to such an arena finds its slots, and leaves one that stands for the tree to which
the same was done: a slot is pushed (`HoldsSlots.hang`), a level is asked for (`Represents.ensure`),
a resolution starts (`Represents.openResolver`), nested work starts (`Represents.startNested`), work
ends (`HoldsSlots.modify`).  A finished segment is that of the tree, and the descent to the segments
below it comes to an end (`HoldsSlots.node?_eq`).
-/

namespace GraphTrace.Segment

open Response (Path)

/-- The slot of a segment with these slots below it. -/
def Entry.slot (s : Entry) (children : List Nat) : Slot :=
  ⟨s.label, s.work.kind, s.work.clock?.map (·.started), s.work.clock?.bind (·.took), children⟩

namespace Tree

/-- The indices of the slots below the root or a place. The root comes first, so a segment has the
index after its place. -/
def below (t : Tree) (parent : Option Nat) : List Nat := (t.placesBelow parent).map (· + 1)

/-- A new segment is the last below its place. -/
theorem below_push (t : Tree) (s : Entry) (parent : Option Nat) : (t.push s).below parent
    = t.below parent ++ if s.parent = parent then [t.segments.length + 1] else [] := by
  rw [below, placesBelow_push, List.map_append]
  split <;> rfl

theorem below_modify (t : Tree) (place : Nat) (f : Work → Work) (parent : Option Nat) :
    (t.modify place f).below parent = t.below parent := by
  rw [below, placesBelow_modify, below]

/-- Nothing hangs below a place that is still to come. -/
theorem Sound.below_length {t : Tree} (h : t.Sound) : t.below (some t.segments.length) = [] := by
  rw [below, List.map_eq_nil_iff, List.eq_nil_iff_forall_not_mem]
  intro k hk
  obtain ⟨hlt, hparent⟩ := mem_placesBelow.mp hk
  exact absurd (h.parent?_lt hparent) (Nat.lt_asymm hlt)

/-- The slots below a place have outcomes if each of them has one. -/
theorem mapM_below {t : Tree} {parent : Option Nat} {f : Nat → Option Node}
    (h : ∀ k ∈ t.placesBelow parent, f (k + 1) = some (t.node k)) :
    (t.below parent).mapM f = some ((t.placesBelow parent).map t.node) := by
  rw [below, List.mapM_map]
  generalize t.placesBelow parent = places at h
  induction places with
  | nil => rfl
  | cons k rest ih =>
      rw [List.mapM_cons, ih fun j hj => h j (List.mem_cons_of_mem _ hj), Function.comp_apply,
        h k List.mem_cons_self]
      rfl

end Tree

namespace Arena

variable {a : Arena} {t : Tree}

/-- The index of the slot for the root or a place. -/
def indexAt (place? : Option Nat) : Nat := place?.elim root (· + 1)

/-- Whether the slots of an arena are those for the root and the segments of a tree. -/
structure HoldsSlots (a : Arena) (t : Tree) : Prop where
  id : a.id = t.id
  capturesScalars : a.capturesScalars = t.capturesScalars
  closed : a.closed = t.closed
  length : a.slots.length = t.segments.length + 1
  /-- The root has a duration only if it started; which one, is of no account before the end. -/
  root : ∃ label took, a.slots[Arena.root]?
      = some ⟨label, .operation, t.started, took, t.below none⟩ ∧
    (t.started = none → took = none)
  slot : ∀ k, a.slots[k + 1]? = t.segments[k]?.map (·.slot (t.below (some k)))

/-- **An arena that stands for a tree**: it has its slots, and finds its levels. -/
structure Represents (a : Arena) (t : Tree) : Prop extends HoldsSlots a t where
  lookup : ∀ text, a.byPath.lookup text = (t.place? text).map (· + 1)
  keys : a.byPath.map (·.1) = t.keys.reverse

/-- A fresh arena stands for a fresh tree. -/
theorem represents_fresh (id : Nat) (captures : Bool) :
    Represents { id, capturesScalars := captures } { id, capturesScalars := captures } where
  id := rfl
  capturesScalars := rfl
  closed := rfl
  length := rfl
  root := ⟨"", none, rfl, fun _ => rfl⟩
  slot _ := rfl
  lookup _ := rfl
  keys := rfl

/-! ### Changing a slot -/

/-- A slot that is there can be changed. -/
theorem update?_of_lt {index : Nat} (h : index < a.slots.length) (f : Slot → Slot) :
    a.update? index f = some { a with slots := a.slots.modify index f } :=
  if_pos h

/-- A slot can be put below one that is there. -/
theorem hang_of_lt {parent : Nat} (h : parent < a.slots.length) (s : Slot) :
    a.hang parent s = some (a.slots.length, { a with
      slots := (a.slots ++ [s]).modify parent fun above =>
        { above with children := above.children ++ [a.slots.length] } }) := by
  rw [hang, update?_of_lt (by rw [List.length_append]; exact Nat.lt_add_right _ h)]
  rfl

namespace HoldsSlots

theorem indexAt_lt (h : a.HoldsSlots t) {parent : Option Nat} (hp : t.HasPlace parent) :
    indexAt parent < a.slots.length := by
  rw [h.length]
  cases parent with
  | none => exact Nat.succ_pos _
  | some j => exact Nat.succ_lt_succ (hp j rfl)

theorem root_lt (h : a.HoldsSlots t) : Arena.root < a.slots.length := h.indexAt_lt t.hasPlace_root

/-- **A change of the root** leaves the slots of the segments. -/
theorem onRoot (h : a.HoldsSlots t) (started : Option Int) {f : Slot → Slot}
    (hf : ∀ {label : String} {took : Option Nat}, (t.started = none → took = none) →
      ∃ label' took', f ⟨label, .operation, t.started, took, t.below none⟩
        = ⟨label', .operation, started, took', t.below none⟩ ∧ (started = none → took' = none)) :
    HoldsSlots { a with slots := a.slots.modify Arena.root f } { t with started } where
  id := h.id
  capturesScalars := h.capturesScalars
  closed := h.closed
  length := by rw [List.length_modify, h.length]
  root := by
    obtain ⟨label, took, hroot, htook⟩ := h.root
    obtain ⟨label', took', hf, htook'⟩ := hf htook
    refine ⟨label', took', ?_, htook'⟩
    rw [List.getElem?_modify_eq, hroot, Option.map_eq_map, Option.map_some, hf]
    rfl
  slot k := (List.getElem?_modify_ne _ _ (Nat.succ_ne_zero k).symm).trans (h.slot k)

/-- **A change of the work at a place** leaves all other slots, and the slots below this one. -/
theorem modify (h : a.HoldsSlots t) (place : Nat) {f : Slot → Slot} {g : Work → Work}
    (hfg : ∀ {s : Entry} (children : List Nat), t.segments[place]? = some s →
      f (s.slot children) = Entry.slot { s with work := g s.work } children) :
    HoldsSlots { a with slots := a.slots.modify (place + 1) f } (t.modify place g) where
  id := h.id
  capturesScalars := h.capturesScalars
  closed := h.closed
  length := by rw [List.length_modify, h.length, Tree.modify, List.length_modify]
  root := by
    obtain ⟨label, took, hroot, htook⟩ := h.root
    refine ⟨label, took, ?_, htook⟩
    rw [Tree.below_modify]
    exact (List.getElem?_modify_ne _ _ (Nat.succ_ne_zero place)).trans hroot
  slot k := by
    rw [List.getElem?_modify, h.slot k, Tree.below_modify, Tree.modify, List.getElem?_modify]
    cases hs : t.segments[k]? with
    | none => rfl
    | some s =>
        by_cases e : place = k
        · subst e
          simp [hfg _ hs]
        · simp [e]

/-- The root starts with the earliest work. -/
theorem startRoot (h : a.HoldsSlots t) (now : Int) : ∃ b, a.startRoot now = some b ∧
    b.HoldsSlots (t.noteStart now) ∧ b.byPath = a.byPath := by
  refine ⟨_, update?_of_lt h.root_lt _, h.onRoot _ fun {label took} _ => ?_, rfl⟩
  refine ⟨label, took, ?_, fun e => nomatch e⟩
  cases t.started with
  | none => rfl
  | some first =>
      by_cases hnow : now < first
      · simp [hnow, Int.min_eq_left (Int.le_of_lt hnow)]
      · simp [hnow, Int.min_eq_right (Int.not_lt.mp hnow)]

/-- The root gets its label, and its duration if it started. -/
theorem endRoot (h : a.HoldsSlots t) (label : String) (now : Int) :
    ∃ b, a.update? Arena.root (fun s => { s with label }.ended now) = some b ∧
      b.HoldsSlots t ∧ b.byPath = a.byPath ∧ b.slots[Arena.root]? = some
        ⟨label, .operation, t.started, t.started.map (Clock.span · now), t.below none⟩ := by
  have hended : ∀ {took : Option Nat}, (t.started = none → took = none) →
      Slot.ended ⟨label, .operation, t.started, took, t.below none⟩ now
        = ⟨label, .operation, t.started, t.started.map (Clock.span · now), t.below none⟩ := by
    intro took htook
    cases hs : t.started with
    | none => rw [htook hs]; rfl
    | some started => rfl
  refine ⟨_, update?_of_lt h.root_lt _,
    h.onRoot t.started fun htook => ⟨_, _, hended htook, fun e => by rw [e]; rfl⟩, rfl, ?_⟩
  obtain ⟨_, took, hroot, htook⟩ := h.root
  rw [List.getElem?_modify_eq, hroot]
  exact congrArg some (hended htook)

/-- **A slot that is put behind the others** is that of a segment put behind the others. -/
theorem hang (h : a.HoldsSlots t) (ht : t.Sound) {s : Entry} (hp : t.HasPlace s.parent) :
    ∃ b, a.hang (indexAt s.parent) (s.slot []) = some (t.segments.length + 1, b) ∧
      b.HoldsSlots (t.push s) ∧ b.byPath = a.byPath := by
  have hlt := h.length
  have hnew : s.parent ≠ some t.segments.length := fun e => Nat.lt_irrefl _ (hp _ e)
  rw [hang_of_lt (h.indexAt_lt hp), h.length]
  refine ⟨_, rfl, ?_, rfl⟩
  refine ⟨h.id, h.capturesScalars, h.closed, ?_, ?_, fun k => ?_⟩
  · rw [List.length_modify, List.length_append, h.length]
    simp [Tree.push]
  · obtain ⟨label, took, hroot, htook⟩ := h.root
    refine ⟨label, took, ?_, htook⟩
    rw [List.getElem?_modify, List.getElem?_append_left h.root_lt, hroot, Tree.below_push]
    cases s.parent with
    | none => simp [indexAt, Tree.push]
    | some j => simp [indexAt, Arena.root, Tree.push]
  · rw [List.getElem?_modify, Tree.below_push, Tree.push]
    rcases Nat.lt_trichotomy k t.segments.length with hk | rfl | hk
    · -- An older segment has one more child if it is the parent.
      rw [List.getElem?_append_left (by omega), List.getElem?_append_left hk, h.slot k,
        List.getElem?_eq_getElem hk]
      cases s.parent with
      | none => simp [indexAt, Arena.root]
      | some j => by_cases e : j = k <;> simp [indexAt, Entry.slot, e]
    · rw [List.getElem?_append_right (by omega), List.getElem?_append_right (Nat.le_refl _),
        ht.below_length, if_neg hnew, h.length]
      cases e : s.parent with
      | none => simp [indexAt, Arena.root]
      | some j => simp [indexAt, show j ≠ t.segments.length from fun ej => hnew (ej ▸ e)]
    · rw [List.getElem?_eq_none (by simp [h.length]; omega),
        List.getElem?_eq_none (by simp; omega)]
      rfl

/-! ### Finished segments -/

/-- **The finished segment at an index** is that of the place. The segments below it have higher
places, so the descent ends. -/
theorem node?_eq (h : a.HoldsSlots t) (ht : t.Sound) {depth k : Nat} (hk : k < t.segments.length)
    (hd : t.segments.length ≤ k + depth) : a.node? depth (k + 1) = some (t.node k) := by
  induction depth generalizing k with
  | zero => omega
  | succ depth ih =>
      have hchildren : (t.below (some k)).mapM (a.node? depth)
          = some ((t.placesBelow (some k)).map t.node) := by
        refine Tree.mapM_below fun j hj => ?_
        obtain ⟨hlt, hparent⟩ := Tree.mem_placesBelow.mp hj
        have := ht.parent?_lt hparent
        exact ih hlt (by omega)
      have hs := List.getElem?_eq_getElem hk
      rw [node?, h.slot k, hs, ht.node_eq hs]
      simp [Entry.slot, hchildren]

/-- **The finished root** is that of the tree, once it has its label and its duration. -/
theorem node?_root (h : a.HoldsSlots t) (ht : t.Sound) {label : String} {now : Int}
    (hroot : a.slots[Arena.root]? = some
      ⟨label, .operation, t.started, t.started.map (Clock.span · now), t.below none⟩) :
    a.node? a.slots.length Arena.root = some (t.snapshot label now) := by
  have hchildren : (t.below none).mapM (a.node? t.segments.length)
      = some ((t.placesBelow none).map t.node) :=
    Tree.mapM_below fun k hk =>
      h.node?_eq ht (Tree.mem_placesBelow.mp hk).1 (Nat.le_add_left _ _)
  rw [h.length, node?, hroot, ht.snapshot_eq]
  simp [hchildren]

end HoldsSlots

/-! ### Levels -/

namespace Represents

/-- What keeps the levels and their texts keeps an arena that stands for a tree. -/
theorem of_path (h : a.Represents t) {b : Arena} {u : Tree} (hb : b.HoldsSlots u)
    (hpath : b.byPath = a.byPath) (hplace : ∀ text, u.place? text = t.place? text)
    (hkeys : u.keys = t.keys) : b.Represents u where
  toHoldsSlots := hb
  lookup text := by rw [hpath, h.lookup, hplace]
  keys := by rw [hpath, h.keys, hkeys]

/-- Work that ends, at a place or at none. -/
theorem ended (h : a.Represents t) (place : Nat) (now : Int) :
    Represents { a with slots := a.slots.modify (place + 1) (·.ended now) }
      (t.modify place (.ended now)) := by
  refine h.of_path (h.toHoldsSlots.modify place fun {s} children _ => ?_) rfl
    (t.place?_modify place (Work.keepsNested_ended now))
    (t.keys_modify place (Work.keepsNested_ended now))
  cases hw : s.work <;> simp [Entry.slot, Slot.ended, Work.ended, Work.clock?, Work.kind, hw,
    Clock.ended]

/-- A level that is resolved. -/
theorem resolve (h : a.Represents t) {text : String} {place : Nat}
    (hk : t.place? text = some place) (now : Int) :
    ∃ b, a.update? (place + 1) (fun s => { s with kind := .resolver, started := some now })
        = some b ∧ b.Represents (t.modify place (.resolving now)) := by
  have hlt := h.toHoldsSlots.indexAt_lt (Tree.hasPlace_of_place? hk)
  refine ⟨_, update?_of_lt hlt _, h.of_path (h.toHoldsSlots.modify place fun {s} children hs => ?_)
    rfl (t.place?_modify place (Work.keepsNested_resolving now))
    (t.keys_modify place (Work.keepsNested_resolving now))⟩
  -- What is found by its text is no nested work.
  obtain ⟨s', hs', hl⟩ := Tree.exists_of_place? hk
  obtain rfl := Option.some.inj (hs'.symm.trans hs)
  cases hw : s'.work with
  | level | resolver c => simp [Entry.slot, Work.resolving, Work.clock?, Work.kind, hw]
  | nested c => exact absurd (by rw [hw]; rfl) (Entry.isLevel_iff.mp hl).1

/-- **A level is asked for**, and created if it is missing. -/
theorem ensure (h : a.Represents t) (ht : t.Sound) {parent : Option Nat} (hp : t.HasPlace parent)
    (text : String) : ∃ b, a.ensure (indexAt parent) text = some ((t.ensure parent text).1 + 1, b) ∧
      b.Represents (t.ensure parent text).2 := by
  rw [Arena.ensure, h.lookup, Tree.ensure]
  cases hk : t.place? text with
  | some k => exact ⟨a, rfl, h⟩
  | none =>
      obtain ⟨b, hb, hholds, hpath⟩ := h.toHoldsSlots.hang ht (s := ⟨text, parent, .level⟩) hp
      have hpush : a.push (indexAt parent) { label := text, kind := .synthetic }
          = some (t.segments.length + 1, b) := hb
      refine ⟨{ b with byPath := (text, t.segments.length + 1) :: b.byPath }, by simp [hpush],
        ⟨⟨hholds.id, hholds.capturesScalars, hholds.closed, hholds.length, hholds.root,
          hholds.slot⟩, fun sought => ?_, ?_⟩⟩
      · rw [List.lookup_cons, hpath, h.lookup, Tree.place?_push]
        by_cases e : sought = text
        · subst e
          simp [hk, Entry.isLevel, Work.kind]
        · simp [Entry.isLevel, Work.kind, beq_eq_false_iff_ne.mpr e, Ne.symm e]
      · rw [List.map_cons, hpath, h.keys, Tree.keys_push]
        simp [Work.kind]

/-- Levels are asked for one below the other. -/
theorem ensureAll (h : a.Represents t) (ht : t.Sound) {parent : Option Nat}
    (hp : t.HasPlace parent) (texts : List String) :
    ∃ b, a.ensureAll (indexAt parent) texts = some (indexAt (t.ensureAll parent texts).1, b) ∧
      b.Represents (t.ensureAll parent texts).2 := by
  induction texts generalizing a t parent with
  | nil => exact ⟨a, rfl, h⟩
  | cons text rest ih =>
      obtain ⟨b, hb, hrb⟩ := h.ensure ht hp text
      obtain ⟨c, hc, hrc⟩ := ih hrb (ht.changes (Tree.ensure_changes hp text))
        (Tree.hasPlace_of_place? (t.place?_ensure parent text))
      refine ⟨c, ?_, hrc⟩
      rw [Arena.ensureAll, hb]
      exact hc

/-- **A resolution starts** in the slot of its own level, which is found or created. -/
theorem openResolver (h : a.Represents t) (ht : t.Sound) {path : Path} {own : String}
    (hown : path.levels.getLast? = some own) (now : Int) :
    ∃ b, a.openResolver path now = some ((t.resolving path.levels.dropLast own now).1 + 1, b) ∧
      b.Represents (t.resolving path.levels.dropLast own now).2 := by
  obtain ⟨hchanges, hp⟩ := Tree.ensureAll_changes t.hasPlace_root path.levels.dropLast
  obtain ⟨b, hb, hrb⟩ := h.ensureAll ht t.hasPlace_root path.levels.dropLast
  obtain ⟨c, hc, hrc⟩ := hrb.ensure (ht.changes hchanges) hp own
  obtain ⟨d, hd, hholds, hpath⟩ := hrc.toHoldsSlots.startRoot now
  have hrd := hrc.of_path hholds hpath (fun _ => rfl) rfl
  obtain ⟨e, he, hre⟩ := hrd.resolve (Tree.place?_ensure _ _ own) now
  refine ⟨e, ?_, hre⟩
  have hb : a.ensureAll root path.levels.dropLast = _ := hb
  simp only [Arena.openResolver, hown, hb, hc, hd, he, Option.bind_eq_bind, Option.bind_some]
  rfl

/-- **Nested work starts** below the root or a place. -/
theorem startNested (h : a.Represents t) (ht : t.Sound) {parent : Option Nat}
    (hp : t.HasPlace parent) (label : String) (now : Int) :
    ∃ b, a.startNested (indexAt parent) label now
        = some ⟨b, some ⟨t.id, t.segments.length + 1⟩, []⟩ ∧
      b.Represents (t.startNested parent label now).tree := by
  obtain ⟨b, hb, hholds, hpath⟩ := h.toHoldsSlots.startRoot now
  obtain ⟨c, hc, hholds', hpath'⟩ :=
    hholds.hang (ht.change (.note t now)) (s := ⟨label, parent, .nested ⟨now, none⟩⟩) hp
  have hpush : a.push (indexAt parent) { label, kind := .nested, started := some now }
      = some (t.segments.length + 1, c) := by
    simp only [Arena.push, hb]
    exact hc
  refine ⟨c, by rw [Arena.startNested, hpush, ← h.id]; rfl,
    h.of_path hholds' (hpath'.trans hpath) (fun text => ?_) ?_⟩
  · exact Tree.place?_push_of_not_isLevel fun hl => (Entry.isLevel_iff.mp hl).1 rfl
  · exact ((t.noteStart now).keys_push _).trans (List.append_nil _)

/-- Nested work finds the slot of the root or the place that it finds in the tree. -/
theorem closest (h : a.Represents t) (path : Path) :
    a.closest path = indexAt (t.closest? path) := by
  have hlookup : (fun text => a.byPath.lookup text) = Option.map (· + 1) ∘ t.place? :=
    funext h.lookup
  rw [Arena.closest, hlookup, ← List.map_findSome?, Tree.closest?]
  cases path.levels.reverse.findSome? t.place? <;> rfl

end Represents

end Arena

end GraphTrace.Segment
