import GraphTrace.Proofs.Response.Text
import GraphTrace.Proofs.Segment.Change

/-!
# The levels of a tree

A tree is read here through its levels: what is recorded at a text (`workAt`), and where the level
for a path stands (`placeFor?`).

The first half holds for all paths.  A level that is missing counts as one that was never resolved,
so that creating levels changes nothing (`workAt_ensureAll`), a resolution changes the work at its
own text alone (`workAt_resolving`), and so does an end (`workAt_modify`).

The second half is about named paths, whose texts do not collide.  A tree *shows* a set of paths
when its levels are exactly those of the set, each below the level above it (`Shows`).  A resolution
adds to the set the beginnings of its path (`Shows.resolving`), and nothing else adds to it.
-/

namespace GraphTrace.Segment

open Response (Path Element)

namespace Tree

/-! ### Work at a text -/

/-- The work recorded at the level shown as `text`; a level that is missing was never resolved. -/
def workAt (t : Tree) (text : String) : Work :=
  ((t.place? text).bind (t.segments[·]?)).elim .level (·.work)

/-- A level that is missing counts as one that was never resolved. -/
theorem workAt_of_none {t : Tree} {text : String} (h : t.place? text = none) :
    t.workAt text = .level := by
  simp [workAt, h]

/-- A level has the work of its segment. -/
theorem workAt_eq {t : Tree} {text : String} {k : Nat} {s : Entry} (h : t.place? text = some k)
    (hs : t.segments[k]? = some s) : t.workAt text = s.work := by
  simp [workAt, h, hs]

/-- What stands at a level is not nested work. -/
theorem kind_workAt_ne_nested (t : Tree) (text : String) : (t.workAt text).kind ≠ .nested := by
  cases h : t.place? text with
  | none => simp [workAt_of_none h, Work.kind]
  | some k =>
      obtain ⟨s, hs, hl⟩ := exists_of_place? h
      rw [workAt_eq h hs]
      exact (Entry.isLevel_iff.mp hl).1

/-- A place is that of one text. -/
theorem place?_inj {t : Tree} {text text' : String} {k : Nat} (h : t.place? text = some k)
    (h' : t.place? text' = some k) : text = text' := by
  obtain ⟨s, hs, hl⟩ := exists_of_place? h
  obtain ⟨s', hs', hl'⟩ := exists_of_place? h'
  obtain rfl := Option.some.inj (hs.symm.trans hs')
  exact (Entry.isLevel_iff.mp hl).2.symm.trans (Entry.isLevel_iff.mp hl').2

theorem workAt_push_of_some {t : Tree} {s : Entry} {text : String} {k : Nat}
    (h : t.place? text = some k) : (t.push s).workAt text = t.workAt text := by
  obtain ⟨r, hr, -⟩ := exists_of_place? h
  rw [workAt_eq h hr,
    workAt_eq (place?_push_of_some h) ((getElem?_push_of_lt (place?_lt h)).trans hr)]

/-- A new level counts as it did while it was missing. -/
theorem workAt_push_level (t : Tree) (parent : Option Nat) (own text : String) :
    (t.push ⟨own, parent, .level⟩).workAt text = t.workAt text := by
  cases e : t.place? text with
  | some k => exact workAt_push_of_some e
  | none =>
      rw [workAt_of_none e]
      by_cases hl : Entry.isLevel ⟨own, parent, .level⟩ text
      · have hp := t.place?_push ⟨own, parent, .level⟩ text
        rw [e, Option.none_or, if_pos hl] at hp
        exact workAt_eq hp (t.getElem?_push_length _)
      · exact workAt_of_none ((place?_push_of_not_isLevel hl).trans e)

/-- Nested work is no work of a level, whatever its label. -/
theorem workAt_push_nested (t : Tree) (label : String) (parent : Option Nat) (clock : Clock)
    (text : String) : (t.push ⟨label, parent, .nested clock⟩).workAt text = t.workAt text := by
  cases e : t.place? text with
  | some k => exact workAt_push_of_some e
  | none =>
      have hl : ¬ Entry.isLevel ⟨label, parent, .nested clock⟩ text := fun h =>
        (Entry.isLevel_iff.mp h).1 rfl
      rw [workAt_of_none e, workAt_of_none ((place?_push_of_not_isLevel hl).trans e)]

/-- Changing the work at a place changes what is recorded at its own text alone. -/
theorem workAt_modify (t : Tree) (place : Nat) {f : Work → Work} (hf : Work.KeepsNested f)
    (text : String) : (t.modify place f).workAt text
      = if t.place? text = some place then f (t.workAt text) else t.workAt text := by
  cases e : t.place? text with
  | none => rw [workAt_of_none e, workAt_of_none ((t.place?_modify place hf text).trans e)]; simp
  | some k =>
      obtain ⟨s, hs, -⟩ := exists_of_place? e
      have hs' : (t.modify place f).segments[k]?
          = some (if place = k then { s with work := f s.work } else s) := by
        simp [modify, List.getElem?_modify, hs]
      rw [workAt_eq ((t.place?_modify place hf text).trans e) hs', workAt_eq e hs]
      by_cases hk : place = k
      · simp [hk]
      · simp [hk, Ne.symm hk]

theorem workAt_ensure (t : Tree) (parent : Option Nat) (own text : String) :
    (t.ensure parent own).2.workAt text = t.workAt text := by
  unfold ensure
  split
  · rfl
  · exact t.workAt_push_level parent own text

/-- **Creating levels records no work.** -/
theorem workAt_ensureAll (t : Tree) (parent : Option Nat) (texts : List String) (text : String) :
    (t.ensureAll parent texts).2.workAt text = t.workAt text := by
  induction texts generalizing t parent with
  | nil => rfl
  | cons own rest ih => exact (ih _ _).trans (t.workAt_ensure parent own text)

/-- **A resolution is recorded at its own text alone.** -/
theorem workAt_resolving (t : Tree) (above : List String) (own : String) (now : Int)
    (text : String) : (t.resolving above own now).2.workAt text
      = if text = own then (t.workAt own).resolving now else t.workAt text := by
  have hown := place?_ensure (t.ensureAll none above).2 (t.ensureAll none above).1 own
  have hframe : ∀ text, (((t.ensureAll none above).2.ensure (t.ensureAll none above).1
      own).2.noteStart now).workAt text = t.workAt text := fun text =>
    (workAt_ensure _ _ own text).trans (t.workAt_ensureAll none above text)
  rw [resolving_eq, workAt_modify _ _ (Work.keepsNested_resolving now), hframe, place?_noteStart]
  by_cases e : text = own
  · rw [if_pos (by rw [e]; exact hown), if_pos e, e]
  · rw [if_neg (fun h => e (place?_inj h hown)), if_neg e]

/-! ### The start of the root -/

theorem started_ensure (t : Tree) (parent : Option Nat) (text : String) :
    (t.ensure parent text).2.started = t.started := by
  unfold ensure
  split <;> rfl

theorem started_ensureAll (t : Tree) (parent : Option Nat) (texts : List String) :
    (t.ensureAll parent texts).2.started = t.started := by
  induction texts generalizing t parent with
  | nil => rfl
  | cons text rest ih => exact (ih _ _).trans (t.started_ensure parent text)

/-- A resolution moves the start of the root back, if it started earlier. -/
theorem started_resolving (t : Tree) (above : List String) (own : String) (now : Int) :
    (t.resolving above own now).2.started = some (t.started.elim now (min now)) := by
  have h : ((t.ensureAll none above).2.ensure (t.ensureAll none above).1 own).2.started
      = t.started := (started_ensure _ _ own).trans (t.started_ensureAll none above)
  rw [← h]
  rfl

/-! ### The place of a path -/

/-- The place of the segment for a path.  The empty path is the root, which has none. -/
def placeFor? (t : Tree) (p : Path) : Option Nat := if p = .empty then none else t.place? p.text

theorem placeFor?_empty (t : Tree) : t.placeFor? .empty = none := if_pos rfl

theorem placeFor?_of_ne {t : Tree} {p : Path} (h : p ≠ .empty) : t.placeFor? p = t.place? p.text :=
  if_neg h

theorem placeFor?_join (t : Tree) (p : Path) (e : Element) :
    t.placeFor? (p.join e) = t.place? (p.join e).text :=
  placeFor?_of_ne (p.join_ne_empty e)

/-- A tree whose levels are those of a set of named paths, each below the one above it.  The root
stands for the empty path. -/
structure Shows (t : Tree) (shown : Path → Prop) : Prop where
  sound : t.Sound
  root : shown .empty
  named : ∀ {p : Path}, shown p → p.Named
  above : ∀ {p : Path} {e : Element}, shown (p.join e) → shown p
  /-- The level of a shown path stands below that of the path above. -/
  placed : ∀ {p : Path} {e : Element}, shown (p.join e) →
    ∃ (k : Nat) (s : Entry), t.segments[k]? = some s ∧ s.isLevel (p.join e).text ∧
      s.parent = t.placeFor? p
  /-- Every level is that of a shown path. -/
  covers : ∀ {s : Entry} {text : String}, s ∈ t.segments → s.isLevel text →
    ∃ p, p ≠ .empty ∧ shown p ∧ text = p.text

namespace Shows

variable {t : Tree} {shown : Path → Prop}

/-- A shown path hangs below the path above it. -/
theorem place_of_join (h : t.Shows shown) {p : Path} {e : Element} (hs : shown (p.join e)) :
    ∃ (k : Nat) (s : Entry), t.placeFor? (p.join e) = some k ∧ t.segments[k]? = some s ∧
      s.parent = t.placeFor? p := by
  obtain ⟨k, s, hk, hl, hp⟩ := h.placed hs
  exact ⟨k, s, (t.placeFor?_join p e).trans (h.sound.place?_eq_some_iff.mpr ⟨s, hk, hl⟩), hk, hp⟩

/-- The place for a shown path is the root or a place of the tree. -/
theorem hasPlace (_h : t.Shows shown) (p : Path) : t.HasPlace (t.placeFor? p) := by
  intro k hk
  unfold placeFor? at hk
  split at hk
  · contradiction
  · exact place?_lt hk

/-- A shown path that is not empty has a level. -/
theorem exists_place (h : t.Shows shown) {p : Path} (hp : p ≠ .empty) (hs : shown p) :
    ∃ k, t.place? p.text = some k := by
  obtain rfl | ⟨q, e, rfl⟩ := p.eq_empty_or_join
  · exact absurd rfl hp
  · obtain ⟨k, s, hk, -⟩ := h.place_of_join hs
    exact ⟨k, (t.placeFor?_join q e).symm.trans hk⟩

/-- A named path that is not shown has none. -/
theorem place?_eq_none (h : t.Shows shown) {p : Path} (hn : p.Named) (hs : ¬ shown p) :
    t.place? p.text = none := by
  rw [place?_eq_none_iff]
  intro s hm hl
  obtain ⟨q, -, hq, e⟩ := h.covers hm hl
  exact hs (Response.Path.text_injective hn (h.named hq) e ▸ hq)

/-- The place of a shown path tells the path. -/
theorem placeFor?_injective (h : t.Shows shown) {p q : Path} (hp : shown p) (hq : shown q)
    (e : t.placeFor? p = t.placeFor? q) : p = q := by
  by_cases hpe : p = .empty
  · by_contra hne
    have hqe : q ≠ .empty := fun hqe => hne (hpe.trans hqe.symm)
    obtain ⟨k, hk⟩ := h.exists_place hqe hq
    rw [hpe, placeFor?_empty, placeFor?_of_ne hqe, hk] at e
    contradiction
  · obtain ⟨k, hk⟩ := h.exists_place hpe hp
    rw [placeFor?_of_ne hpe, hk] at e
    have hqe : q ≠ .empty := by
      rintro rfl
      rw [placeFor?_empty] at e
      contradiction
    rw [placeFor?_of_ne hqe] at e
    exact Response.Path.text_injective (h.named hp) (h.named hq) (place?_inj hk e.symm)

/-- A tree without segments shows the root. -/
theorem fresh (id : Nat) (captures : Bool) :
    Shows { id, capturesScalars := captures } (· = .empty) where
  sound := .fresh id captures
  root := rfl
  named hp := hp ▸ Response.Path.named_empty
  above hs := absurd hs (Response.Path.join_ne_empty _ _)
  placed hs := absurd hs (Response.Path.join_ne_empty _ _)
  covers hm := nomatch hm

/-- The same set of paths, said differently. -/
theorem congr (h : t.Shows shown) {shown' : Path → Prop} (e : ∀ p, shown p ↔ shown' p) :
    t.Shows shown' := by
  rwa [← funext fun p => propext (e p)]

theorem noteStart (h : t.Shows shown) (now : Int) : (t.noteStart now).Shows shown :=
  ⟨⟨h.sound.parent_lt, h.sound.level_unique⟩, h.root, h.named, h.above, h.placed, h.covers⟩

theorem modify (h : t.Shows shown) (place : Nat) {f : Work → Work} (hf : Work.KeepsNested f) :
    (t.modify place f).Shows shown := by
  have hplace : ∀ p, (t.modify place f).placeFor? p = t.placeFor? p := fun p => by
    simp only [placeFor?, t.place?_modify place hf]
  have hlevel : ∀ (s : Entry) (text : String),
      Entry.isLevel { s with work := f s.work } text ↔ s.isLevel text := fun s text => by
    rw [Entry.isLevel_iff, Entry.isLevel_iff, ne_eq, hf]
  refine ⟨h.sound.modify place hf, h.root, h.named, h.above, fun hs => ?_, fun {s text} hm hl => ?_⟩
  · obtain ⟨k, s, hk, hl, hp⟩ := h.placed hs
    rw [hplace]
    refine ⟨k, if place = k then { s with work := f s.work } else s, ?_, ?_, ?_⟩
    · simp [Tree.modify, List.getElem?_modify, hk]
    · split
      · exact (hlevel s _).mpr hl
      · exact hl
    · split <;> exact hp
  · obtain ⟨k, hk⟩ := List.getElem?_of_mem hm
    simp only [Tree.modify, List.getElem?_modify, Option.map_eq_map, Option.map_eq_some_iff] at hk
    obtain ⟨r, hr, rfl⟩ := hk
    refine h.covers (List.mem_of_getElem? hr) ?_
    split at hl
    · exact (hlevel r text).mp hl
    · exact hl

/-- A level pushed below the place of the path above it shows one path more. -/
theorem push (h : t.Shows shown) {p : Path} {e : Element} (hp : shown p) (hn : (p.join e).Named)
    (hs : ¬ shown (p.join e)) :
    (t.push ⟨(p.join e).text, t.placeFor? p, .level⟩).Shows (fun q => shown q ∨ q = p.join e) := by
  have hnone := h.place?_eq_none hn hs
  -- What was shown keeps its place, so only the new level has to be looked at.
  have hstay : ∀ {q : Path}, shown q →
      (t.push ⟨(p.join e).text, t.placeFor? p, .level⟩).placeFor? q = t.placeFor? q := by
    intro q hq
    unfold placeFor?
    split
    · rfl
    · obtain ⟨k, hk⟩ := h.exists_place ‹_› hq
      rw [place?_push_of_some hk, hk]
  refine ⟨h.sound.push (h.hasPlace p) fun text hl => (Entry.isLevel_iff.mp hl).2 ▸ hnone,
    .inl h.root, ?_, ?_, ?_, ?_⟩
  · rintro q (hq | rfl)
    · exact h.named hq
    · exact hn
  · rintro q f (hq | hq)
    · exact .inl (h.above hq)
    · obtain ⟨rfl, rfl⟩ := Response.Path.join_inj.mp hq
      exact .inl hp
  · rintro q f (hq | hq)
    · obtain ⟨k, s, hk, hl, hpar⟩ := h.placed hq
      have hlt := (List.getElem?_eq_some_iff.mp hk).1
      exact ⟨k, s, (getElem?_push_of_lt hlt).trans hk, hl, hpar.trans (hstay (h.above hq)).symm⟩
    · obtain ⟨rfl, rfl⟩ := Response.Path.join_inj.mp hq
      exact ⟨t.segments.length, _, t.getElem?_push_length _,
        Entry.isLevel_iff.mpr ⟨by simp [Work.kind], rfl⟩, (hstay hp).symm⟩
  · intro s text hm hl
    rcases List.mem_append.mp hm with hm | hm
    · obtain ⟨q, hne, hq, e⟩ := h.covers hm hl
      exact ⟨q, hne, .inl hq, e⟩
    · obtain rfl := List.mem_singleton.mp hm
      exact ⟨p.join e, p.join_ne_empty e, .inr rfl, (Entry.isLevel_iff.mp hl).2.symm⟩

/-- Nested work shows no path. -/
theorem push_nested (h : t.Shows shown) {parent : Option Nat} (hp : t.HasPlace parent)
    (label : String) (clock : Clock) : (t.push ⟨label, parent, .nested clock⟩).Shows shown := by
  have hl : ∀ text, ¬ Entry.isLevel ⟨label, parent, .nested clock⟩ text := fun text hl =>
    (Entry.isLevel_iff.mp hl).1 rfl
  have hplace : ∀ p, (t.push ⟨label, parent, .nested clock⟩).placeFor? p = t.placeFor? p :=
    fun p => by simp only [placeFor?, place?_push_of_not_isLevel (hl p.text)]
  refine ⟨h.sound.push hp fun text hl' => absurd hl' (hl text), h.root, h.named, h.above,
    fun hs => ?_, fun hm hl' => ?_⟩
  · obtain ⟨k, s, hk, hs', hpar⟩ := h.placed hs
    have hlt := (List.getElem?_eq_some_iff.mp hk).1
    exact ⟨k, s, (getElem?_push_of_lt hlt).trans hk, hs', hpar.trans (hplace _).symm⟩
  · rcases List.mem_append.mp hm with hm | hm
    · exact h.covers hm hl'
    · rw [List.mem_singleton.mp hm] at hl'
      exact absurd hl' (hl _)

/-- The level below a shown path, once it was asked for. -/
theorem ensure (h : t.Shows shown) {p : Path} {e : Element} (hp : shown p) (hn : (p.join e).Named) :
    (t.ensure (t.placeFor? p) (p.join e).text).2.Shows (fun q => shown q ∨ q = p.join e) := by
  by_cases hs : shown (p.join e)
  · obtain ⟨k, hk⟩ := h.exists_place (p.join_ne_empty e) hs
    have he : t.ensure (t.placeFor? p) (p.join e).text = (k, t) := by simp [Tree.ensure, hk]
    rw [he]
    exact h.congr fun q => ⟨.inl, fun hq => hq.elim (fun hq => hq) (· ▸ hs)⟩
  · have hk := h.place?_eq_none hn hs
    have he : t.ensure (t.placeFor? p) (p.join e).text = (t.segments.length,
        t.push ⟨(p.join e).text, t.placeFor? p, .level⟩) := by simp [Tree.ensure, hk]
    rw [he]
    exact h.push hp hn hs

/-- **The levels of a path**, once they were asked for, and the place of the last of them. -/
theorem ensureAll (h : t.Shows shown) {p : Path} (hn : p.Named) :
    (t.ensureAll none p.levels).2.Shows (fun q => shown q ∨ q.Begins p) ∧
      (t.ensureAll none p.levels).1 = (t.ensureAll none p.levels).2.placeFor? p := by
  induction p using Response.Path.induction with
  | empty =>
      refine ⟨h.congr fun q => ?_, (t.placeFor?_empty).symm⟩
      rw [Response.Path.begins_empty]
      exact ⟨.inl, fun hq => hq.elim (fun hq => hq) (· ▸ h.root)⟩
  | join q e ih =>
      obtain ⟨hshows, hplace⟩ := ih (Response.Path.named_join.mp hn).1
      rw [Response.Path.levels_join, ensureAll_concat, hplace]
      refine ⟨(hshows.ensure (.inr (.refl q)) hn).congr fun r => ?_, ?_⟩
      · rw [Response.Path.begins_join, or_assoc]
      · rw [placeFor?_join, place?_ensure]

/-- **A resolution shows the beginnings of its path**, and finds its own level. -/
theorem resolving (h : t.Shows shown) {p : Path} (hn : p.Named) (hp : p ≠ .empty) (now : Int) :
    (t.resolving p.levels.dropLast p.text now).2.Shows (fun q => shown q ∨ q.Begins p) ∧
      (t.resolving p.levels.dropLast p.text now).2.placeFor? p
        = some (t.resolving p.levels.dropLast p.text now).1 := by
  obtain rfl | ⟨q, e, rfl⟩ := p.eq_empty_or_join
  · exact absurd rfl hp
  obtain ⟨hshows, hplace⟩ := h.ensureAll (Response.Path.named_join.mp hn).1
  refine ⟨?_, (placeFor?_join _ q e).trans (t.place?_resolving _ _ now)⟩
  rw [Response.Path.levels_dropLast_join, resolving_eq, hplace]
  have hens := hshows.ensure (.inr (.refl q)) hn
  refine ((hens.noteStart now).modify _ (Work.keepsNested_resolving now)).congr fun r => ?_
  rw [Response.Path.begins_join, or_assoc]

end Shows

/-! ### Calls that resolve -/

/-- Whether an open tree records a resolution: a leaf only with scalars captured, and never the
empty path. -/
def Accepts (t : Tree) (path : Path) (leaf : Bool) : Prop :=
  path ≠ .empty ∧ (leaf = false ∨ t.capturesScalars = true)

theorem Accepts.captured {t : Tree} {path : Path} {leaf : Bool} (h : t.Accepts path leaf) :
    (leaf && !t.capturesScalars) = false := by
  rcases h.2 with e | e <;> simp [e]

/-- A resolution that is accepted is recorded and given the handle on its level. -/
theorem start_of_accepts {t : Tree} (hc : t.closed = false) {path : Path} {leaf : Bool}
    (h : t.Accepts path leaf) (now : Int) :
    t.start path leaf now = ⟨(t.resolving path.levels.dropLast path.text now).2,
      some (t.handle (t.resolving path.levels.dropLast path.text now).1),
      [eventAt .trace "resolution started" path]⟩ := by
  simp [start, h.captured, Response.Path.levels_getLast? h.1, hc]

/-- One that is not accepted is refused, whether the tree is open or closed. -/
theorem start_of_not_accepts {t : Tree} {path : Path} {leaf : Bool} (h : ¬ t.Accepts path leaf)
    (now : Int) : (t.start path leaf now).tree = t ∧ (t.start path leaf now).answer = none := by
  unfold start
  split
  · exact ⟨rfl, rfl⟩
  case isFalse hleaf =>
    have hpath : path = .empty := by
      by_contra hne
      refine h ⟨hne, ?_⟩
      cases leaf <;> simp_all
    rw [hpath, Response.Path.levels_empty]
    exact ⟨rfl, rfl⟩

/-- A recorded resolution that is accepted starts and ends its level. -/
theorem record_of_accepts {t : Tree} (hc : t.closed = false) {path : Path} {leaf : Bool}
    (h : t.Accepts path leaf) (start stop : Int) :
    (t.record path leaf start stop).tree
        = (t.resolving path.levels.dropLast path.text start).2.modify
            (t.resolving path.levels.dropLast path.text start).1 (.ended stop) ∧
      (t.record path leaf start stop).answer
        = some (t.handle (t.resolving path.levels.dropLast path.text start).1) := by
  obtain ⟨hid, -, hopen⟩ := (resolving_changes t path.levels.dropLast path.text start).fixed
  simp [record, start_of_accepts hc h, close, placeOf?, handle, hid, hopen, hc]

theorem record_of_not_accepts {t : Tree} {path : Path} {leaf : Bool} (h : ¬ t.Accepts path leaf)
    (start stop : Int) : (t.record path leaf start stop).tree = t ∧
      (t.record path leaf start stop).answer = none := by
  obtain ⟨htree, hanswer⟩ := start_of_not_accepts h start
  simp [record, hanswer, htree]

/-! ### Calls that end, and nested work -/

/-- An end reaches the level of its path. -/
theorem stop_of_place? {t : Tree} (hc : t.closed = false) {path : Path} {k : Nat}
    (hk : t.place? path.text = some k) (now : Int) :
    t.stop path now = ⟨t.modify k (.ended now), (), []⟩ := by
  simp [stop, hc, hk]

/-- An end of a level that is missing changes nothing. -/
theorem stop_of_missing {t : Tree} {path : Path} (hk : t.place? path.text = none) (now : Int) :
    (t.stop path now).tree = t := by
  unfold stop
  split
  · rfl
  · rw [hk]
    rfl

/-- An end by a handle of this tree reaches its place. -/
theorem close_of_own {t : Tree} (hc : t.closed = false) {h : Handle} (hid : h.tree = t.id)
    (now : Int) : t.close h now = ⟨t.modify h.place (.ended now), (), []⟩ := by
  simp [close, placeOf?, hc, hid]

theorem close_of_foreign {t : Tree} {h : Handle} (hid : h.tree ≠ t.id) (now : Int) :
    (t.close h now).tree = t := by
  simp [close, placeOf?, hid, refuse]

/-- Nested work starts below the deepest level of its owner. -/
theorem nested_of_open {t : Tree} (hc : t.closed = false) (owner : Path) (label : String)
    (now : Int) : t.nested owner label now = t.startNested (t.closest? owner) label now := by
  simp [nested, hc]

/-- Nested work starts below the place of its handle. -/
theorem nestedIn_of_own {t : Tree} (hc : t.closed = false) {h : Handle} (hid : h.tree = t.id)
    (hlt : h.place < t.segments.length) (label : String) (now : Int) :
    t.nestedIn h label now = t.startNested (some h.place) label now := by
  simp [nestedIn, placeOf?, hc, hid, Nat.not_le.mpr hlt]

/-- Work inside a handle that is foreign, or was never given, is refused. -/
theorem nestedIn_of_unknown {t : Tree} {h : Handle}
    (hh : ¬ (h.tree = t.id ∧ h.place < t.segments.length)) (label : String) (now : Int) :
    t.nestedIn h label now = t.refuse none [] := by
  unfold nestedIn placeOf?
  by_cases hid : h.tree = t.id
  · simp only [if_pos hid]
    have hge : t.segments.length ≤ h.place := Nat.le_of_not_lt fun hlt => hh ⟨hid, hlt⟩
    simp [hge]
  · simp only [if_neg hid]

end Tree

end GraphTrace.Segment
