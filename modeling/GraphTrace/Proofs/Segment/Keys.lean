import GraphTrace.Proofs.Segment.Levels

/-!
# Paths as keys

A tree finds its levels by text, and it makes the texts in two ways: the levels of a path grow from
one another, and the end of a resolution is looked up under the text of the whole path.  The two
agree for all paths, empty keys included (`getElem?_levels`): level by level, the texts are those of
the beginnings of the path, so the last level is the text of the path.

Where keys are names a text stands for one path only, so the levels of a path tell which paths are
beginnings of it (`begins_iff_mem_levels`).  The response itself begins every path, and it has no
level.
-/

namespace GraphTrace

namespace Response.Path

/-- The first `n` steps of a path. -/
def upTo (p : Path) (n : Nat) : Path := ⟨p.elements.take n⟩

/-- The beginnings of a path are also those of a longer one. -/
theorem upTo_join {p : Path} {n : Nat} (h : n ≤ p.elements.length) (e : Element) :
    (p.join e).upTo n = p.upTo n := by
  rw [upTo, join, List.take_append_of_le_length h, ← upTo]

/-- A path of its full length is the path. -/
theorem upTo_length (p : Path) : p.upTo p.elements.length = p := by
  rw [upTo, List.take_length]

/-! ### Levels are texts of beginnings -/

/-- A path has a level for each element. -/
theorem length_levels (p : Path) : p.levels.length = p.elements.length := by
  induction p using Path.induction with
  | empty => rfl
  | join q e ih =>
      rw [levels_join, List.length_append, ih]
      simp [join]

/-- **The levels of a path** are the texts of its beginnings, one for each step. -/
theorem getElem?_levels {p : Path} {i : Nat} (h : i < p.elements.length) :
    p.levels[i]? = some (p.upTo (i + 1)).text := by
  induction p using Path.induction with
  | empty => exact absurd h (Nat.not_lt_zero i)
  | join q e ih =>
      have hlen : (q.join e).elements.length = q.elements.length + 1 := by simp [join]
      rw [levels_join]
      rcases Nat.lt_succ_iff_lt_or_eq.mp (hlen ▸ h) with hi | rfl
      · rw [List.getElem?_append_left (by rwa [length_levels]), ih hi, upTo_join hi]
      · rw [← hlen, upTo_length, ← length_levels q, List.getElem?_concat_length]

/-- A level is the text of a beginning that is not the response itself. -/
theorem mem_levels_iff {p : Path} {text : String} :
    text ∈ p.levels ↔ ∃ q : Path, q ≠ empty ∧ q.Begins p ∧ q.text = text := by
  induction p using Path.induction with
  | empty => simp +contextual [levels_empty, begins_empty]
  | join r e ih =>
      rw [levels_join, List.mem_append, ih, List.mem_singleton]
      constructor
      · rintro (⟨q, hq, hb, ht⟩ | rfl)
        · exact ⟨q, hq, begins_join.mpr (.inl hb), ht⟩
        · exact ⟨r.join e, join_ne_empty r e, begins_join.mpr (.inr rfl), rfl⟩
      · rintro ⟨q, hq, hb, rfl⟩
        rcases begins_join.mp hb with hb | rfl
        · exact .inl ⟨q, hq, hb, rfl⟩
        · exact .inr rfl

/-! ### Texts tell paths -/

/-- The beginnings of a named path are named. -/
theorem Begins.named {q p : Path} (h : q.Begins p) (hp : p.Named) : q.Named :=
  fun e he => hp e (h.subset he)

/-- **The levels of a named path tell its beginnings.** -/
theorem begins_iff_mem_levels {p q : Path} (hp : p.Named) (hq : q.Named) :
    p.Begins q ↔ p = empty ∨ p.text ∈ q.levels := by
  rw [mem_levels_iff]
  constructor
  · intro h
    by_cases he : p = empty
    · exact .inl he
    · exact .inr ⟨p, he, h, rfl⟩
  · rintro (rfl | ⟨r, -, hr, ht⟩)
    · exact List.nil_prefix
    · exact text_injective (hr.named hq) hp ht ▸ hr

/-- The levels of a path, whatever its keys. -/
structure ShownByLevels (p : Path) : Prop where
  /-- There is one for each step. -/
  length : p.levels.length = p.elements.length
  /-- Each is the text of the steps down to it. -/
  level : ∀ i < p.elements.length, p.levels[i]? = some (p.upTo (i + 1)).text
  /-- The last one is the text of the path. -/
  last : p ≠ empty → p.levels.getLast? = some p.text

/-- A level is the text of the beginning that ends there. -/
theorem shownByLevels (p : Path) : p.ShownByLevels :=
  ⟨length_levels p, fun _ => getElem?_levels, levels_getLast?⟩

end Response.Path

namespace Segment

open Response (Path Element)

/-- What ends when a resolution is reported to have ended is what is found under the last level of
its path. -/
def Tree.EndsLastLevel (t : Tree) (p : Path) : Prop :=
  ∀ (now : Int), ∀ own ∈ p.levels.getLast?,
    (t.stop p now).tree = (t.place? own).elim t fun place => t.modify place (.ended now)

/-- An end reported by a path reaches the last level of that path. -/
theorem Tree.endsLastLevel {t : Tree} (hc : t.closed = false) (p : Path) : t.EndsLastLevel p := by
  intro now own hown
  obtain rfl | hp := eq_or_ne p .empty
  · contradiction
  rw [Path.levels_getLast? hp] at hown
  obtain rfl := Option.some.inj hown
  cases hk : t.place? p.text with
  | none => exact stop_of_missing hk now
  | some place => rw [stop_of_place? hc hk, Option.elim_some]

/-- **Levels are the texts of beginnings**, for all paths; the last one is what the end of a
resolution is looked up under.  Where keys are names, a text tells the path, no key shows an index,
and the levels of a path tell its beginnings. -/
theorem levels_are_texts :
    (∀ p : Path, p.ShownByLevels) ∧
      (∀ t : Tree, t.closed = false → ∀ p : Path, t.EndsLastLevel p) ∧
      (∀ p q : Path, p.Named → q.Named →
        (p.text = q.text ↔ p = q) ∧ (p.Begins q ↔ p = .empty ∨ p.text ∈ q.levels)) ∧
      ∀ (name : String) (i : UInt64), Name.isValid name →
        (Element.key name).text ≠ (Element.index i).text :=
  ⟨Path.shownByLevels, fun _ hc => Tree.endsLastLevel hc,
    fun _ _ hp hq => ⟨⟨Path.text_injective hp hq, congrArg Path.text⟩,
      Path.begins_iff_mem_levels hp hq⟩,
    fun _ i h => Element.text_key_ne_text_index h i⟩

/-- The path of a title in a list. -/
def titlePath : Path := ⟨[.key "books", .index 0, .key "title"]⟩

/-- The levels of a path with keys and an index, which is told apart from a key. -/
theorem levels_are_texts_title :
    titlePath.levels[1]? = some (titlePath.upTo 2).text ∧
      (Tree.mk 0 true false none []).EndsLastLevel titlePath ∧
      (titlePath.upTo 2).Named ∧ titlePath.Named ∧ (titlePath.upTo 2).Begins titlePath ∧
      Name.isValid "title" ∧ (Element.key "title").text ≠ (Element.index 0).text := by
  have hlevel := (levels_are_texts.1 titlePath).level 1 (by decide)
  have hp : (titlePath.upTo 2).Named := by decide +kernel
  have hq : titlePath.Named := by decide +kernel
  have hname : Name.isValid "title" := by decide +kernel
  have hbegins := ((levels_are_texts.2.2.1 _ _ hp hq).2).mpr (.inr (List.mem_of_getElem? hlevel))
  exact ⟨hlevel, levels_are_texts.2.1 _ rfl titlePath, hp, hq, hbegins, hname,
    levels_are_texts.2.2.2 _ 0 hname⟩

end Segment

end GraphTrace
