import GraphTrace.Document.Name
import GraphTrace.Response.Path
import Mathlib.Data.List.Induction

/-!
# Paths and their texts

A tree of segments knows a path only by its text, and its levels only by theirs.

* `Path.levels_join`: a path one step deeper has one level more, which is its own text; so the
  levels of a path are the texts of its nonempty beginnings.
* `Path.text_injective`: where every key is a GraphQL name, two paths with one text are equal.
  A name holds no point and no name reads as a number, so the text splits at its points into the
  steps, and each part tells which step it shows.

A path is `Named` when its keys are names.  The empty path is one, and its text is no level of any
other.
-/

namespace GraphTrace

/-! ### Characters of names -/

namespace Name

/-- A name starts with no digit. -/
theorem not_isDigit_of_isStart {c : Char} (h : isStart c) : c.isDigit = false := by
  have letter : ('A' ≤ c ∨ 'a' ≤ c) ∨ c = '_' := by
    have h : (decide ('A' ≤ c ∧ c ≤ 'Z') || (decide ('a' ≤ c) && decide (c ≤ 'z')) || c == '_')
        = true := h
    simp only [Bool.or_eq_true, Bool.and_eq_true, decide_eq_true_eq, beq_iff_eq] at h
    exact h.imp_left (.imp And.left And.left)
  rw [Bool.eq_false_iff, ne_eq, Char.isDigit_iff_toNat]
  rintro ⟨-, hd⟩
  -- Every letter comes after the digits.
  rcases letter with (hl | hl) | rfl
  · exact absurd (Nat.le_trans (show 'A'.toNat ≤ c.toNat from hl) hd) (by decide)
  · exact absurd (Nat.le_trans (show 'a'.toNat ≤ c.toNat from hl) hd) (by decide)
  · exact absurd hd (by decide)

/-- A name has letters, digits and underscores only. -/
theorem isPart_of_mem {text : String} (h : isValid text) {c : Char} (hc : c ∈ text.toList) :
    isPart c := by
  unfold isValid spelled at h
  split at h
  · simp at h
  case h_2 first rest e =>
    rw [Bool.and_eq_true, List.all_eq_true] at h
    rw [e, List.mem_cons] at hc
    rcases hc with rfl | hc
    · simp [isPart, h.1]
    · exact h.2 c hc

theorem ne_empty {text : String} (h : isValid text) : text ≠ "" := by
  rintro rfl; simp [isValid, spelled] at h

/-- A name has a character that names may start with. -/
theorem exists_isStart {text : String} (h : isValid text) : ∃ c ∈ text.toList, isStart c := by
  unfold isValid spelled at h
  split at h
  · simp at h
  case h_2 first rest e =>
    rw [Bool.and_eq_true] at h
    exact ⟨first, by simp [e], h.1⟩

end Name

namespace Response

/-! ### Steps -/

namespace Element

/-- A step whose key, if it is one, is a GraphQL name. -/
def Named : Element → Prop
  | .index _  => True
  | .key name => Name.isValid name

instance : DecidablePred Named
  | .index _  => .isTrue trivial
  | .key name => inferInstanceAs (Decidable (Name.isValid name = true))

theorem isDigit_of_mem_repr {n : Nat} {c : Char} (h : c ∈ n.repr.toList) : c.isDigit := by
  rw [Nat.toList_repr] at h
  exact Nat.isDigit_of_mem_toDigits (by decide) (by decide) h

theorem text_ne_empty {e : Element} (h : e.Named) : e.text ≠ "" := by
  cases e with
  | index i => exact Nat.repr_ne_empty
  | key name => exact Name.ne_empty h

/-- There is no point in the text of a named element. -/
theorem point_notMem_text {e : Element} (h : e.Named) : '.' ∉ e.text.toList := by
  intro hc
  cases e with
  | index i => exact absurd (isDigit_of_mem_repr hc) (by decide)
  | key name => exact absurd (Name.isPart_of_mem h hc) (by decide)

/-- A name shows no index. -/
theorem text_key_ne_text_index {name : String} (h : Name.isValid name) (i : UInt64) :
    (key name).text ≠ (index i).text := by
  intro e
  obtain ⟨c, hc, hs⟩ := Name.exists_isStart h
  have hd : c.isDigit := isDigit_of_mem_repr (show c ∈ (index i).text.toList from e ▸ hc)
  rw [Name.not_isDigit_of_isStart hs] at hd
  contradiction

/-- Named elements are told apart by their texts: a name is no number. -/
theorem text_injective {e e' : Element} (h : e.Named) (h' : e'.Named) (ht : e.text = e'.text) :
    e = e' := by
  cases e with
  | index i =>
      cases e' with
      | index j =>
          have hn : i.toNat = j.toNat := by
            rw [← Nat.ofDigitChars_ten_toDigits (n := i.toNat), ← Nat.toList_repr,
              show i.toNat.repr = j.toNat.repr from ht, Nat.toList_repr,
              Nat.ofDigitChars_ten_toDigits]
          rw [UInt64.toNat_inj.mp hn]
      | key name => exact absurd ht.symm (text_key_ne_text_index h' i)
  | key name =>
      cases e' with
      | index j => exact absurd ht (text_key_ne_text_index h j)
      | key name' => exact congrArg key ht

theorem map_text_injective {es fs : List Element} (h : ∀ e ∈ es, e.Named) (h' : ∀ e ∈ fs, e.Named)
    (ht : es.map text = fs.map text) : es = fs := by
  induction es generalizing fs with
  | nil => simpa using ht.symm
  | cons e rest ih =>
      cases fs with
      | nil => simp at ht
      | cons f rest' =>
          obtain ⟨he, hrest⟩ := List.cons.inj ht
          rw [text_injective (h e (by simp)) (h' f (by simp)) he,
            ih (fun x hx => h x (by simp [hx])) (fun x hx => h' x (by simp [hx])) hrest]

end Element

/-! ### Paths -/

namespace Path

/-- A path whose keys are GraphQL names. -/
def Named (p : Path) : Prop := ∀ e ∈ p.elements, e.Named

instance (p : Path) : Decidable p.Named := inferInstanceAs (Decidable (∀ e ∈ p.elements, e.Named))

theorem named_empty : empty.Named := fun _ h => nomatch h

/-- A path is named if each of its elements is. -/
theorem named_join {p : Path} {e : Element} : (p.join e).Named ↔ p.Named ∧ e.Named := by
  simp only [Named, join, List.mem_append, List.mem_singleton]
  exact ⟨fun h => ⟨fun x hx => h x (.inl hx), h e (.inr rfl)⟩,
    fun h x hx => hx.elim (h.1 x) (· ▸ h.2)⟩

/-- A path is the response itself or one step deeper than another. -/
theorem eq_empty_or_join (p : Path) : p = empty ∨ ∃ (q : Path) (e : Element), p = q.join e := by
  obtain ⟨elements⟩ := p
  rcases List.eq_nil_or_concat elements with rfl | ⟨shorter, e, rfl⟩
  · exact .inl rfl
  · exact .inr ⟨⟨shorter⟩, e, by simp [Path.join]⟩

/-- **Induction on a path**, from the response itself one step deeper at a time. -/
theorem induction {motive : Path → Prop} (empty : motive empty)
    (join : ∀ (q : Path) (e : Element), motive q → motive (q.join e)) (p : Path) : motive p := by
  obtain ⟨elements⟩ := p
  induction elements using List.reverseRecOn with
  | nil => exact empty
  | append_singleton shorter e ih => exact join ⟨shorter⟩ e ih

theorem join_ne_empty (p : Path) (e : Element) : p.join e ≠ empty := by
  simp [join, empty]

theorem join_inj {p q : Path} {e f : Element} : p.join e = q.join f ↔ p = q ∧ e = f := by
  obtain ⟨ps⟩ := p
  obtain ⟨qs⟩ := q
  simp [join]

theorem text_empty : empty.text = "" := rfl

theorem text_empty_join (e : Element) : (empty.join e).text = e.text := by
  simp [text, join, empty]

/-- An element is shown behind a point. -/
theorem text_join {p : Path} (h : p ≠ empty) (e : Element) :
    (p.join e).text = p.text ++ "." ++ e.text := by
  obtain ⟨elements⟩ := p
  have hne : elements.map Element.text ≠ [] := by
    rintro e; exact h (by simpa [empty] using e)
  simp only [text, join, List.map_append, List.map_cons, List.map_nil]
  rw [String.intercalate_append_of_ne_nil hne (by simp), String.intercalate_singleton]

/-- The text of a named path that is not empty. -/
theorem text_ne_empty {p : Path} (h : p.Named) (hp : p ≠ empty) : p.text ≠ "" := by
  obtain rfl | ⟨q, e, rfl⟩ := p.eq_empty_or_join
  · exact absurd rfl hp
  · have he := Element.text_ne_empty (named_join.mp h).2
    by_cases hq : q = empty
    · rwa [hq, text_empty_join]
    · rw [text_join hq]
      intro e
      simp at e

/-- **The text of a path tells the path**, where keys are names. -/
theorem text_injective {p q : Path} (hp : p.Named) (hq : q.Named) (h : p.text = q.text) :
    p = q := by
  by_cases ep : p = empty
  · by_contra hne
    exact text_ne_empty hq (fun eq => hne (ep.trans eq.symm)) (by rw [← h, ep, text_empty])
  by_cases eq : q = empty
  · exact absurd (by rw [h, eq, text_empty]) (text_ne_empty hp ep)
  obtain ⟨ps⟩ := p
  obtain ⟨qs⟩ := q
  -- The texts of the steps come back when the text is split at its points.
  have parts : ∀ {es : List Element}, (Path.mk es).Named → Path.mk es ≠ empty →
      ((Path.mk es).text.toList.splitOn '.') = es.map (·.text.toList) := by
    intro es hn hne
    have hs : ∀ l ∈ es.map (·.text.toList), '.' ∉ l := by
      intro l hl
      obtain ⟨e, he, rfl⟩ := List.mem_map.mp hl
      exact Element.point_notMem_text (hn e he)
    have hes : es.map (·.text.toList) ≠ [] := by
      intro e; exact hne (by simpa [empty] using e)
    rw [text, String.toList_intercalate, List.map_map]
    exact List.splitOn_intercalate '.' hs hes
  have ht : ps.map Element.text = qs.map Element.text := by
    have := (parts hp ep).symm.trans ((congrArg (·.toList.splitOn '.') h).trans (parts hq eq))
    refine List.map_inj_right (f := String.toList) (fun _ _ => String.toList_inj.mp) |>.mp ?_
    rw [List.map_map, List.map_map]
    exact this
  congr 1
  exact Element.map_text_injective hp hq ht

/-! ### Levels -/

theorem levels_empty : empty.levels = [] := rfl

theorem text_cons (x : Element) {es : List Element} (h : es ≠ []) :
    (Path.mk (x :: es)).text = x.text ++ "." ++ (Path.mk es).text := by
  simp only [text, List.map_cons]
  exact String.intercalate_cons_of_ne_nil (by simpa using h)

/-- The last level is the text of the whole path. -/
theorem levelsBelow_append_singleton (above : String) (es : List Element) (e : Element) :
    levelsBelow above (es ++ [e])
      = levelsBelow above es ++ [above ++ "." ++ (Path.mk (es ++ [e])).text] := by
  induction es generalizing above with
  | nil => simp [levelsBelow, text]
  | cons x rest ih =>
      simp only [List.cons_append, levelsBelow, ih]
      rw [text_cons x (by simp)]
      simp only [String.append_assoc]

/-- **Levels are texts.**  The path one step deeper has its own text as its last level. -/
theorem levels_join (p : Path) (e : Element) :
    (p.join e).levels = p.levels ++ [(p.join e).text] := by
  obtain ⟨elements⟩ := p
  cases elements with
  | nil => simp [levels, levelsBelow, join, text]
  | cons x rest =>
      simp only [levels, join, List.cons_append, levelsBelow_append_singleton]
      rw [text_cons x (by simp)]

/-- The levels above the last one are those of the path above. -/
theorem levels_dropLast_join (p : Path) (e : Element) : (p.join e).levels.dropLast = p.levels := by
  rw [levels_join, List.dropLast_concat]

/-- The last level of a path is the path itself. -/
theorem levels_getLast? {p : Path} (h : p ≠ empty) : p.levels.getLast? = some p.text := by
  obtain rfl | ⟨q, e, rfl⟩ := p.eq_empty_or_join
  · exact absurd rfl h
  · rw [levels_join, List.getLast?_concat]

/-! ### Beginnings -/

/-- Whether `q` is a beginning of `p`: the root, a level above it, or `p` itself. -/
def Begins (q p : Path) : Prop := q.elements <+: p.elements

theorem Begins.refl (p : Path) : p.Begins p := List.prefix_refl _

theorem begins_empty {q : Path} : q.Begins empty ↔ q = empty := by
  obtain ⟨elements⟩ := q
  simp [Begins, empty]

/-- A beginning of a longer path is the path or a beginning of the one above it. -/
theorem begins_join {q p : Path} {e : Element} :
    q.Begins (p.join e) ↔ q.Begins p ∨ q = p.join e := by
  obtain ⟨qs⟩ := q
  obtain ⟨ps⟩ := p
  simp only [Begins, join, List.prefix_concat_iff, Path.mk.injEq]
  exact or_comm

end Path

end Response

end GraphTrace
