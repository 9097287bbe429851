import GraphTrace.Proofs.Json.RoundTrip
import GraphTrace.Response.Path
import Mathlib.Data.Set.List

/-!
# Paths as JSON

A step is written without a mark of what it is: a key is a string and an index is an integer, and
neither can be taken for the other, whatever the key spells.  So a value stands for at most one step
(`Element.ofJson?_eq_some_iff`) and for at most one path (`ofJson_eq_ok_iff`): the one that is
written as the value.

The values that stand for paths are the arrays of strings and of integers that fit 64 unsigned bits
(`IsPath`).  Reading and writing are inverse between these values and the paths, and the text of a
path is read as such a value (`survives_json`).
-/

namespace GraphTrace.Response

/-! ### Steps -/

namespace Element

/-- A value that stands for a step: a string, or an integer that fits 64 unsigned bits. -/
inductive IsStep : Json → Prop where
  | key (name : String) : IsStep (.string name)
  | index {n : Int} (h : 0 ≤ n) (h' : n < 2 ^ 64) : IsStep (.integer n)

/-- An element is read back. -/
theorem ofJson?_toJson (e : Element) : ofJson? e.toJson = some e := by
  cases e with
  | key name => rfl
  | index i =>
      have hlt : (i.toNat : Int) < 0x10000000000000000 := by
        have := i.toNat_lt
        omega
      rw [toJson, Json.integer, ofJson?, if_pos ⟨Int.natCast_nonneg _, hlt⟩, Int.toNat_natCast,
        UInt64.ofNat_toNat]

/-- An integer in bounds is what its index is written as. -/
theorem toJson_index {n : Int} (h : 0 ≤ n) (h' : n < 2 ^ 64) :
    (index (.ofNat n.toNat)).toJson = .integer n := by
  rw [toJson, UInt64.toNat_ofNat_of_lt' (by simp only [UInt64.size]; omega), Int.toNat_of_nonneg h]

/-- **A value stands for the step** that is written as the value, and for no other. -/
theorem ofJson?_eq_some_iff {v : Json} {e : Element} : ofJson? v = some e ↔ v = e.toJson := by
  refine ⟨fun h => ?_, fun h => h ▸ ofJson?_toJson e⟩
  unfold ofJson? at h
  split at h
  case h_1 n =>
    split at h
    case isTrue hn =>
      obtain rfl := Option.some.inj h
      exact (toJson_index hn.1 hn.2).symm
    case isFalse => contradiction
  case h_2 name =>
    obtain rfl := Option.some.inj h
    rfl
  case h_3 => contradiction

theorem isStep_toJson (e : Element) : IsStep e.toJson := by
  cases e with
  | key name => exact .key name
  | index i =>
      have := i.toNat_lt
      exact .index (Int.natCast_nonneg _) (by omega)

/-- Every step is written for some element. -/
theorem IsStep.exists_toJson {v : Json} (h : IsStep v) : ∃ e : Element, e.toJson = v := by
  cases h with
  | key name => exact ⟨.key name, rfl⟩
  | index h h' => exact ⟨_, toJson_index h h'⟩

/-- What a step is written as is canonical, wherever it stands. -/
theorem canonical_toJson (e : Element) (limit : Nat) : Json.Canonical limit e.toJson := by
  cases e with
  | key name => exact .string name
  | index i =>
      have := i.toNat_lt
      exact .number (by simp only [Json.Number.Canonical, Json.Number.fits, Bool.and_eq_true,
        decide_eq_true_eq]; omega)

end Element

/-! ### Paths -/

namespace Path

/-- A value that stands for a path: an array of steps. -/
inductive IsPath : Json → Prop where
  | array {items : List Json} (h : ∀ item ∈ items, Element.IsStep item) : IsPath (.array items)

theorem mapM_ofJson?_eq_some_iff {items : List Json} {elements : List Element} :
    items.mapM Element.ofJson? = some elements ↔ items = elements.map Element.toJson := by
  induction items generalizing elements with
  | nil => cases elements <;> simp
  | cons item items ih =>
      rw [List.mapM_cons]
      simp only [Option.bind_eq_bind, Option.bind_eq_some_iff, Element.ofJson?_eq_some_iff, ih,
        Option.pure_def, Option.some.injEq]
      constructor
      · rintro ⟨e, rfl, es, rfl, rfl⟩
        rfl
      · intro h
        cases elements with
        | nil => contradiction
        | cons e es =>
            obtain ⟨he, hes⟩ := List.cons.inj h
            exact ⟨e, he, es, hes, rfl⟩

/-- **A value stands for the path** that is written as the value, and for no other. -/
theorem ofJson_eq_ok_iff {v : Json} {p : Path} : ofJson v = .ok p ↔ v = p.toJson := by
  cases v with
  | array items =>
      obtain ⟨elements⟩ := p
      rw [toJson, Json.array.injEq, ← mapM_ofJson?_eq_some_iff, ofJson]
      cases items.mapM Element.ofJson? <;> simp
  | null | boolean | number | string | object => simp [ofJson, toJson]

/-- The values that are paths are those written for one. -/
theorem isPath_iff {v : Json} : IsPath v ↔ ∃ p : Path, v = p.toJson := by
  constructor
  · rintro @⟨items, h⟩
    have hrange : items ∈ Set.range (List.map Element.toJson) := by
      rw [Set.range_list_map]
      exact fun item hi => (h item hi).exists_toJson
    obtain ⟨elements, rfl⟩ := hrange
    exact ⟨⟨elements⟩, rfl⟩
  · rintro ⟨p, rfl⟩
    refine .array fun item hi => ?_
    obtain ⟨e, -, rfl⟩ := List.mem_map.mp hi
    exact e.isStep_toJson

/-- **The text of a path** is read as what the path is written as. -/
theorem ofBytes_text_toJson (p : Path) : Json.ofBytes p.toJson.text.toUTF8 = .ok p.toJson := by
  refine Json.ofBytes_toUTF8 (.array fun item hi => ?_)
  obtain ⟨e, -, rfl⟩ := List.mem_map.mp hi
  exact e.canonical_toJson _

/-- **Paths survive JSON.**  A path is read from what it is written as, value or text; and a value
is read just if it is an array of steps, and then it is what the path is written as. -/
theorem survives_json :
    (∀ p : Path, ofJson p.toJson = .ok p ∧
      ∃ v, Json.ofBytes p.toJson.text.toUTF8 = .ok v ∧ ofJson v = .ok p) ∧
    ∀ v : Json, ((∃ p, ofJson v = .ok p) ↔ IsPath v) ∧ ∀ p, ofJson v = .ok p → p.toJson = v := by
  refine ⟨fun p => ?_, fun v => ⟨?_, fun p h => (ofJson_eq_ok_iff.mp h).symm⟩⟩
  · have hread : ofJson p.toJson = .ok p := ofJson_eq_ok_iff.mpr rfl
    exact ⟨hread, p.toJson, p.ofBytes_text_toJson, hread⟩
  · simp only [ofJson_eq_ok_iff, isPath_iff]

/-- An empty key, a key of digits, the index of these digits, and the greatest index. -/
def digitsPath : Path := ⟨[.key "", .key "0", .index 0, .index 0xFFFFFFFFFFFFFFFF]⟩

/-- A path with digits as a key and the largest index. -/
theorem survives_json_digits :
    IsPath (.array [.string "", .string "0", .integer 0, .integer 0xFFFFFFFFFFFFFFFF]) ∧
      ofJson (.array [.string "", .string "0", .integer 0, .integer 0xFFFFFFFFFFFFFFFF])
        = .ok digitsPath ∧
      digitsPath.toJson
        = .array [.string "", .string "0", .integer 0, .integer 0xFFFFFFFFFFFFFFFF] := by
  have hread : ofJson (.array [.string "", .string "0", .integer 0, .integer 0xFFFFFFFFFFFFFFFF])
      = .ok digitsPath := rfl
  have h := survives_json.2
    (.array [.string "", .string "0", .integer 0, .integer 0xFFFFFFFFFFFFFFFF])
  exact ⟨h.1.mp ⟨_, hread⟩, hread, h.2 _ hread⟩

end Path

end GraphTrace.Response
