import GraphTrace.Duration
import GraphTrace.Proofs.Response.Text

/-!
# What a duration in words is worth

Each part of a duration in words is a number and the name of a unit, and it is worth so many of the
unit (`worth_count`).  The parts together are worth the duration (`worthOf_text`): every unit leaves
the next ones less than one of its own, and the smallest unit leaves nothing.

So distinct durations have distinct words (`text_injective`).
-/

namespace GraphTrace.Duration

/-! ### What words are worth -/

/-- Whether a name is that of a unit, for one of it or for several. -/
def Unit.isNamed (u : Unit) (name : List Char) : Bool :=
  name = u.name.toList || u.pluralised && name = u.name.toList ++ ['s']

/-- The nanoseconds of the unit with a name. -/
def nanosecondsOf (name : List Char) : Nat :=
  ((units.find? (·.isNamed name)).map (·.nanoseconds)).getD 0

/-- What a number with the name of a unit is worth. -/
def worth (part : List Char) : Nat :=
  Nat.ofDigitChars 10 (part.takeWhile Char.isDigit) 0
    * nanosecondsOf (part.dropWhile Char.isDigit)

/-- What several parts are worth together. -/
def total : List (List Char) → Nat
  | []            => 0
  | part :: parts => worth part + total parts

/-- What a duration in words is worth. -/
def worthOf (words : String) : Nat := total (words.toList.splitOn ' ')

/-! ### The parts of a duration -/

/-- The name of a unit as it stands after a number. -/
def Unit.nameAfter (u : Unit) (n : Nat) : List Char :=
  u.name.toList ++ if u.pluralised && n != 1 then ['s'] else []

theorem toList_count (u : Unit) (n : Nat) :
    (u.count n).toList = n.repr.toList ++ u.nameAfter n := by
  rw [Unit.count, Unit.nameAfter, String.toList_append, String.toList_append, List.append_assoc]
  split <;> rfl

/-- The name of a unit after a number is found as the unit's, starts with no digit and holds no
space. -/
theorem nameAfter_of_mem {u : Unit} (hu : u ∈ units) (n : Nat) :
    nanosecondsOf (u.nameAfter n) = u.nanoseconds ∧
      (u.nameAfter n).takeWhile Char.isDigit = [] ∧
      (u.nameAfter n).dropWhile Char.isDigit = u.nameAfter n ∧ ' ' ∉ u.nameAfter n := by
  have names : ∀ u ∈ units, ∀ several : Bool, ∀ name : List Char,
      name = (u.name.toList ++ if u.pluralised && several then ['s'] else []) →
      nanosecondsOf name = u.nanoseconds ∧ name.takeWhile Char.isDigit = [] ∧
        name.dropWhile Char.isDigit = name ∧ ' ' ∉ name := by
    simp only [forall_eq]
    decide +kernel
  exact names u hu (n != 1) _ rfl

/-- **A part** is worth its number of its unit. -/
theorem worth_count {u : Unit} (hu : u ∈ units) (n : Nat) :
    worth (u.count n).toList = n * u.nanoseconds := by
  obtain ⟨hname, htake, hdrop, -⟩ := nameAfter_of_mem hu n
  have hdigits : ∀ c ∈ n.repr.toList, c.isDigit = true :=
    fun _ => Response.Element.isDigit_of_mem_repr
  rw [worth, toList_count, List.takeWhile_append_of_pos hdigits,
    List.dropWhile_append_of_pos hdigits, htake, hdrop, hname, List.append_nil, Nat.toList_repr,
    Nat.ofDigitChars_ten_toDigits]

theorem space_notMem_count {u : Unit} (hu : u ∈ units) (n : Nat) :
    ' ' ∉ (u.count n).toList := by
  rw [toList_count, List.mem_append, not_or]
  exact ⟨fun h => absurd (Response.Element.isDigit_of_mem_repr h) (by decide),
    (nameAfter_of_mem hu n).2.2.2⟩

/-- The parts in some units, with what these units leave over. -/
theorem total_parts_add (us : List Unit) (h : ∀ u ∈ us, u ∈ units) (n : Nat) :
    total ((parts us n).map String.toList) + us.foldl (fun n u => n % u.nanoseconds) n = n := by
  induction us generalizing n with
  | nil => exact Nat.zero_add n
  | cons u us ih =>
      obtain ⟨hu, hus⟩ := List.forall_mem_cons.mp h
      have hrest := ih hus (n % u.nanoseconds)
      have hdiv := Nat.div_add_mod' n u.nanoseconds
      rw [parts, List.foldl_cons]
      split
      case isTrue hzero =>
        rw [hzero, Nat.zero_mul, Nat.zero_add] at hdiv
        rw [hrest, hdiv]
      case isFalse =>
        rw [List.map_cons, total, worth_count hu, Nat.add_assoc, hrest, hdiv]

/-- The parts of a duration are worth the duration. -/
theorem total_parts_units (n : Nat) : total ((parts units n).map String.toList) = n := by
  have h := total_parts_add units (fun _ hu => hu) n
  -- The last unit is one nanosecond.
  have hnone : units.foldl (fun n u => n % u.nanoseconds) n = 0 := Nat.mod_one _
  rwa [hnone, Nat.add_zero] at h

/-- There is no space in a part. -/
theorem space_notMem_parts {us : List Unit} (h : ∀ u ∈ us, u ∈ units) {n : Nat} :
    ∀ part ∈ parts us n, ' ' ∉ part.toList := by
  induction us generalizing n with
  | nil => exact List.forall_mem_nil _
  | cons u us ih =>
      obtain ⟨hu, hus⟩ := List.forall_mem_cons.mp h
      rw [parts]
      split
      · exact ih hus
      · exact List.forall_mem_cons.mpr ⟨space_notMem_count hu _, ih hus⟩

/-! ### Durations -/

/-- **The words of a duration** are worth the duration. -/
theorem worthOf_text (n : Nat) : worthOf (text n) = n := by
  unfold text
  split
  case isTrue h => exact h ▸ by decide +kernel
  case isFalse h =>
    have htotal := total_parts_units n
    have hne : (parts units n).map String.toList ≠ [] := by
      intro e
      rw [e] at htotal
      exact h htotal.symm
    have hspace : ∀ l ∈ (parts units n).map String.toList, ' ' ∉ l := by
      intro l hl
      obtain ⟨part, hpart, rfl⟩ := List.mem_map.mp hl
      exact space_notMem_parts (fun _ hu => hu) part hpart
    have hblank : (" " : String).toList = [' '] := rfl
    rw [worthOf, String.toList_intercalate, hblank, List.splitOn_intercalate ' ' hspace hne, htotal]

/-- **Distinct durations have distinct words.** -/
theorem text_injective : Function.Injective text := Function.LeftInverse.injective worthOf_text

end GraphTrace.Duration
