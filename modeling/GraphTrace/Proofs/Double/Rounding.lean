import GraphTrace.Double.Shortest
import Mathlib.Algebra.Order.Field.Power
import Mathlib.Algebra.Order.Floor.Semifield
import Mathlib.Data.Int.Log
import Mathlib.Data.Rat.Floor
import Mathlib.Tactic.FieldSimp
import Mathlib.Tactic.GCongr
import Mathlib.Tactic.Linarith
import Mathlib.Tactic.NormNum
import Mathlib.Tactic.Positivity
import Mathlib.Tactic.Ring

/-!
# Rounding to a double

The numbers that round to the magnitude of a double are those between the halves of the gaps to its
neighbours, where an end belongs to them if the mantissa is even (`RoundsTo`).  The gap below a
power of two is half as wide as the gap above it, unless the double is among the least ones.

`ofFraction?` gives the double for every fraction among them (`ofFraction?_of_roundsTo`).  The unit
that it rounds at is the double's own, but for a fraction just below a power of two: there it is one
less, and the mantissa is rounded up to one bit too many and carried.
-/

namespace GraphTrace.Double

/-! ### Fractions -/

/-- A power as a quotient of powers with natural exponents. -/
theorem pow_toNat_div {b : ℕ} (hb : b ≠ 0) (e : ℤ) :
    ((b ^ e.toNat : ℕ) : ℚ) / ((b ^ (-e).toNat : ℕ) : ℚ) = (b : ℚ) ^ e := by
  have hb' : (b : ℚ) ≠ 0 := Nat.cast_ne_zero.mpr hb
  rw [Nat.cast_pow, Nat.cast_pow, ← zpow_natCast, ← zpow_natCast, ← zpow_sub₀ hb']
  congr 1
  omega

/-- Moving a fraction to a binary place divides it by the power of that place. -/
theorem atPlace_div (num den : ℕ) (place : ℤ) :
    ((atPlace num den place).1 : ℚ) / (atPlace num den place).2 = num / den / 2 ^ place := by
  have h := pow_toNat_div two_ne_zero (-place)
  rw [neg_neg, Nat.cast_ofNat] at h
  calc ((num * 2 ^ (-place).toNat : ℕ) : ℚ) / ((den * 2 ^ place.toNat : ℕ) : ℚ)
      = num / den * (((2 ^ (-place).toNat : ℕ) : ℚ) / ((2 ^ place.toNat : ℕ) : ℚ)) := by
        rw [Nat.cast_mul, Nat.cast_mul, mul_div_mul_comm]
    _ = num / den / 2 ^ place := by rw [h, zpow_neg, div_eq_mul_inv _ ((2 : ℚ) ^ place)]

theorem atPlace_pos {den : ℕ} (hden : 0 < den) (num : ℕ) (place : ℤ) :
    0 < (atPlace num den place).2 :=
  Nat.mul_pos hden (Nat.pow_pos two_pos)

/-- The binary exponent is the one between two powers. -/
theorem log_eq {x : ℚ} {e : ℤ} (hle : 2 ^ e ≤ x) (hlt : x < 2 ^ (e + 1)) : Int.log 2 x = e := by
  have hx : 0 < x := lt_of_lt_of_le (zpow_pos two_pos e) hle
  have h₁ := (Int.zpow_le_iff_le_log one_lt_two hx).mp (by exact_mod_cast hle)
  have h₂ := (Int.lt_zpow_iff_log_lt one_lt_two hx).mp (by exact_mod_cast hlt)
  omega

/-- The binary exponent is the binary logarithm, rounded down. -/
theorem binaryExponent_eq_log {num den : ℕ} (hnum : 0 < num) (hden : 0 < den) :
    binaryExponent num den = Int.log 2 ((num : ℚ) / den) := by
  have hden' : (0 : ℚ) < den := Nat.cast_pos.mpr hden
  have hnumLow : (2 : ℚ) ^ (num.log2 : ℤ) ≤ num := by
    rw [zpow_natCast]; exact_mod_cast Nat.log2_self_le hnum.ne'
  have hnumHigh : (num : ℚ) < 2 ^ (num.log2 + 1 : ℤ) := by
    exact_mod_cast Nat.lt_log2_self (n := num)
  have hdenLow : (2 : ℚ) ^ (den.log2 : ℤ) ≤ den := by
    rw [zpow_natCast]; exact_mod_cast Nat.log2_self_le hden.ne'
  have hdenHigh : (den : ℚ) < 2 ^ (den.log2 + 1 : ℤ) := by
    exact_mod_cast Nat.lt_log2_self (n := den)
  have hlow : (2 : ℚ) ^ ((num.log2 : ℤ) - den.log2 - 1) ≤ num / den := by
    rw [sub_sub, zpow_sub₀ two_ne_zero]
    gcongr
  have hhigh : (num : ℚ) / den < 2 ^ ((num.log2 : ℤ) - den.log2 + 1) := by
    rw [sub_add_eq_add_sub, zpow_sub₀ two_ne_zero]
    gcongr
  have hplace := atPlace_div num den ((num.log2 : ℤ) - den.log2)
  have hpos := atPlace_pos hden num ((num.log2 : ℤ) - den.log2)
  unfold binaryExponent
  set e : ℤ := (num.log2 : ℤ) - den.log2
  have hiff : (atPlace num den e).2 ≤ (atPlace num den e).1 ↔ (2 : ℚ) ^ e ≤ num / den := by
    rw [← one_le_div₀ (zpow_pos two_pos e), ← hplace, one_le_div₀ (Nat.cast_pos.mpr hpos),
      Nat.cast_le]
  simp only [hiff]
  split
  case isTrue h => exact (log_eq h hhigh).symm
  case isFalse h => exact (log_eq hlow (by rw [sub_add_cancel]; exact not_le.mp h)).symm

/-! ### Halves -/

/-- A natural that a number is nearest to, or halfway to if the natural is even. -/
structure Nearest (x : ℚ) (k : ℕ) : Prop where
  lower : (k : ℚ) - 1 / 2 ≤ x
  upper : x ≤ k + 1 / 2
  even : x = k - 1 / 2 ∨ x = k + 1 / 2 → k % 2 = 0

/-- The division rounds to the nearest natural, and to an even one halfway. -/
theorem divToEven_eq {num den k : ℕ} (hden : 0 < den) (lower : 2 * k * den ≤ 2 * num + den)
    (upper : 2 * num ≤ 2 * k * den + den)
    (even : 2 * k * den = 2 * num + den ∨ 2 * num = 2 * k * den + den → k % 2 = 0) :
    divToEven num den = k := by
  have hnum : num = num / den * den + num % den := (Nat.div_add_mod' num den).symm
  have hmod : num % den < den := Nat.mod_lt num hden
  unfold divToEven
  generalize num / den = q at hnum
  generalize num % den = r at hnum hmod
  subst hnum
  have hk : k = q ∨ k = q + 1 := by
    have h₁ : k < q + 2 := by
      by_contra hge
      have := Nat.mul_le_mul_right den (not_lt.mp hge)
      nlinarith
    have h₂ : q < k + 1 := by
      by_contra hge
      have := Nat.mul_le_mul_right den (not_lt.mp hge)
      nlinarith
    omega
  rcases hk with rfl | rfl
  · have hle : 2 * r ≤ den := by linarith
    have heven : 2 * r = den → k % 2 = 0 := fun e => even (.inr (by linarith))
    rcases hle.lt_or_eq with hlt | heq
    · simp only [Nat.compare_eq_lt.mpr hlt]
    · simp only [Nat.compare_eq_eq.mpr heq, if_pos (heven heq)]
  · have hge : den ≤ 2 * r := by linarith
    have heven : den = 2 * r → (q + 1) % 2 = 0 := fun e => even (.inl (by linarith))
    rcases hge.lt_or_eq with hlt | heq
    · simp only [Nat.compare_eq_gt.mpr hlt]
    · have hodd : ¬ q % 2 = 0 := by have := heven heq; omega
      simp only [Nat.compare_eq_eq.mpr heq.symm, if_neg hodd]

/-- Division to even finds the nearest number. -/
theorem divToEven_of_nearest {num den k : ℕ} (hden : 0 < den) (h : Nearest ((num : ℚ) / den) k) :
    divToEven num den = k := by
  have hden' : (0 : ℚ) < den := Nat.cast_pos.mpr hden
  obtain ⟨lower, upper, even⟩ := h
  rw [le_div_iff₀ hden'] at lower
  rw [div_le_iff₀ hden'] at upper
  rw [div_eq_iff hden'.ne', div_eq_iff hden'.ne'] at even
  refine divToEven_eq hden ?_ ?_ ?_
  · have : (2 * k * den : ℚ) ≤ 2 * num + den := by linarith
    exact_mod_cast this
  · have : (2 * num : ℚ) ≤ 2 * k * den + den := by linarith
    exact_mod_cast this
  · rintro (e | e)
    · have e : (2 * k * den : ℚ) = 2 * num + den := by exact_mod_cast e
      exact even (.inl (by linarith))
    · have e : (2 * num : ℚ) = 2 * k * den + den := by exact_mod_cast e
      exact even (.inr (by linarith))

/-! ### The format -/

variable (d : Double)

/-- The magnitude of a double. -/
def magnitude : ℚ := d.mantissa * 2 ^ d.unit

/-- A mantissa has at most 53 bits. -/
theorem mantissa_lt : d.mantissa < 2 ^ 53 := by
  have := d.fraction.isLt
  unfold mantissa
  split <;> omega

theorem le_unit : -1074 ≤ d.unit := by
  unfold unit
  omega

theorem unit_le : d.unit ≤ 971 := by
  have := d.exponent.isLt
  unfold unit
  omega

/-- Where the gap below is not half the gap above, the mantissa is not the least full one. -/
theorem lt_mantissa {d : Double} (h : d.unit ≠ -1074) (hn : d.narrowBelow = false) :
    2 ^ 52 < d.mantissa := by
  unfold unit at h
  have hexponent : 1 < d.exponent.val := by omega
  have hfraction : d.fraction.val ≠ 0 := by simpa [narrowBelow, hexponent] using hn
  unfold mantissa
  rw [if_neg (by omega)]
  omega

/-- The gap below is narrower only at a power of two. -/
theorem mantissa_eq_of_narrowBelow {d : Double} (hn : d.narrowBelow = true) :
    d.mantissa = 2 ^ 52 := by
  simp only [narrowBelow, Bool.and_eq_true, decide_eq_true_eq] at hn
  rw [mantissa, if_neg (by omega), hn.1]
  rfl

/-- A double is found again by its mantissa and its unit. -/
theorem ofMantissa?_mantissa : ofMantissa? d.negative d.mantissa d.unit = some d := by
  obtain ⟨negative, ⟨exponent, hexponent⟩, ⟨fraction, hfraction⟩⟩ := d
  unfold ofMantissa? mantissa unit
  by_cases h : exponent = 0
  · subst h
    simp [hfraction, Fin.ofNat, Nat.mod_eq_of_lt]
  · have hunit : (max (exponent : ℤ) 1).toNat = exponent := by omega
    have hmod : (0x10000000000000 + fraction) % 0x10000000000000 = fraction := by omega
    have hlt : 0x10000000000000 + fraction < 0x20000000000000 := by omega
    simp [h, hlt, hunit, hexponent, Fin.ofNat, hmod]

/-- A mantissa of one bit too many is carried. -/
theorem ofMantissa?_carry {d : Double} (h : d.mantissa = 2 ^ 52) :
    ofMantissa? d.negative (2 ^ 53) (d.unit - 1) = some d := by
  rw [← ofMantissa?_mantissa d, h, ofMantissa?, ofMantissa?]
  simp

/-! ### The numbers that round to a double -/

/-- A number that rounds to the magnitude of a double. -/
structure RoundsTo (x : ℚ) : Prop where
  lower : (d.mantissa - if d.narrowBelow then 1 / 4 else 1 / 2) * 2 ^ d.unit ≤ x
  upper : x ≤ (d.mantissa + 1 / 2) * 2 ^ d.unit
  even : x = (d.mantissa - if d.narrowBelow then 1 / 4 else 1 / 2) * 2 ^ d.unit ∨
    x = (d.mantissa + 1 / 2) * 2 ^ d.unit → d.mantissa % 2 = 0

section

variable {d : Double} {x : ℚ}

/-- What rounds to a double lies at most half a unit below it. -/
theorem RoundsTo.lower_half (h : d.RoundsTo x) : (d.mantissa - 1 / 2) * 2 ^ d.unit ≤ x := by
  refine le_trans ?_ h.lower
  gcongr
  split <;> norm_num

theorem RoundsTo.pos (h : d.RoundsTo x) (hm : d.mantissa ≠ 0) : 0 < x := by
  refine lt_of_lt_of_le (mul_pos ?_ (zpow_pos two_pos _)) h.lower_half
  have : (1 : ℚ) ≤ d.mantissa := by exact_mod_cast Nat.one_le_iff_ne_zero.mpr hm
  linarith

/-- In the places of its unit, the mantissa is the natural nearest to the number. -/
theorem RoundsTo.nearest (h : d.RoundsTo x) : Nearest (x / 2 ^ d.unit) d.mantissa := by
  have hp : (0 : ℚ) < 2 ^ d.unit := zpow_pos two_pos _
  refine ⟨(le_div_iff₀ hp).mpr h.lower_half, (div_le_iff₀ hp).mpr h.upper, ?_⟩
  rw [div_eq_iff hp.ne', div_eq_iff hp.ne']
  rintro (e | e)
  · by_cases hn : d.narrowBelow
    · have := h.lower
      rw [if_pos hn, e] at this
      have := le_of_mul_le_mul_right this hp
      linarith
    · exact h.even (.inl (by rw [if_neg hn, e]))
  · exact h.even (.inr e)

/-- A number that rounds to a double is below the end of its binade. -/
theorem RoundsTo.log_lt (h : d.RoundsTo x) (hx : 0 < x) : Int.log 2 x < d.unit + 53 := by
  refine (Int.lt_zpow_iff_log_lt one_lt_two hx).mp (h.upper.trans_lt ?_)
  have hlt : (d.mantissa + 1 / 2 : ℚ) < 2 ^ 53 := by
    have : (d.mantissa + 1 : ℚ) ≤ 2 ^ 53 := by exact_mod_cast d.mantissa_lt
    linarith
  rw [zpow_add₀ (by norm_num), mul_comm]
  exact mul_lt_mul_of_pos_left (by exact_mod_cast hlt) (zpow_pos (by norm_num) _)

/-- A number below the binade of a double that it rounds to is just below a power of two. -/
theorem RoundsTo.below (h : d.RoundsTo x) (hu : d.unit ≠ -1074) (hx : x < 2 ^ (d.unit + 52)) :
    d.mantissa = 2 ^ 52 ∧ (2 ^ 52 - 1 / 4) * 2 ^ d.unit ≤ x := by
  by_cases hn : d.narrowBelow
  · have hlower := h.lower
    rw [if_pos hn, mantissa_eq_of_narrowBelow hn] at hlower
    exact ⟨mantissa_eq_of_narrowBelow hn, by exact_mod_cast hlower⟩
  · rw [zpow_add₀ two_ne_zero, mul_comm] at hx
    have hlt : (d.mantissa - 1 / 2 : ℚ) < 2 ^ 52 :=
      lt_of_mul_lt_mul_right (h.lower_half.trans_lt (by exact_mod_cast hx))
        (zpow_pos two_pos _).le
    have hm : (2 ^ 52 + 1 : ℚ) ≤ d.mantissa := by
      exact_mod_cast lt_mantissa hu (Bool.not_eq_true _ ▸ hn)
    linarith

/-- In the places of the next lower unit, such a number is nearest to the carried mantissa. -/
theorem nearest_carry {unit : ℤ} (hlower : (2 ^ 52 - 1 / 4) * 2 ^ unit ≤ x)
    (hx : x < 2 ^ (unit + 52)) :
    Int.log 2 x = unit + 51 ∧ Nearest (x / 2 ^ (unit - 1)) (2 ^ 53) := by
  have hp : (0 : ℚ) < 2 ^ unit := zpow_pos two_pos _
  constructor
  · refine log_eq (le_trans ?_ hlower) (by rw [add_assoc]; exact hx)
    rw [zpow_add₀ two_ne_zero, mul_comm]
    gcongr
    norm_num
  · have hdouble : x / 2 ^ (unit - 1) = 2 * (x / 2 ^ unit) := by
      rw [zpow_sub_one₀ two_ne_zero]
      field_simp
    have hupper : x / 2 ^ unit < 2 ^ 52 := by
      rw [div_lt_iff₀ hp, mul_comm]
      rw [zpow_add₀ two_ne_zero] at hx
      exact_mod_cast hx
    rw [← le_div_iff₀ hp] at hlower
    rw [hdouble]
    refine ⟨?_, ?_, fun _ => rfl⟩
    · push_cast; linarith
    · push_cast; linarith

/-- **Rounding gives the double** for every fraction that rounds to its magnitude. -/
theorem ofFraction?_of_roundsTo {num den : ℕ} (hden : 0 < den) (hm : d.mantissa ≠ 0)
    (h : d.RoundsTo ((num : ℚ) / den)) : ofFraction? d.negative num den = some d := by
  have hx := h.pos hm
  have hnum : num ≠ 0 := by
    rintro rfl
    simp at hx
  have hplace := atPlace_div num den
  have hpos := atPlace_pos hden num
  have hunit := d.le_unit
  have hlog := h.log_lt hx
  unfold ofFraction?
  rw [binaryExponent_eq_log (Nat.pos_of_ne_zero hnum) hden]
  by_cases hbelow : d.unit ≠ -1074 ∧ (num : ℚ) / den < 2 ^ (d.unit + 52)
  · -- Just below a power of two the unit is one less.
    obtain ⟨hmantissa, hlower⟩ := h.below hbelow.1 hbelow.2
    obtain ⟨hlog, hnear⟩ := nearest_carry hlower hbelow.2
    have hat : max (Int.log 2 ((num : ℚ) / den) - 52) (-1074) = d.unit - 1 := by omega
    simp only [hat]
    rw [divToEven_of_nearest (hpos _) (by rw [hplace]; exact hnear), ofMantissa?_carry hmantissa]
  · have hat : max (Int.log 2 ((num : ℚ) / den) - 52) (-1074) = d.unit := by
      by_cases hu : d.unit = -1074
      · omega
      · have hge := (Int.zpow_le_iff_le_log one_lt_two hx).mp
          (not_lt.mp fun hlt => hbelow ⟨hu, by exact_mod_cast hlt⟩)
        omega
    simp only [hat]
    rw [divToEven_of_nearest (hpos _) (by rw [hplace]; exact h.nearest), ofMantissa?_mantissa]

end

end GraphTrace.Double
