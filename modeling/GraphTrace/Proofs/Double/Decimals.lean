import GraphTrace.Proofs.Double.Rounding

/-!
# Decimals that read back

`readsBack` tells by whole numbers whether a decimal rounds to the magnitude of a double
(`roundsTo_of_readsBack`), and the shortest decimal of a double does (`roundsTo_shortest`).  Reading any
decimal that does gives the double (`ofDecimal?_of_roundsTo`): its size is far from those at which
reading gives up.
-/

namespace GraphTrace

/-- The number that a decimal writes. -/
def Decimal.value (x : Decimal) : ℚ := x.digits * 10 ^ x.exponent

namespace Double

/-! ### Comparing decimals -/

section

variable {a b : ℕ} {i j : ℤ}

/-- The comparison by whole numbers is that of the numbers. -/
theorem compareScaled_eq :
    compareScaled a i b j = cmp ((a : ℚ) * 10 ^ i) (b * 2 ^ j) := by
  have h10 := pow_toNat_div (b := 10) (by norm_num) i
  have h2 := pow_toNat_div two_ne_zero j
  have p10 : (0 : ℚ) < ((10 ^ (-i).toNat : ℕ) : ℚ) := by positivity
  have p2 : (0 : ℚ) < ((2 ^ (-j).toNat : ℕ) : ℚ) := by positivity
  rw [div_eq_iff p10.ne'] at h10
  rw [div_eq_iff p2.ne'] at h2
  have hleft : ((a * Nat.pow 10 i.toNat * Nat.pow 2 (-j).toNat : ℕ) : ℚ)
      = a * 10 ^ i * ((10 ^ (-i).toNat : ℕ) * (2 ^ (-j).toNat : ℕ)) := by
    rw [Nat.pow_eq, Nat.pow_eq, Nat.cast_mul, Nat.cast_mul, h10]
    push_cast
    ring
  have hright : ((b * Nat.pow 2 j.toNat * Nat.pow 10 (-i).toNat : ℕ) : ℚ)
      = b * 2 ^ j * ((10 ^ (-i).toNat : ℕ) * (2 ^ (-j).toNat : ℕ)) := by
    rw [Nat.pow_eq, Nat.pow_eq, Nat.cast_mul, Nat.cast_mul, h2]
    push_cast
    ring
  have hcast : StrictMono ((↑) : ℕ → ℚ) := Nat.strictMono_cast
  rw [compareScaled, ← cmp_eq_compare, ← hcast.cmp_map_eq, hleft, hright,
    cmp_mul_pos_right (mul_pos p10 p2)]

theorem compareScaled_eq_lt_iff :
    compareScaled a i b j = .lt ↔ (a : ℚ) * 10 ^ i < b * 2 ^ j := by
  rw [compareScaled_eq, cmp_eq_lt_iff]

theorem compareScaled_eq_eq_iff :
    compareScaled a i b j = .eq ↔ (a : ℚ) * 10 ^ i = b * 2 ^ j := by
  rw [compareScaled_eq, cmp_eq_eq_iff]

theorem compareScaled_eq_gt_iff :
    compareScaled a i b j = .gt ↔ (b : ℚ) * 2 ^ j < a * 10 ^ i := by
  rw [compareScaled_eq, cmp_eq_gt_iff]

end

/-! ### Reading back -/

variable {d : Double}

/-- The test by whole numbers tells which decimals round to the double. -/
theorem roundsTo_of_readsBack {x : Decimal} (hm : d.mantissa ≠ 0) (h : d.readsBack x = true) :
    d.RoundsTo x.value := by
  have quarter : (2 : ℚ) ^ (d.unit - 2) = 2 ^ d.unit / 4 := by
    rw [zpow_sub₀ two_ne_zero]
    norm_num
  have hlow : (((4 * d.mantissa - if d.narrowBelow then 1 else 2 : ℕ) : ℚ)) * 2 ^ (d.unit - 2)
      = (d.mantissa - if d.narrowBelow then 1 / 4 else 1 / 2) * 2 ^ d.unit := by
    rw [Nat.cast_sub (by split <;> omega), quarter]
    split <;> push_cast <;> ring
  have hhigh : ((4 * d.mantissa + 2 : ℕ) : ℚ) * 2 ^ (d.unit - 2)
      = (d.mantissa + 1 / 2) * 2 ^ d.unit := by
    rw [quarter]
    push_cast
    ring
  simp only [readsBack, Bool.and_eq_true, Bool.or_eq_true, beq_iff_eq, compareScaled_eq_lt_iff,
    compareScaled_eq_eq_iff, compareScaled_eq_gt_iff, hlow, hhigh] at h
  obtain ⟨hlower, hupper⟩ := h
  refine ⟨?_, ?_, ?_⟩
  · rcases hlower with h | ⟨-, h⟩
    · exact h.le
    · exact h.ge
  · rcases hupper with h | ⟨-, h⟩
    · exact h.le
    · exact h.le
  · rintro (e | e)
    · rcases hlower with h | ⟨h, -⟩
      · exact absurd e h.ne'
      · exact h
    · rcases hupper with h | ⟨h, -⟩
      · exact absurd e h.ne
      · exact h

/-- The exact decimal of a double is worth its magnitude. -/
theorem value_exact (d : Double) : d.exact.value = d.magnitude := by
  have h2 := pow_toNat_div two_ne_zero d.unit
  have h10 : (10 : ℚ) ^ (-((-d.unit).toNat : ℤ))
      = (2 ^ (-d.unit).toNat * 5 ^ (-d.unit).toNat)⁻¹ := by
    rw [zpow_neg, zpow_natCast, ← mul_pow]
    norm_num
  push_cast at h2
  simp only [exact, Decimal.value, magnitude, Nat.pow_eq, h10, ← h2]
  push_cast
  field_simp

/-- The magnitude of a double rounds to it. -/
theorem roundsTo_magnitude : d.RoundsTo d.magnitude := by
  have hp : (0 : ℚ) < 2 ^ d.unit := zpow_pos two_pos _
  have hlower : (d.mantissa - if d.narrowBelow then 1 / 4 else 1 / 2) * (2 : ℚ) ^ d.unit
      < d.mantissa * 2 ^ d.unit := by
    gcongr
    split <;> linarith
  have hupper : (d.mantissa : ℚ) * 2 ^ d.unit < (d.mantissa + 1 / 2) * 2 ^ d.unit := by
    gcongr
    linarith
  exact ⟨hlower.le, hupper.le, fun e => (e.elim hlower.ne' hupper.ne).elim⟩

/-- A decimal is taken from the grid only if it reads back. -/
theorem readsBack_of_onGrid? {count : ℕ} {x : Decimal} (h : d.onGrid? count = some x) :
    d.readsBack x = true := by
  unfold onGrid? at h
  simp only at h
  split at h
  case h_1 hb _ => exact Option.some.inj h ▸ hb
  case h_2 _ ha => exact Option.some.inj h ▸ ha
  case h_3 => contradiction
  case h_4 hb ha =>
    split at h
    · exact Option.some.inj h ▸ hb
    · exact Option.some.inj h ▸ ha
    · split at h
      · exact Option.some.inj h ▸ hb
      · exact Option.some.inj h ▸ ha

/-- **The shortest decimal** of a double rounds to it. -/
theorem roundsTo_shortest (hm : d.mantissa ≠ 0) : d.RoundsTo d.shortest.value := by
  unfold shortest
  cases h : (List.range' 1 17).findSome? d.onGrid? with
  | none => exact d.value_exact ▸ roundsTo_magnitude
  | some x =>
      obtain ⟨count, -, hx⟩ := List.exists_of_findSome?_eq_some h
      exact roundsTo_of_readsBack hm (readsBack_of_onGrid? hx)

/-! ### Reading decimals -/

/-- A number has less than the next power of ten. -/
theorem lt_pow_decimalLength (n : ℕ) : n < 10 ^ decimalLength n :=
  (Nat.length_toDigits_le_iff (by norm_num) Nat.length_toDigits_pos).mp le_rfl

/-- A number has its first digit. -/
theorem pow_le_of_decimalLength {n : ℕ} (hn : n ≠ 0) : 10 ^ (decimalLength n - 1) ≤ n := by
  by_cases h : decimalLength n - 1 = 0
  · rw [h]
    exact Nat.one_le_iff_ne_zero.mpr hn
  · refine not_lt.mp fun hlt => ?_
    have := (Nat.length_toDigits_le_iff (by norm_num) (Nat.pos_of_ne_zero h)).mpr hlt
    unfold decimalLength at h this
    omega

theorem eight_pow (e : ℤ) : (8 : ℚ) ^ e = 2 ^ (3 * e) := by
  rw [zpow_mul]
  norm_num

/-- No double is as small as the decimals that are read as zero. -/
theorem RoundsTo.small_lt {x : ℚ} (h : d.RoundsTo x) (hm : d.mantissa ≠ 0) :
    (10 : ℚ) ^ (-400 : ℤ) < x := by
  have hunit := d.le_unit
  have hone : (1 : ℚ) ≤ d.mantissa := by exact_mod_cast Nat.one_le_iff_ne_zero.mpr hm
  have height : (8 : ℚ) ^ (400 : ℤ) < 10 ^ (400 : ℤ) :=
    zpow_lt_zpow_left₀ (by norm_num) (by norm_num) (by norm_num)
  calc (10 : ℚ) ^ (-400 : ℤ) < 8 ^ (-400 : ℤ) := by
        rw [zpow_neg, zpow_neg]
        exact inv_strictAnti₀ (zpow_pos (by norm_num) _) height
    _ = 2 ^ (-1200 : ℤ) := by rw [eight_pow]; norm_num
    _ ≤ 2 ^ (d.unit - 1) := zpow_le_zpow_right₀ one_le_two (by omega)
    _ ≤ (d.mantissa - 1 / 2) * 2 ^ d.unit := by
        rw [zpow_sub_one₀ two_ne_zero, mul_comm]
        gcongr
        linarith
    _ ≤ x := h.lower_half

/-- No double is as large as the decimals that are not read. -/
theorem RoundsTo.lt_large {x : ℚ} (h : d.RoundsTo x) : x < (10 : ℚ) ^ (400 : ℤ) := by
  have hunit := d.unit_le
  have hlt : (d.mantissa + 1 / 2 : ℚ) ≤ 2 ^ (53 : ℤ) := by
    have : (d.mantissa + 1 : ℚ) ≤ 2 ^ (53 : ℤ) := by exact_mod_cast d.mantissa_lt
    linarith
  calc x ≤ (d.mantissa + 1 / 2) * 2 ^ d.unit := h.upper
    _ ≤ 2 ^ (53 : ℤ) * 2 ^ d.unit := by gcongr
    _ = 2 ^ (53 + d.unit) := (zpow_add₀ two_ne_zero _ _).symm
    _ ≤ 2 ^ (1200 : ℤ) := zpow_le_zpow_right₀ one_le_two (by omega)
    _ = 8 ^ (400 : ℤ) := by rw [eight_pow]; norm_num
    _ < 10 ^ (400 : ℤ) := zpow_lt_zpow_left₀ (by norm_num) (by norm_num) (by norm_num)

/-- **Reading a decimal** that rounds to a double gives the double. -/
theorem ofDecimal?_of_roundsTo {significand : ℕ} {exponent : ℤ} (hm : d.mantissa ≠ 0)
    (h : d.RoundsTo (significand * 10 ^ exponent)) :
    ofDecimal? d.negative significand exponent = some d := by
  have hx := h.pos hm
  have hs : significand ≠ 0 := by
    rintro rfl
    simp at hx
  have hlow : -400 < exponent + decimalLength significand := by
    have hlt : (significand : ℚ) < 10 ^ (decimalLength significand : ℤ) := by
      exact_mod_cast lt_pow_decimalLength significand
    refine (zpow_lt_zpow_iff_right₀ (by norm_num : (1 : ℚ) < 10)).mp ((h.small_lt hm).trans ?_)
    rw [zpow_add₀ (by norm_num), mul_comm]
    gcongr
  have hhigh : exponent + (decimalLength significand - 1 : ℕ) < 400 := by
    have hle : (10 : ℚ) ^ ((decimalLength significand - 1 : ℕ) : ℤ) ≤ significand := by
      exact_mod_cast pow_le_of_decimalLength hs
    refine (zpow_lt_zpow_iff_right₀ (by norm_num : (1 : ℚ) < 10)).mp (lt_of_le_of_lt ?_ h.lt_large)
    rw [zpow_add₀ (by norm_num), mul_comm]
    gcongr
  have hlength : 0 < decimalLength significand := Nat.length_toDigits_pos
  unfold ofDecimal?
  rw [if_neg (by omega), if_neg (by omega)]
  refine ofFraction?_of_roundsTo (Nat.pow_pos (by norm_num)) hm ?_
  have hfraction : ((significand * Nat.pow 10 exponent.toNat : ℕ) : ℚ)
      / (Nat.pow 10 (-exponent).toNat : ℕ) = significand * 10 ^ exponent := by
    rw [Nat.cast_mul, mul_div_assoc, Nat.pow_eq, Nat.pow_eq, pow_toNat_div (by norm_num)]
    norm_cast
  rw [hfraction]
  exact h

end Double

end GraphTrace
