import GraphTrace.Json.Printer
import GraphTrace.Proofs.Json.Canonical
import GraphTrace.Proofs.Json.Literal

/-!
# Numbers as they are written

A number is written as a literal with a sign, and reading the literal gives the number back
(`exists_literal`).  For an integer these are its digits.  A double is written by the digits of its
shortest decimal, and in each layout the literal has the value of that decimal, which rounds to the
double; since it has a fraction or an exponent, it is not taken for an integer.
-/

namespace GraphTrace

open Json (Literal Number)

/-! ### Digits -/

/-- A number that is not zero does not start with a zero. -/
theorem exists_toDigits {n : ℕ} (hn : n ≠ 0) :
    ∃ c ds, Nat.toDigits 10 n = c :: ds ∧ c ≠ '0' := by
  induction n using Nat.strongRecOn with
  | _ n ih =>
      rw [Nat.toDigits_eq_if (by norm_num)]
      split
      case isTrue h =>
        refine ⟨n.digitChar, [], rfl, fun e => hn ?_⟩
        have := Nat.toNat_digitChar_sub_48_of_lt_ten h
        rw [e] at this
        exact this.symm
      case isFalse h =>
        obtain ⟨c, ds, e, hc⟩ := ih (n / 10) (by omega) (by omega)
        exact ⟨c, ds ++ [(n % 10).digitChar], by rw [e, List.cons_append], hc⟩

/-- Digits that write a number without a zero in front. -/
structure Significant (digits : List Char) : Prop where
  digit : ∀ c ∈ digits, c.isDigit
  first : ∃ c ds, digits = c :: ds ∧ c ≠ '0'

/-- The digits of a number do not start with a zero. -/
theorem significant_toDigits {n : ℕ} (hn : n ≠ 0) : Significant (Nat.toDigits 10 n) :=
  ⟨fun _ hc => Nat.isDigit_of_mem_toDigits (by norm_num) le_rfl hc, exists_toDigits hn⟩

/-- The number that digits write. -/
def numeral (digits : List Char) : ℕ := Nat.ofDigitChars 10 digits 0

/-- A zero at the end makes a numeral ten times as large. -/
theorem numeral_append_zeros (digits : List Char) (k : ℕ) :
    numeral (digits ++ List.replicate k '0') = numeral digits * 10 ^ k := by
  rw [numeral, Nat.ofDigitChars_append, Nat.ofDigitChars_replicate_zero, mul_comm]
  rfl

theorem numeral_zeros_append (digits : List Char) (k : ℕ) :
    numeral (List.replicate k '0' ++ digits) = numeral digits := by
  rw [numeral, Nat.ofDigitChars_append, Nat.ofDigitChars_replicate_zero, mul_zero]
  rfl

/-- Digits are those that are left of them, and the zeros that were taken away. -/
theorem Decimal.toDigits_eq (x : Decimal) :
    Nat.toDigits 10 x.digits = x.significant.1 ++ List.replicate x.significant.2 '0' := by
  set written := Nat.toDigits 10 x.digits with hwritten
  obtain ⟨zeros, kept, hzeros, hsplit⟩ : ∃ zeros kept,
      written.reverse.takeWhile (· == '0') = zeros ∧ written.reverse = zeros ++ kept :=
    ⟨_, _, rfl, List.takeWhile_append_dropWhile.symm⟩
  have hall : zeros = List.replicate zeros.length '0' :=
    List.eq_replicate_iff.mpr
      ⟨rfl, fun c hc => eq_of_beq (List.all_eq_true.mp List.all_takeWhile c (hzeros ▸ hc))⟩
  have hreverse : written = kept.reverse ++ zeros.reverse := by
    rw [← List.reverse_append, ← hsplit, List.reverse_reverse]
  have hsignificant : x.significant = (kept.reverse, zeros.length) := by
    simp only [Decimal.significant, ← hwritten, hzeros]
    rw [hreverse]
    simp
  rw [hsignificant, hreverse, hall, List.reverse_replicate, List.length_replicate]

/-- **The digits of a decimal** without the zeros at their end write the number without these
zeros. -/
theorem Decimal.significant_spec {x : Decimal} (hx : x.digits ≠ 0) :
    Significant x.significant.1 ∧ numeral x.significant.1 * 10 ^ x.significant.2 = x.digits := by
  have hsplit := x.toDigits_eq
  obtain ⟨hdigit, c, ds, hfirst, hc⟩ := significant_toDigits hx
  refine ⟨⟨fun c hmem => hdigit c (hsplit ▸ List.mem_append_left _ hmem), ?_⟩, ?_⟩
  · rw [hsplit] at hfirst
    cases h : x.significant.1 with
    | cons c' ds' =>
        rw [h] at hfirst
        exact ⟨c', ds', rfl, (List.cons.inj hfirst).1 ▸ hc⟩
    | nil =>
        rw [h, List.nil_append] at hfirst
        have hmem : c ∈ List.replicate x.significant.2 '0' := hfirst ▸ List.mem_cons_self
        exact absurd (List.eq_of_mem_replicate hmem) hc
  · have hnumber := Nat.ofDigitChars_ten_toDigits (n := x.digits)
    rw [hsplit] at hnumber
    exact (numeral_append_zeros _ _).symm.trans hnumber

/-- A double without a mantissa is one of the two zeros. -/
theorem Double.eq_zero_of_mantissa {d : Double} (h : d.mantissa = 0) : d = zero d.negative := by
  obtain ⟨negative, exponent, fraction⟩ := d
  unfold mantissa at h
  split at h
  case isTrue he =>
    obtain rfl : exponent = 0 := Fin.ext he
    obtain rfl : fraction = 0 := Fin.ext h
    rfl
  case isFalse => omega

/-- The digits of the shortest decimal of a double, and where the point stands in them. -/
theorem Double.roundsTo_significant {d : Double} (hm : d.mantissa ≠ 0) :
    Significant d.shortest.significant.1 ∧ d.RoundsTo (numeral d.shortest.significant.1
      * 10 ^ (d.shortest.exponent + d.shortest.significant.2 : ℤ)) := by
  have hrounds := Double.roundsTo_shortest hm
  have hdigits : d.shortest.digits ≠ 0 := by
    intro h
    have := hrounds.pos hm
    simp [Decimal.value, h] at this
  obtain ⟨hsignificant, hnumber⟩ := Decimal.significant_spec hdigits
  refine ⟨hsignificant, ?_⟩
  rw [Decimal.value, ← hnumber, Nat.cast_mul, mul_assoc, Nat.cast_pow, ← zpow_natCast,
    Nat.cast_ofNat, ← zpow_add₀ (by norm_num), add_comm] at hrounds
  exact hrounds

/-! ### Literals of numbers -/

namespace Json.Literal

/-- The number that the digits of a literal write. -/
def significand (l : Literal) : ℕ := numeral (l.whole ++ l.fraction.getD [])

/-- The place of the last digit of a literal. -/
def place (l : Literal) : ℤ := l.exponent.getD 0 - (l.fraction.getD []).length

/-- The magnitude that a literal writes. -/
def value (l : Literal) : ℚ := l.significand * 10 ^ l.place

/-- A literal that is taken for a double. -/
structure Broken (l : Literal) (x : ℚ) : Prop where
  wellFormed : l.WellFormed
  broken : l.fraction ≠ none ∨ l.exponent ≠ none
  value : l.value = x

/-- **A broken literal** that rounds to a double writes it. -/
theorem Broken.numberOf? {l : Literal} {x : ℚ} {d : Double} (h : l.Broken x)
    (hm : d.mantissa ≠ 0) (hx : d.RoundsTo x) :
    Token.numberOf? d.negative l.whole l.fraction l.exponent = some (.double d) := by
  have hread := Double.ofDecimal?_of_roundsTo hm (h.value.symm ▸ hx)
  have hno : (l.fraction.isNone && l.exponent.isNone) = false := by
    rcases h.broken with hne | hne
    · rw [Option.isNone_eq_false_iff.mpr (Option.isSome_iff_ne_none.mpr hne), Bool.false_and]
    · rw [Option.isNone_eq_false_iff.mpr (Option.isSome_iff_ne_none.mpr hne), Bool.and_false]
  rw [Token.numberOf?]
  simp only [hno, Bool.false_and, Bool.false_eq_true, if_false]
  exact congrArg (Option.map Number.double) hread

end Json.Literal

/-! ### Layouts -/

namespace Layout

variable {digits : List Char}

/-- Digits on both sides of a point are a literal. -/
theorem exists_pointed {whole fraction : List Char} {x : ℚ}
    (hwhole : Significant whole ∨ whole = ['0']) (hne : fraction ≠ [])
    (hfraction : ∀ c ∈ fraction, c.isDigit)
    (hx : numeral (whole ++ fraction) * 10 ^ (-fraction.length : ℤ) = x) :
    ∃ l : Literal, l.chars = whole ++ '.' :: fraction ∧ l.Broken x := by
  refine ⟨⟨whole, some fraction, none⟩, List.append_nil _, ⟨?_, ?_, ?_⟩, .inl nofun, ?_⟩
  · rcases hwhole with h | rfl
    · exact h.digit
    · simp
  · exact hwhole.symm.imp id Significant.first
  · rintro ds hds
    obtain rfl := Option.some.inj hds
    exact ⟨hne, hfraction⟩
  · rw [← hx, Literal.value, Literal.place]
    simp [Literal.significand]

theorem isDigit_of_mem_zeros {k : ℕ} {c : Char} (h : c ∈ List.replicate k '0') : c.isDigit := by
  rw [List.eq_of_mem_replicate h]
  decide

/-- The digits of a small number stand behind its point. -/
theorem positional_of_nonpos {point : ℤ} (h : point ≤ 0) :
    positional digits point = ['0'] ++ '.' :: (List.replicate (-point).toNat '0' ++ digits) := by
  simp [positional, h]

/-- The digits of a large number are filled up with zeros to its point. -/
theorem positional_of_length_le {point : ℤ} (h : 0 < point) (hl : digits.length ≤ point.toNat) :
    positional digits point
      = (digits ++ List.replicate (point.toNat - digits.length) '0') ++ '.' :: ['0'] := by
  simp [positional, not_le.mpr h, List.take_of_length_le hl, List.drop_of_length_le hl]

theorem positional_of_lt_length {point : ℤ} (h : 0 < point) (hl : point.toNat < digits.length) :
    positional digits point = digits.take point.toNat ++ '.' :: digits.drop point.toNat := by
  have hdrop : (digits.drop point.toNat).isEmpty = false := by simp [hl]
  simp [positional, not_le.mpr h, hdrop, Nat.sub_eq_zero_of_le hl.le]

/-- Digits with the point among them, or with zeros up to the point, are a literal. -/
theorem exists_positional (h : Significant digits) (point : ℤ) : ∃ l : Literal,
    l.chars = positional digits point ∧
      l.Broken (numeral digits * 10 ^ (point - digits.length)) := by
  obtain ⟨hdigit, c, ds, hcons, hc⟩ := id h
  rcases le_or_gt point 0 with hle | hgt
  · rw [positional_of_nonpos hle]
    refine exists_pointed (.inr rfl) (by simp [hcons]) ?_ ?_
    · exact fun c hc => (List.mem_append.mp hc).elim isDigit_of_mem_zeros (hdigit c)
    · have hplace : (-(List.replicate (-point).toNat '0' ++ digits).length : ℤ)
          = point - digits.length := by
        rw [List.length_append, List.length_replicate]
        omega
      rw [hplace, ← List.append_assoc, ← List.replicate_one, List.replicate_append_replicate,
        numeral_zeros_append]
  · rcases le_or_gt digits.length point.toNat with hlong | hshort
    · rw [positional_of_length_le hgt hlong]
      refine exists_pointed (.inl ⟨?_, ?_⟩) (List.cons_ne_nil _ _) (by simp) ?_
      · exact fun c hc => (List.mem_append.mp hc).elim (hdigit c) isDigit_of_mem_zeros
      · exact ⟨c, _, by rw [hcons, List.cons_append], hc⟩
      · have hplace : ((point.toNat - digits.length + 1 : ℕ) : ℤ) + (-['0'].length : ℤ)
            = point - digits.length := by
          rw [List.length_singleton]
          omega
        rw [List.append_assoc, ← List.replicate_one, List.replicate_append_replicate,
          numeral_append_zeros, Nat.cast_mul, mul_assoc, Nat.cast_pow, ← zpow_natCast,
          Nat.cast_ofNat, ← zpow_add₀ (by norm_num), List.replicate_one, hplace]
    · rw [positional_of_lt_length hgt hshort]
      refine exists_pointed (.inl ⟨?_, ?_⟩) (by simpa using hshort) ?_ ?_
      · exact fun c hc => hdigit c (List.mem_of_mem_take hc)
      · obtain ⟨k, hk⟩ : ∃ k, point.toNat = k + 1 := ⟨point.toNat - 1, by omega⟩
        exact ⟨c, ds.take k, by rw [hcons, hk, List.take_succ_cons], hc⟩
      · exact fun c hc => hdigit c (List.mem_of_mem_drop hc)
      · have hplace : (-(digits.drop point.toNat).length : ℤ) = point - digits.length := by
          rw [List.length_drop]
          omega
        rw [List.take_append_drop, hplace]

/-- Digits with the point behind the first of them, and an exponent, are a literal. -/
theorem exists_scientific (h : Significant digits) (exponent : ℤ) : ∃ l : Literal,
    l.chars = scientific digits exponent ∧
      l.Broken (numeral digits * 10 ^ (exponent + 1 - digits.length)) := by
  obtain ⟨hdigit, c, ds, rfl, hc⟩ := h
  refine ⟨⟨[c], if ds = [] then none else some ds, some exponent⟩, ?_, ⟨?_, ?_, ?_⟩, .inr nofun, ?_⟩
  · by_cases hds : ds = []
    · simp [scientific, hds, Literal.chars, Literal.fractionChars, Literal.exponentChars]
    · simp [scientific, hds, Literal.chars, Literal.fractionChars, Literal.exponentChars]
  · exact fun c' hc' => hdigit c' (List.mem_singleton.mp hc' ▸ List.mem_cons_self)
  · exact .inr ⟨c, [], rfl, hc⟩
  · rintro ds' hds'
    split at hds'
    case isTrue => contradiction
    case isFalse hne =>
      obtain rfl := Option.some.inj hds'
      exact ⟨hne, fun c hc => hdigit c (List.mem_cons_of_mem _ hc)⟩
  · have hget : (if ds = [] then none else some ds).getD [] = ds := by
      split
      case isTrue hds => exact hds.symm
      case isFalse => rfl
    rw [Literal.value, Literal.significand, Literal.place, hget]
    simp

/-- **A double in a layout** is a literal that reading takes for the double. -/
theorem exists_literal (layout : Layout) (d : Double) : ∃ l : Literal, l.WellFormed ∧
    (layout.render d).toList = (if d.negative then ['-'] else []) ++ l.chars ∧
    Json.Token.numberOf? d.negative l.whole l.fraction l.exponent = some (.double d) := by
  by_cases hm : d.mantissa = 0
  · refine ⟨⟨['0'], some ['0'], none⟩, ⟨by simp, .inl rfl, ?_⟩, ?_, ?_⟩
    · rintro ds hds
      obtain rfl := Option.some.inj hds
      simp
    · simp [render, hm, Literal.chars, Literal.fractionChars, Literal.exponentChars]
    · rw [Double.eq_zero_of_mantissa hm]
      have hzero : Nat.ofDigitChars 10 ['0', '0'] 0 = 0 := rfl
      simp [Json.Token.numberOf?, Double.ofDecimal?, Double.zero, hzero]
  · obtain ⟨hsignificant, hrounds⟩ := Double.roundsTo_significant hm
    set digits := d.shortest.significant.1 with hdigits
    set zeros := d.shortest.significant.2 with hzeros
    set point : ℤ := d.shortest.exponent + zeros + digits.length with hpoint
    have hrender : (layout.render d).toList = (if d.negative then ['-'] else [])
        ++ if layout.leastPlain ≤ point - 1 ∧ point - 1 ≤ layout.greatestPlain then
          positional digits point else scientific digits (point - 1) := by
      simp [render, hm, hpoint, hzeros, hdigits]
    obtain ⟨l, hchars, hl⟩ : ∃ l : Literal,
        l.chars = (if layout.leastPlain ≤ point - 1 ∧ point - 1 ≤ layout.greatestPlain then
          positional digits point else scientific digits (point - 1)) ∧
        l.Broken (numeral digits * 10 ^ (point - digits.length)) := by
      split
      · exact exists_positional hsignificant point
      · have h := exists_scientific hsignificant (point - 1)
        rwa [sub_add_cancel] at h
    refine ⟨l, hl.wellFormed, by rw [hrender, hchars], hl.numberOf? hm ?_⟩
    rw [hpoint, add_sub_cancel_right]
    exact hrounds

end Layout

/-! ### Numbers -/

namespace Json.Number

/-- An integer is written by its digits, which reading takes for the integer. -/
theorem exists_digits {n : Int} (hn : fits n) : ∃ (negative : Bool) (l : Literal), l.WellFormed ∧
    (Number.integer n).text.toList = (if negative then ['-'] else []) ++ l.chars ∧
    Token.numberOf? negative l.whole l.fraction l.exponent = some (.integer n) := by
  have habs : (if n < 0 then -(n.natAbs : Int) else n.natAbs) = n := by split <;> omega
  refine ⟨n < 0, ⟨Nat.toDigits 10 n.natAbs, none, none⟩, ⟨?_, ?_, fun _ h => nomatch h⟩, ?_, ?_⟩
  · exact fun c hc => Nat.isDigit_of_mem_toDigits (by norm_num) le_rfl hc
  · by_cases h : n.natAbs = 0
    · rw [h]
      exact .inl rfl
    · exact .inr (exists_toDigits h)
  · by_cases h : n < 0
    · have hneg : (-n).toNat = n.natAbs := by omega
      simp [Number.text, Int.repr_eq_if, h, not_le.mpr h, hneg, Literal.chars,
        Literal.fractionChars, Literal.exponentChars]
    · have hpos : n.toNat = n.natAbs := by omega
      simp [Number.text, Int.repr_eq_if, h, not_lt.mp h, hpos, Literal.chars,
        Literal.fractionChars, Literal.exponentChars]
  · have hzero : (decide (n < 0) && n.natAbs == 0) = false := by
      simp only [Bool.and_eq_false_iff, decide_eq_false_iff_not, beq_eq_false_iff_ne]
      omega
    simp only [Token.numberOf?, Option.getD_none, List.append_nil, Nat.ofDigitChars_ten_toDigits,
      decide_eq_true_eq, habs, hn, hzero, Option.isNone_none, Bool.not_false, Bool.and_self,
      if_true]

/-- **A number as it is written** is a literal that reading takes for the number. -/
theorem exists_literal {n : Number} (hn : n.Canonical) : ∃ (negative : Bool) (l : Literal),
    l.WellFormed ∧ n.text.toList = (if negative then ['-'] else []) ++ l.chars ∧
      Token.numberOf? negative l.whole l.fraction l.exponent = some n := by
  cases n with
  | integer n => exact exists_digits hn
  | double d => exact ⟨d.negative, doubleLayout.exists_literal d⟩

end Json.Number

end GraphTrace
