import GraphTrace.Json.Token
import GraphTrace.Proofs.Double.Decimals

/-!
# Number literals

A literal has an integer part, and it may have the digits of a fraction and an exponent
(`Literal`).  Its characters are scanned to these parts, whatever the value is, if what follows it
does not go on with a number (`unsigned_chars`); so the number it writes is settled by its `value`.
-/

namespace GraphTrace.Json

/-- Characters as symbols. -/
def symbols (cs : List Char) : List Symbol := cs.map Symbol.char

@[simp] theorem symbols_nil : symbols [] = [] := rfl

@[simp] theorem symbols_cons (c : Char) (cs : List Char) :
    symbols (c :: cs) = .char c :: symbols cs := rfl

@[simp] theorem symbols_append (cs cs' : List Char) :
    symbols (cs ++ cs') = symbols cs ++ symbols cs' := List.map_append

/-- Symbols before which a number ends: no more of them, or a comma or the end of a container. -/
def Delimited (rest : List Symbol) : Prop := ∀ s ∈ rest.head?, s ∈ symbols [',', ']', '\x7d']

namespace Token

/-! ### Runs of digits -/

section

variable {ds : List Char} {rest : List Symbol}

theorem takeWhile_symbols (hds : ∀ c ∈ ds, c.isDigit)
    (hrest : ∀ s ∈ rest.head?, isDigit s = false) : (symbols ds ++ rest).takeWhile isDigit = symbols ds ∧
      (symbols ds ++ rest).dropWhile isDigit = rest := by
  have hsymbols : ∀ s ∈ symbols ds, isDigit s := by
    rintro s hs
    obtain ⟨c, hc, rfl⟩ := List.mem_map.mp hs
    exact hds c hc
  have hhead : rest.takeWhile isDigit = [] ∧ rest.dropWhile isDigit = rest := by
    cases rest with
    | nil => exact ⟨rfl, rfl⟩
    | cons s rest =>
        have hs : ¬ isDigit s = true := by simp [hrest s rfl]
        exact ⟨List.takeWhile_cons_of_neg hs, List.dropWhile_cons_of_neg hs⟩
  rw [List.takeWhile_append_of_pos hsymbols, List.dropWhile_append_of_pos hsymbols, hhead.1,
    hhead.2]
  exact ⟨List.append_nil _, rfl⟩

/-- Digits are read up to what follows them. -/
theorem someDigits_append (hne : ds ≠ []) (hds : ∀ c ∈ ds, c.isDigit)
    (hrest : ∀ s ∈ rest.head?, isDigit s = false) :
    someDigits (symbols ds ++ rest) = .ok (ds, rest) := by
  obtain ⟨htake, hdrop⟩ := takeWhile_symbols hds hrest
  have hdigits : digits (symbols ds ++ rest) = ds := by
    rw [digits, htake, symbols, List.filterMap_map]
    exact List.filterMap_some
  cases ds with
  | nil => contradiction
  | cons c ds =>
      have hc : isDigit (.char c) = true := hds c List.mem_cons_self
      simp only [symbols_cons, List.cons_append] at hdigits hdrop ⊢
      simp only [someDigits, hc, if_true, hdigits, afterDigits, hdrop]

end

end Token

/-! ### Literals -/

/-- A number without its sign. -/
structure Literal where
  whole : List Char
  fraction : Option (List Char)
  exponent : Option Int

namespace Literal

/-- The digits of the fraction, after the point. -/
def fractionChars (fraction : Option (List Char)) : List Char :=
  match fraction with
  | none    => []
  | some ds => '.' :: ds

/-- The exponent after its letter, with its sign. -/
def exponentChars (exponent : Option Int) : List Char :=
  match exponent with
  | none   => []
  | some e => 'e' :: (if e < 0 then '-' else '+') :: Nat.toDigits 10 e.natAbs

/-- The characters of a literal. -/
def chars (l : Literal) : List Char :=
  l.whole ++ fractionChars l.fraction ++ exponentChars l.exponent

/-- A literal whose integer part is one zero, or digits that do not start with a zero, and whose
fraction has digits. -/
structure WellFormed (l : Literal) : Prop where
  whole : ∀ c ∈ l.whole, c.isDigit
  first : l.whole = ['0'] ∨ ∃ c ds, l.whole = c :: ds ∧ c ≠ '0'
  fraction : ∀ ds ∈ l.fraction, ds ≠ [] ∧ ∀ c ∈ ds, c.isDigit

end Literal

namespace Token

variable {rest : List Symbol}

/-- The whole part of a numeral is read up to what follows it. -/
theorem integerPart_append {ds : List Char} (hds : ∀ c ∈ ds, c.isDigit)
    (hfirst : ds = ['0'] ∨ ∃ c ds', ds = c :: ds' ∧ c ≠ '0')
    (hrest : ∀ s ∈ rest.head?, isDigit s = false) :
    integerPart (symbols ds ++ rest) = .ok (ds, rest) := by
  rcases hfirst with rfl | ⟨c, ds', rfl, hc⟩
  · have hhead : rest.head?.any isDigit = false := by
      cases rest with
      | nil => rfl
      | cons s rest => exact hrest s rfl
    simp [integerPart, hhead]
  · have hsome := someDigits_append (List.cons_ne_nil c ds') hds hrest
    unfold integerPart
    split
    case h_1 e => exact absurd (by simpa using (List.cons.inj e).1) hc
    case h_2 => exact hsome

theorem fractionPart_append {fraction : Option (List Char)}
    (hds : ∀ ds ∈ fraction, ds ≠ [] ∧ ∀ c ∈ ds, c.isDigit)
    (hrest : ∀ s ∈ rest.head?, isDigit s = false ∧ s ≠ .char '.') :
    fractionPart (symbols (Literal.fractionChars fraction) ++ rest) = .ok (fraction, rest) := by
  cases fraction with
  | none =>
      unfold fractionPart
      split
      case h_1 after e => exact absurd rfl (hrest (.char '.') (congrArg List.head? e)).2
      case h_2 => rfl
  | some ds =>
      obtain ⟨hne, hds⟩ := hds ds rfl
      have hsome := someDigits_append hne hds fun s hs => (hrest s hs).1
      simp only [Literal.fractionChars, symbols_cons, List.cons_append, fractionPart, hsome]
      rfl

/-- An exponent is read with its sign. -/
theorem signedDigits_append (e : Int) (hrest : ∀ s ∈ rest.head?, isDigit s = false) :
    signedDigits (.char (if e < 0 then '-' else '+')
      :: (symbols (Nat.toDigits 10 e.natAbs) ++ rest)) = .ok (e, rest) := by
  have hdigits : ∀ c ∈ Nat.toDigits 10 e.natAbs, c.isDigit :=
    fun c hc => Nat.isDigit_of_mem_toDigits (by norm_num) le_rfl hc
  have hsome := someDigits_append Nat.toDigits_ne_nil hdigits hrest
  by_cases h : e < 0
  · have habs : -(e.natAbs : Int) = e := by omega
    simp only [h, if_true, signedDigits, hsome, Except.map, Nat.ofDigitChars_ten_toDigits, habs]
  · have habs : (e.natAbs : Int) = e := by omega
    simp only [h, if_false, signedDigits, hsome, Except.map, Nat.ofDigitChars_ten_toDigits, habs]

theorem exponentPart_append (exponent : Option Int)
    (hrest : ∀ s ∈ rest.head?, isDigit s = false ∧ s ≠ .char 'e' ∧ s ≠ .char 'E') :
    exponentPart (symbols (Literal.exponentChars exponent) ++ rest) = .ok (exponent, rest) := by
  cases exponent with
  | none =>
      unfold exponentPart
      split
      case h_1 after e => exact absurd rfl (hrest (.char 'e') (congrArg List.head? e)).2.1
      case h_2 after e => exact absurd rfl (hrest (.char 'E') (congrArg List.head? e)).2.2
      case h_3 => rfl
  | some e =>
      have hsigned := signedDigits_append e fun s hs => (hrest s hs).1
      simp only [Literal.exponentChars, symbols_cons, List.cons_append, exponentPart, hsigned]
      rfl

/-- **A literal is scanned** to the number that its parts write. -/
theorem unsigned_chars {l : Literal} {negative : Bool} {n : Number} (hl : l.WellFormed)
    (hrest : Delimited rest)
    (hn : numberOf? negative l.whole l.fraction l.exponent = some n) :
    unsigned negative (symbols l.chars ++ rest) = .ok (n, rest) := by
  have hafter : ∀ s ∈ rest.head?, isDigit s = false ∧ s ≠ .char '.' ∧ s ≠ .char 'e' ∧
      s ≠ .char 'E' := by
    intro s hs
    have := hrest s hs
    simp only [symbols_cons, symbols_nil, List.mem_cons, List.not_mem_nil, or_false] at this
    rcases this with rfl | rfl | rfl <;> decide
  have hexponent : ∀ s ∈ (symbols (Literal.exponentChars l.exponent) ++ rest).head?,
      isDigit s = false ∧ s ≠ .char '.' := by
    cases l.exponent with
    | none => exact fun s hs => ⟨(hafter s hs).1, (hafter s hs).2.1⟩
    | some e =>
        rintro s hs
        obtain rfl := Option.some.inj hs
        decide
  have hfraction : ∀ s ∈ (symbols (Literal.fractionChars l.fraction)
      ++ (symbols (Literal.exponentChars l.exponent) ++ rest)).head?, isDigit s = false := by
    cases l.fraction with
    | none => exact fun s hs => (hexponent s hs).1
    | some ds =>
        rintro s hs
        obtain rfl := Option.some.inj hs
        decide
  unfold unsigned Literal.chars
  rw [symbols_append, symbols_append, List.append_assoc, List.append_assoc,
    integerPart_append hl.whole hl.first hfraction]
  simp only [bind, Except.bind]
  rw [fractionPart_append hl.fraction hexponent]
  simp only
  rw [exponentPart_append l.exponent fun s hs => ⟨(hafter s hs).1, (hafter s hs).2.2⟩]
  simp only [hn]
  rfl

end Token

end GraphTrace.Json
