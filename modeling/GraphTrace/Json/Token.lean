import GraphTrace.Json.Symbol
import GraphTrace.Json.Value
import GraphTrace.Text.Hexadecimal

/-!
# JSON lexemes

`Token.scan` splits symbols into lexemes up to the end or to the first lexeme that is not well
formed, and tells which it was (`Ending`).  A lexeme can go wrong in two ways: the input ends
inside it (`Fault.unfinished`), or something stands in it that may not (`Fault.malformed`).
-/

namespace GraphTrace.Json

/-- What is wrong with a JSON text: it ends too early, or it cannot go on as it does. -/
inductive Fault where
  | unfinished
  | malformed
deriving DecidableEq, Repr

/-- A JSON lexeme. -/
inductive Token where
  | arrayOpen
  | arrayClose
  | objectOpen
  | objectClose
  | comma
  | colon
  | null
  | boolean (value : Bool)
  | number (value : Number)
  | string (value : String)
deriving DecidableEq, Repr

/-- How a sequence of lexemes ends: with the input, or at a faulty lexeme, of which it is known
whether it starts as a string. -/
inductive Ending where
  | complete
  | faulty (string : Bool) (fault : Fault)
deriving DecidableEq, Repr

namespace Token

/-! ### Results that are not faults -/

/-- What a mapped result succeeds with comes from a success. -/
theorem ok_of_map_eq_ok {α β ε : Type} {x : Except ε α} {f : α → β} {b : β}
    (h : x.map f = .ok b) : ∃ a, x = .ok a ∧ f a = b := by
  cases x with
  | error _ => simp [Except.map] at h
  | ok a => exact ⟨a, rfl, by simpa [Except.map] using h⟩

/-- What two steps succeed with, each of them succeeded with. -/
theorem ok_of_bind_eq_ok {α β : Type} {x : Except Fault α} {f : α → Except Fault β} {b : β}
    (h : x >>= f = .ok b) : ∃ a, x = .ok a ∧ f a = .ok b := by
  cases x with
  | error _ => simp [bind, Except.bind] at h
  | ok a => exact ⟨a, rfl, h⟩

/-! ### Escapes and strings -/

/-- The value of a hexadecimal digit. -/
def hexDigit? : Symbol → Option Nat
  | .char c  => Text.hexDigit? c
  | .stray _ => none

/-- The number four hexadecimal digits write. The four bytes are taken whatever they are. -/
def fourDigits (symbols : List Symbol) : Except Fault (Nat × List Symbol) :=
  if ((symbols.take 4).map Symbol.size).foldl (· + ·) 0 < 4 then .error .unfinished
  else
    match symbols with
    | a :: b :: c :: d :: rest =>
      match hexDigit? a, hexDigit? b, hexDigit? c, hexDigit? d with
      | some a, some b, some c, some d => .ok (((a * 16 + b) * 16 + c) * 16 + d, rest)
      | _, _, _, _ => .error .malformed
    | _ => .error .malformed

/-- The character of a code unit and what follows it: the first half of a surrogate pair takes the
second half with it, and no half stands alone. -/
def characterOf (unit : Nat) (rest : List Symbol) : Except Fault (Char × List Symbol) :=
  if 0xDC00 ≤ unit ∧ unit < 0xE000 then .error .malformed
  else if 0xD800 ≤ unit ∧ unit < 0xDC00 then
    match rest with
    | [] | [.char '\\'] => .error .unfinished
    | .char '\\' :: .char 'u' :: rest =>
      match fourDigits rest with
      | .error fault => .error fault
      | .ok (low, rest) =>
        if 0xDC00 ≤ low ∧ low < 0xE000 then
          .ok (Char.ofNat (0x10000 + (unit - 0xD800) * 0x400 + (low - 0xDC00)), rest)
        else .error .malformed
    | _ => .error .malformed
  else .ok (Char.ofNat unit, rest)

/-- The character that a letter after a backslash stands for. -/
def escaped? (c : Char) : Option Char :=
  match c with
  | '"' | '\\' | '/' => some c
  | 'b' => some '\x08'
  | 'f' => some '\x0c'
  | 'n' => some '\n'
  | 'r' => some '\r'
  | 't' => some '\t'
  | _   => none

/-- The character of an escape, after its backslash. -/
def escape : List Symbol → Except Fault (Char × List Symbol)
  | [] => .error .unfinished
  | .char 'u' :: rest =>
    match fourDigits rest with
    | .error fault     => .error fault
    | .ok (unit, rest) => characterOf unit rest
  | .char c :: rest =>
    match escaped? c with
    | some c => .ok (c, rest)
    | none   => .error .malformed
  | .stray _ :: _ => .error .malformed

theorem fourDigits_length {symbols rest : List Symbol} {n : Nat}
    (h : fourDigits symbols = .ok (n, rest)) : rest.length < symbols.length := by
  unfold fourDigits at h
  repeat' split at h
  all_goals grind

theorem characterOf_length {unit : Nat} {symbols rest : List Symbol} {c : Char}
    (h : characterOf unit symbols = .ok (c, rest)) : rest.length ≤ symbols.length := by
  unfold characterOf at h
  repeat' split at h
  all_goals first
    | contradiction
    | (next hf _ =>
        have := fourDigits_length hf
        simp only [Except.ok.injEq, Prod.mk.injEq] at h
        obtain ⟨-, rfl⟩ := h
        simp only [List.length_cons]; omega)
    | grind

theorem escape_length {symbols rest : List Symbol} {c : Char}
    (h : escape symbols = .ok (c, rest)) : rest.length < symbols.length := by
  unfold escape at h
  repeat' split at h
  all_goals first
    | contradiction
    | (next hf =>
        have := fourDigits_length hf
        have := characterOf_length h
        simp only [List.length_cons]; omega)
    | grind

/-- A string after its opening quote: its characters, and what follows its closing quote. A stray
byte spoils the string, which shows only once the string is closed. -/
def quoted (spoiled : Bool) : List Symbol → Except Fault (List Char × List Symbol)
  | [] => .error .unfinished
  | .stray _ :: rest => quoted true rest
  | .char '"' :: rest => if spoiled then .error .malformed else .ok ([], rest)
  | .char '\\' :: rest =>
    match _h : escape rest with
    | .error fault   => .error fault
    | .ok (c, after) => (quoted spoiled after).map fun (cs, after) => (c :: cs, after)
  | .char c :: rest =>
    if c < ' ' then .error .malformed
    else (quoted spoiled rest).map fun (cs, after) => (c :: cs, after)
termination_by symbols => symbols.length
decreasing_by
  all_goals first
    | (have short := escape_length _h; simp only [List.length_cons]; omega)
    | (simp only [List.length_cons]; omega)

/-- A string ends with its quote, so it is at least one symbol long. -/
theorem quoted_length {spoiled : Bool} {symbols rest : List Symbol} {cs : List Char}
    (h : quoted spoiled symbols = .ok (cs, rest)) : rest.length < symbols.length := by
  fun_induction quoted spoiled symbols generalizing cs rest with
  | case1 | case3 | case5 | case7 => contradiction
  | case2 spoiled b rest ih => have := ih h; simp only [List.length_cons]; omega
  | case4 => grind
  | case6 spoiled tail c after he ih =>
    have := escape_length he
    obtain ⟨⟨_, _⟩, hq, hp⟩ := ok_of_map_eq_ok h
    have := ih hq
    grind
  | case8 spoiled c tail _ _ _ ih =>
    obtain ⟨⟨_, _⟩, hq, hp⟩ := ok_of_map_eq_ok h
    have := ih hq
    grind

/-! ### Numbers -/

/-- Whether a symbol is a decimal digit. -/
def isDigit : Symbol → Bool
  | .char c  => c.isDigit
  | .stray _ => false

/-- The leading digits. -/
def digits (symbols : List Symbol) : List Char :=
  (symbols.takeWhile isDigit).filterMap fun | .char c => some c | .stray _ => none

/-- What follows the leading digits. -/
def afterDigits (symbols : List Symbol) : List Symbol := symbols.dropWhile isDigit

/-- A nonempty run of digits, and what follows it. -/
def someDigits (symbols : List Symbol) : Except Fault (List Char × List Symbol) :=
  match symbols with
  | [] => .error .unfinished
  | s :: _ => if isDigit s then .ok (digits symbols, afterDigits symbols) else .error .malformed

/-- The integer part of a number: one zero, or digits that do not start with a zero. -/
def integerPart (symbols : List Symbol) : Except Fault (List Char × List Symbol) :=
  match symbols with
  | .char '0' :: rest => if rest.head?.any isDigit then .error .malformed else .ok (['0'], rest)
  | symbols           => someDigits symbols

/-- The fraction of a number, if it has one. -/
def fractionPart (symbols : List Symbol) : Except Fault (Option (List Char) × List Symbol) :=
  match symbols with
  | .char '.' :: rest => (someDigits rest).map fun (ds, rest) => (some ds, rest)
  | symbols           => .ok (none, symbols)

/-- The digits of an exponent after its letter, with its sign. -/
def signedDigits (symbols : List Symbol) : Except Fault (Int × List Symbol) :=
  match symbols with
  | .char '-' :: rest =>
    (someDigits rest).map fun (ds, rest) => (-(Nat.ofDigitChars 10 ds 0 : Int), rest)
  | .char '+' :: rest =>
    (someDigits rest).map fun (ds, rest) => ((Nat.ofDigitChars 10 ds 0 : Int), rest)
  | symbols =>
    (someDigits symbols).map fun (ds, rest) => ((Nat.ofDigitChars 10 ds 0 : Int), rest)

/-- The exponent of a number, if it has one. -/
def exponentPart (symbols : List Symbol) : Except Fault (Option Int × List Symbol) :=
  match symbols with
  | .char 'e' :: rest | .char 'E' :: rest =>
    (signedDigits rest).map fun (n, rest) => (some n, rest)
  | symbols => .ok (none, symbols)

/-- The number that a literal writes. An integer that fits stays one, except that `-0` is a double;
everything else is the nearest double, and too large a number is none. -/
def numberOf? (negative : Bool) (whole : List Char) (fraction : Option (List Char))
    (exponent : Option Int) : Option Number :=
  let digits := whole ++ fraction.getD []
  let significand := Nat.ofDigitChars 10 digits 0
  let value : Int := if negative then -significand else significand
  if fraction.isNone && exponent.isNone && Number.fits value && !(negative && significand == 0) then
    some (.integer value)
  else
    (Double.ofDecimal? negative significand (exponent.getD 0 - (fraction.getD []).length)).map
      .double

/-- A number after its sign, and what follows it. -/
def unsigned (negative : Bool) (symbols : List Symbol) : Except Fault (Number × List Symbol) := do
  let (whole, rest) ← integerPart symbols
  let (fraction, rest) ← fractionPart rest
  let (exponent, rest) ← exponentPart rest
  match numberOf? negative whole fraction exponent with
  | some n => return (n, rest)
  | none   => .error .malformed

theorem someDigits_length {symbols rest : List Symbol} {ds : List Char}
    (h : someDigits symbols = .ok (ds, rest)) : rest.length < symbols.length := by
  unfold someDigits at h
  split at h
  · contradiction
  · next s tail =>
    split at h
    · next hs =>
      simp only [Except.ok.injEq, Prod.mk.injEq] at h
      obtain ⟨-, rfl⟩ := h
      have := (List.dropWhile_suffix isDigit (l := tail)).length_le
      simp [afterDigits, hs]; omega
    · contradiction

theorem integerPart_length {symbols rest : List Symbol} {ds : List Char}
    (h : integerPart symbols = .ok (ds, rest)) : rest.length < symbols.length := by
  unfold integerPart at h
  split at h
  · grind
  · exact someDigits_length h

theorem fractionPart_length {symbols rest : List Symbol} {ds : Option (List Char)}
    (h : fractionPart symbols = .ok (ds, rest)) : rest.length ≤ symbols.length := by
  unfold fractionPart at h
  split at h
  · obtain ⟨⟨_, _⟩, hs, hp⟩ := ok_of_map_eq_ok h
    have := someDigits_length hs; grind
  · grind

theorem signedDigits_length {symbols rest : List Symbol} {n : Int}
    (h : signedDigits symbols = .ok (n, rest)) : rest.length < symbols.length := by
  unfold signedDigits at h
  split at h
  all_goals
    obtain ⟨⟨_, _⟩, hs, hp⟩ := ok_of_map_eq_ok h
    have := someDigits_length hs; grind

theorem exponentPart_length {symbols rest : List Symbol} {n : Option Int}
    (h : exponentPart symbols = .ok (n, rest)) : rest.length ≤ symbols.length := by
  unfold exponentPart at h
  split at h
  · obtain ⟨⟨_, _⟩, hs, hp⟩ := ok_of_map_eq_ok h
    have := signedDigits_length hs; grind
  · obtain ⟨⟨_, _⟩, hs, hp⟩ := ok_of_map_eq_ok h
    have := signedDigits_length hs; grind
  · grind

theorem unsigned_length {negative : Bool} {symbols rest : List Symbol} {n : Number}
    (h : unsigned negative symbols = .ok (n, rest)) : rest.length < symbols.length := by
  unfold unsigned at h
  obtain ⟨⟨_, _⟩, hi, h⟩ := ok_of_bind_eq_ok h
  obtain ⟨⟨_, _⟩, hf, h⟩ := ok_of_bind_eq_ok h
  obtain ⟨⟨_, _⟩, he, h⟩ := ok_of_bind_eq_ok h
  have := integerPart_length hi
  have := fractionPart_length hf
  have := exponentPart_length he
  simp only at h
  split at h
  · simp only [pure, Except.pure, Except.ok.injEq, Prod.mk.injEq] at h
    obtain ⟨-, rfl⟩ := h
    omega
  · contradiction

/-! ### Scanning -/

/-- White space between lexemes. -/
def isBlank (c : Char) : Bool := c == ' ' || c == '\n' || c == '\t' || c == '\r'

/-- Takes the letters of a word. -/
def word : List Char → List Symbol → Except Fault (List Symbol)
  | [], rest => .ok rest
  | _ :: _, [] => .error .unfinished
  | c :: cs, s :: rest => if s = .char c then word cs rest else .error .malformed

theorem word_length {cs : List Char} {symbols rest : List Symbol}
    (h : word cs symbols = .ok rest) : rest.length ≤ symbols.length := by
  fun_induction word cs symbols <;> grind

/-- The token of one character. -/
def punctuator? : Char → Option Token
  | '[' => some .arrayOpen
  | ']' => some .arrayClose
  | '{' => some .objectOpen
  | '}' => some .objectClose
  | ',' => some .comma
  | ':' => some .colon
  | _   => none

/-- The letters after the first of a word that is a value, and the value. -/
def word? : Char → Option (List Char × Token)
  | 'n' => some (['u', 'l', 'l'], .null)
  | 't' => some (['r', 'u', 'e'], .boolean true)
  | 'f' => some (['a', 'l', 's', 'e'], .boolean false)
  | _   => none

/-- The token that starts with this character, and what follows it. -/
def next (c : Char) (rest : List Symbol) : Except Fault (Token × List Symbol) :=
  if let some token := punctuator? c then .ok (token, rest)
  else if let some (letters, token) := word? c then (word letters rest).map ((token, ·))
  else if c == '"' then
    (quoted false rest).map fun (cs, after) => (.string (String.ofList cs), after)
  else if c == '-' then (unsigned true rest).map fun (n, after) => (.number n, after)
  else (unsigned false (.char c :: rest)).map fun (n, after) => (.number n, after)

/-- A token is at least one symbol long, so scanning comes to an end. -/
theorem next_length {c : Char} {symbols rest : List Symbol} {token : Token}
    (h : next c symbols = .ok (token, rest)) : rest.length < symbols.length + 1 := by
  unfold next at h
  repeat' split at h
  · grind
  · obtain ⟨r, hr, hp⟩ := ok_of_map_eq_ok h
    have := word_length hr; grind
  · obtain ⟨⟨cs, r⟩, hr, hp⟩ := ok_of_map_eq_ok h
    have := quoted_length hr; grind
  · obtain ⟨⟨n, r⟩, hr, hp⟩ := ok_of_map_eq_ok h
    have := unsigned_length hr; grind
  · obtain ⟨⟨n, r⟩, hr, hp⟩ := ok_of_map_eq_ok h
    have := unsigned_length hr; grind

/-- The tokens of a sequence of symbols, and how they end. -/
def scan : List Symbol → List Token × Ending
  | [] => ([], .complete)
  | .stray _ :: _ => ([], .faulty false .malformed)
  | .char c :: rest =>
    if isBlank c then scan rest
    else
      match _h : next c rest with
      | .error fault     => ([], .faulty (c == '"') fault)
      | .ok (token, after) =>
        let (tokens, ending) := scan after
        (token :: tokens, ending)
termination_by symbols => symbols.length
decreasing_by
  · simp only [List.length_cons]; omega
  · have := next_length _h; simp only [List.length_cons]; omega

end Token

end GraphTrace.Json
