import GraphTrace.Document.Name
import GraphTrace.Text.Hexadecimal

/-!
# Lexemes of a document

`Token.scan` splits a text into lexemes and drops what GraphQL ignores: blanks, comments and
commas.  A comma is dropped but not forgotten, because in a few places it keeps two lexemes apart
(`Token.afterComma`).  A text with any lexical error has no tokens at all.

Numbers and strings keep their written form; a string is only checked to denote Unicode scalar
values.
-/

namespace GraphTrace.Document

open Text (hexDigit? hexNumber?)

/-- A lexeme. -/
inductive Lexeme where
  | punctuator (c : Char)
  | ellipsis
  | name (text : String)
  | number (text : String)
  | string (text : String)
deriving DecidableEq, Repr

/-- A lexeme, and whether a comma stands between it and the lexeme before it. -/
structure Token where
  lexeme : Lexeme
  afterComma : Bool
deriving DecidableEq, Repr

namespace Token

/-! ### Character classes -/

/-- Blanks: space, tab, line feed, carriage return and the byte order mark. -/
def isBlank (c : Char) : Bool :=
  c == ' ' || c == '\t' || c == '\n' || c == '\r' || c == '\uFEFF'

/-- The characters that end a line. -/
def isLineEnd (c : Char) : Bool := c == '\n' || c == '\r'

/-- The punctuators of one character. -/
def isPunctuator (c : Char) : Bool :=
  ['!', '$', '&', '(', ')', '[', ']', '{', '}', ':', '=', '@', '|'].contains c

/-! ### Numbers -/

/-- The rest after a nonempty run of digits. -/
def afterDigits? (cs : List Char) : Option (List Char) :=
  let rest := cs.dropWhile Char.isDigit
  if rest.length < cs.length then some rest else none

/-- The rest after the integer part: one zero, or digits that do not start with a zero. -/
def afterInteger? (cs : List Char) : Option (List Char) :=
  match cs with
  | '0' :: rest => if rest.head?.any Char.isDigit then none else some rest
  | cs          => afterDigits? cs

/-- The rest after an optional fraction. -/
def afterFraction? : List Char → Option (List Char)
  | '.' :: rest => afterDigits? rest
  | cs          => some cs

/-- The rest after an optional exponent. -/
def afterExponent? : List Char → Option (List Char)
  | c :: rest =>
    if c == 'e' || c == 'E' then
      match rest with
      | '+' :: digits | '-' :: digits => afterDigits? digits
      | digits                        => afterDigits? digits
    else some (c :: rest)
  | [] => some []

/-- The rest after a number. Neither a name nor a point may follow it directly. -/
def afterNumber? (cs : List Char) : Option (List Char) := do
  let unsigned := match cs with | '-' :: rest => rest | cs => cs
  let rest ← afterExponent? (← afterFraction? (← afterInteger? unsigned))
  if rest.head?.any (fun c => Name.isPart c || c == '.') then none else some rest

/-! ### Strings -/

/-- The rest of a quoted string: what stands up to the closing quote, and what follows it. A line
may not end in there. -/
def splitLine : List Char → Option (List Char × List Char)
  | [] => none
  | '"' :: rest => some ([], rest)
  | '\\' :: c :: rest =>
    if isLineEnd c then none
    else (splitLine rest).map fun (body, after) => ('\\' :: c :: body, after)
  | c :: rest =>
    if isLineEnd c then none else (splitLine rest).map fun (body, after) => (c :: body, after)

/-- A quoted string after its opening quote: what stands up to the closing quote, and the rest.
The character right after the opening quote may end a line, but no other one. -/
def splitQuoted (cs : List Char) : Option (List Char × List Char) :=
  match cs with
  | [] => none
  | c :: rest =>
    if isLineEnd c then (splitLine rest).map fun (body, after) => (c :: body, after)
    else splitLine (c :: rest)

/-- A block string after its three opening quotes: what stands up to the three closing ones, and
the rest. Three quotes after a backslash do not close it. -/
def splitBlock : List Char → Option (List Char × List Char)
  | [] => none
  | '\\' :: '"' :: '"' :: '"' :: rest =>
    (splitBlock rest).map fun (body, after) => ('\\' :: '"' :: '"' :: '"' :: body, after)
  | '"' :: '"' :: '"' :: rest => some ([], rest)
  | c :: rest => (splitBlock rest).map fun (body, after) => (c :: body, after)

/-- A number below the surrogates, or above them and in the range of Unicode. -/
def isScalar (n : Nat) : Bool := n < 0xD800 || (0xDFFF < n && n < 0x110000)

/-- The first half of a surrogate pair. -/
def isHighSurrogate (n : Nat) : Bool := 0xD800 ≤ n && n < 0xDC00

/-- The second half of a surrogate pair. -/
def isLowSurrogate (n : Nat) : Bool := 0xDC00 ≤ n && n < 0xE000

/-- The rest after the digits and the brace of an escape `\u{…}` that denotes a scalar value.
`seen` is the number read so far; it stops growing once it is out of range. -/
def afterBraced? (seen : Option Nat) : List Char → Option (List Char)
  | [] => none
  | '}' :: rest => if seen.any isScalar then some rest else none
  | c :: rest => do
    let digit ← hexDigit? c
    afterBraced? (some (min (seen.getD 0 * 16 + digit) 0x110000)) rest

theorem afterBraced?_length {seen : Option Nat} {cs rest : List Char}
    (h : afterBraced? seen cs = some rest) : rest.length < cs.length := by
  fun_induction afterBraced? seen cs with
  | case1 => contradiction
  | case2 => grind
  | case3 => contradiction
  | case4 seen c cs _ ih =>
    simp only [Option.bind_eq_bind, Option.bind_eq_some_iff] at h
    obtain ⟨digit, _, h⟩ := h
    have := ih digit h
    simp only [List.length_cons]; omega

/-- Whether every escape between the quotes is known and denotes a scalar value. A pair of
surrogates denotes one. -/
def escapesAgree : List Char → Bool
  | [] => true
  | '\\' :: 'u' :: '{' :: rest =>
    match _h : afterBraced? none rest with
    | some after => escapesAgree after
    | none       => false
  | '\\' :: 'u' :: a :: b :: c :: d :: rest =>
    match hexNumber? [a, b, c, d] with
    | none => false
    | some unit =>
      if isScalar unit then escapesAgree rest
      else
        match rest with
        | '\\' :: 'u' :: a :: b :: c :: d :: after =>
          isHighSurrogate unit && (hexNumber? [a, b, c, d]).any isLowSurrogate
            && escapesAgree after
        | _ => false
  | '\\' :: c :: rest => "\"\\/bfnrt".toList.contains c && escapesAgree rest
  | ['\\'] => false
  | _ :: rest => escapesAgree rest
termination_by cs => cs.length
decreasing_by
  all_goals first
    | (have short := afterBraced?_length _h; simp only [List.length_cons]; omega)
    | (simp only [List.length_cons]; omega)

/-- A string after its first quote: its body as written, and the rest. -/
def splitString (cs : List Char) : Option (List Char × List Char) :=
  match cs with
  | '"' :: '"' :: rest => splitBlock rest
  | cs => do
    let (body, rest) ← splitQuoted cs
    if escapesAgree body then some (body, rest) else none

/-! ### What a lexeme leaves is shorter -/

theorem length_dropWhile_le {α : Type} (p : α → Bool) (cs : List α) :
    (cs.dropWhile p).length ≤ cs.length := (List.dropWhile_suffix p).length_le

theorem splitLine_length {cs body rest : List Char} (h : splitLine cs = some (body, rest)) :
    rest.length < cs.length := by
  fun_induction splitLine cs generalizing body with
  | case1 | case3 | case5 => contradiction
  | case2 => grind
  | case4 c cs _ ih | case6 c cs _ _ _ ih =>
    obtain ⟨⟨_, _⟩, hs, h⟩ := Option.map_eq_some_iff.1 h
    grind

theorem splitQuoted_length {cs body rest : List Char} (h : splitQuoted cs = some (body, rest)) :
    rest.length < cs.length := by
  unfold splitQuoted at h
  split at h
  · contradiction
  · split at h
    · obtain ⟨⟨_, _⟩, hs, h⟩ := Option.map_eq_some_iff.1 h
      have := splitLine_length hs
      grind
    · exact splitLine_length h

theorem splitBlock_length {cs body rest : List Char} (h : splitBlock cs = some (body, rest)) :
    rest.length < cs.length := by
  fun_induction splitBlock cs generalizing body with
  | case1 => contradiction
  | case3 => grind
  | case2 cs ih | case4 c cs _ _ ih =>
    obtain ⟨⟨_, _⟩, hs, h⟩ := Option.map_eq_some_iff.1 h
    grind

/-- A string is at least one character long, with its quotes. -/
theorem splitString_length {cs body rest : List Char} (h : splitString cs = some (body, rest)) :
    rest.length < cs.length := by
  unfold splitString at h
  split at h
  · have := splitBlock_length h; grind
  · simp only [Option.bind_eq_bind, Option.bind_eq_some_iff] at h
    obtain ⟨⟨b, r⟩, hq, h⟩ := h
    have := splitQuoted_length hq
    grind

theorem afterDigits?_length {cs rest : List Char} (h : afterDigits? cs = some rest) :
    rest.length < cs.length := by grind [afterDigits?]

theorem afterInteger?_length {cs rest : List Char} (h : afterInteger? cs = some rest) :
    rest.length < cs.length := by
  unfold afterInteger? at h
  split at h
  · grind
  · exact afterDigits?_length h

theorem afterFraction?_length {cs rest : List Char} (h : afterFraction? cs = some rest) :
    rest.length ≤ cs.length := by
  unfold afterFraction? at h
  split at h
  · have := afterDigits?_length h; grind
  · grind

theorem afterExponent?_length {cs rest : List Char} (h : afterExponent? cs = some rest) :
    rest.length ≤ cs.length := by
  unfold afterExponent? at h
  repeat' split at h
  all_goals first
    | (have short := afterDigits?_length h; simp only [List.length_cons] at *; omega)
    | grind

/-- A number is at least one character long. -/
theorem afterNumber?_length {cs rest : List Char} (h : afterNumber? cs = some rest) :
    rest.length < cs.length := by
  unfold afterNumber? at h
  simp only [Option.bind_eq_bind, Option.bind_eq_some_iff] at h
  obtain ⟨i, hi, f, hf, e, he, h⟩ := h
  have hi := afterInteger?_length hi
  have hf := afterFraction?_length hf
  have he := afterExponent?_length he
  grind

/-! ### Scanning -/

/-- The tokens of the characters; `afterComma` tells whether a comma was passed since the last
lexeme. -/
def scanFrom (afterComma : Bool) : List Char → Option (List Token)
  | [] => some []
  | c :: cs =>
    if c == ',' then scanFrom true cs
    else if isBlank c then scanFrom afterComma cs
    else if c == '#' then scanFrom afterComma (cs.dropWhile (! isLineEnd ·))
    else if isPunctuator c then do
      return ⟨.punctuator c, afterComma⟩ :: (← scanFrom false cs)
    else if c == '.' then
      match cs with
      | '.' :: '.' :: rest => do return ⟨.ellipsis, afterComma⟩ :: (← scanFrom false rest)
      | _ => none
    else if Name.isStart c then do
      return ⟨.name (String.ofList (c :: cs.takeWhile Name.isPart)), afterComma⟩
        :: (← scanFrom false (cs.dropWhile Name.isPart))
    else if c == '"' then
      match _h : splitString cs with
      | some (body, rest) => do
        return ⟨.string (String.ofList body), afterComma⟩ :: (← scanFrom false rest)
      | none => none
    else
      match _h : afterNumber? (c :: cs) with
      | some rest => do
        let written := (c :: cs).take ((c :: cs).length - rest.length)
        return ⟨.number (String.ofList written), afterComma⟩ :: (← scanFrom false rest)
      | none => none
termination_by cs => cs.length
decreasing_by
  all_goals simp only [List.length_cons]
  all_goals first
    | omega
    | (have short := length_dropWhile_le (! isLineEnd ·) cs; omega)
    | (have short := length_dropWhile_le Name.isPart cs; omega)
    | (have short := splitString_length _h; omega)
    | (have short := afterNumber?_length _h; simp only [List.length_cons] at short; omega)

/-- The tokens of a text, or none if some part of it is no lexeme. -/
def scan (text : String) : Option (List Token) := scanFrom false text.toList

end Token

end GraphTrace.Document
