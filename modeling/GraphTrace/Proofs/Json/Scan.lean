import GraphTrace.Proofs.Json.Number

/-!
# Scanning what was written

Each lexeme of a value is scanned back from its text (`Token.scan_text`): a punctuator and a word at
once, a string character by character, each with its escape, and a number as a literal.  Only a
number needs to know what follows it, and in a value a comma or the end of a container does, so the
text of a value is scanned to its lexemes (`scan_text`).
-/

namespace GraphTrace.Json

/-! ### Bytes -/

/-- Bytes that encode characters are read as these characters. -/
theorem Symbol.decodeFrom_eq {bytes : ByteArray} {cs : List Char} {i : Nat}
    (h : bytes.extract i bytes.size = cs.utf8Encode) (hi : i ≤ bytes.size) :
    Symbol.decodeFrom bytes i = symbols cs := by
  induction cs generalizing i with
  | nil =>
      have hsize : bytes.size - i = 0 := by simpa using congrArg ByteArray.size h
      rw [decodeFrom, dif_neg (by omega), symbols_nil]
  | cons c cs ih =>
      have hsize : bytes.size - i = c.utf8Size + cs.utf8Encode.size := by
        have := congrArg ByteArray.size h
        rw [List.utf8Encode_cons] at this
        simpa [List.utf8Encode_singleton] using this
      have hpos := c.utf8Size_pos
      have hchar : bytes.utf8DecodeChar? i = some c := by
        rw [ByteArray.utf8DecodeChar?_eq_utf8DecodeChar?_extract, h,
          List.utf8DecodeChar?_utf8Encode_cons]
      have hrest : bytes.extract (i + c.utf8Size) bytes.size = cs.utf8Encode := by
        have hfirst : c.utf8Size = [c].utf8Encode.size := by simp [List.utf8Encode_singleton]
        have hextract := ByteArray.extract_extract (a := bytes) (i := i) (j := bytes.size)
          (k := c.utf8Size) (l := bytes.size - i)
        rw [Nat.min_eq_right (by omega)] at hextract
        rw [← hextract, h, List.utf8Encode_cons,
          ByteArray.extract_append_eq_right hfirst (by omega)]
      rw [decodeFrom, dif_pos (by omega), hchar]
      simp only [symbols_cons, ih hrest (by omega)]

/-- **A text in bytes** is read as its characters. -/
theorem Symbol.decode_toUTF8 (text : String) : Symbol.decode text.toUTF8 = symbols text.toList := by
  refine decodeFrom_eq ?_ (Nat.zero_le _)
  rw [String.toUTF8_eq_toByteArray, ByteArray.extract_zero_size, String.utf8Encode_toList]

namespace Token

variable {rest : List Symbol}

/-! ### Strings -/

theorem hexDigit?_hexDigit {n : Nat} (h : n < 16) : hexDigit? (.char (hexDigit n)) = some n := by
  revert n
  decide

theorem quoted_escape {tail after : List Symbol} {c : Char} (h : escape tail = .ok (c, after)) :
    quoted false (.char '\\' :: tail) = (quoted false after).map fun p => (c :: p.1, p.2) := by
  rw [quoted]
  split
  case h_1 e => rw [h] at e; contradiction
  case h_2 e =>
    rw [h] at e
    obtain ⟨rfl, rfl⟩ := Prod.mk.inj (Except.ok.inj e)
    rfl

/-- The code of a control character is read as the character. -/
theorem escape_control {c : Char} (h : c < ' ') (rest : List Symbol) :
    escape (.char 'u' :: .char '0' :: .char '0' :: .char (hexDigit (c.toNat / 16))
      :: .char (hexDigit (c.toNat % 16)) :: rest) = .ok (c, rest) := by
  have hlt : c.toNat < 32 := h
  have hhigh := hexDigit?_hexDigit (n := c.toNat / 16) (by omega)
  have hlow := hexDigit?_hexDigit (n := c.toNat % 16) (by omega)
  have hzero : hexDigit? (.char '0') = some 0 := rfl
  have hsize : ¬ 0 + Symbol.size (.char '0') + Symbol.size (.char '0')
      + Symbol.size (.char (hexDigit (c.toNat / 16)))
      + Symbol.size (.char (hexDigit (c.toNat % 16))) < 4 := by
    have h₁ := (hexDigit (c.toNat / 16)).utf8Size_pos
    have h₂ := (hexDigit (c.toNat % 16)).utf8Size_pos
    have h₃ : ('0').utf8Size = 1 := rfl
    simp only [Symbol.size]
    omega
  have hvalue : ((0 * 16 + 0) * 16 + c.toNat / 16) * 16 + c.toNat % 16 = c.toNat := by omega
  have hfour : fourDigits (.char '0' :: .char '0' :: .char (hexDigit (c.toNat / 16))
      :: .char (hexDigit (c.toNat % 16)) :: rest) = .ok (c.toNat, rest) := by
    rw [fourDigits, if_neg (by simpa using hsize)]
    simp only [hzero, hhigh, hlow, hvalue]
  rw [escape, hfour]
  simp only [characterOf]
  rw [if_neg (by omega), if_neg (by omega), Char.ofNat_toNat]

/-- **A character** is read from its escape. -/
theorem quoted_escapeChar (c : Char) (rest : List Symbol) :
    quoted false (symbols (escapeChar c) ++ rest)
      = (quoted false rest).map fun p => (c :: p.1, p.2) := by
  unfold escapeChar
  split
  case h_8 hquote hbackslash _ _ _ _ _ =>
    split
    case isTrue hcontrol => exact quoted_escape (escape_control hcontrol rest)
    case isFalse hplain =>
      rw [symbols_cons, symbols_nil, List.cons_append, List.nil_append, quoted, if_neg hplain]
      · exact hquote
      · exact hbackslash
  all_goals exact quoted_escape rfl

/-- **A string** is read to its closing quote. -/
theorem quoted_append (cs : List Char) (rest : List Symbol) :
    quoted false (symbols (cs.flatMap escapeChar ++ ['"']) ++ rest) = .ok (cs, rest) := by
  induction cs with
  | nil => simp [quoted]
  | cons c cs ih =>
      rw [List.flatMap_cons, List.append_assoc, symbols_append, List.append_assoc,
        quoted_escapeChar, ih]
      rfl

/-! ### Lexemes -/

/-- A token is scanned off the front. -/
theorem scan_cons {c : Char} {tail rest : List Symbol} {t : Token} (hc : isBlank c = false)
    (h : next c tail = .ok (t, rest)) :
    scan (.char c :: tail) = (t :: (scan rest).1, (scan rest).2) := by
  rw [scan]
  simp only [hc, Bool.false_eq_true, if_false]
  split
  case h_1 e => rw [h] at e; contradiction
  case h_2 e =>
    rw [h] at e
    obtain ⟨rfl, rfl⟩ := Prod.mk.inj (Except.ok.inj e)
    rfl

/-- A digit starts a numeral. -/
theorem next_digit {c : Char} (hc : c.isDigit) (rest : List Symbol) :
    isBlank c = false ∧ next c rest
      = (unsigned false (.char c :: rest)).map fun p => (.number p.1, p.2) := by
  have hne : ∀ c', c'.isDigit = false → c ≠ c' := by
    rintro c' h rfl
    rw [hc] at h
    contradiction
  constructor
  · simp [isBlank, hne ' ' rfl, hne '\n' rfl, hne '\t' rfl, hne '\r' rfl]
  · have hp : punctuator? c = none := by
      unfold punctuator?
      split <;> first | contradiction | rfl
    have hw : word? c = none := by
      unfold word?
      split <;> first | contradiction | rfl
    simp [next, hp, hw, hne '"' rfl, hne '-' rfl]

/-- A numeral starts with a digit, but for its sign. -/
theorem exists_chars {l : Literal} (h : l.WellFormed) :
    ∃ c tail, l.chars = c :: tail ∧ c.isDigit := by
  have hdigit := h.whole
  rcases h.first with e | ⟨c, ds, e, -⟩
  · exact ⟨'0', _, by rw [Literal.chars, e]; rfl, rfl⟩
  · rw [e] at hdigit
    exact ⟨c, _, by rw [Literal.chars, e]; rfl, hdigit c List.mem_cons_self⟩

/-- **A lexeme is scanned** from its text, a number if what follows does not go on with it. -/
theorem scan_text {t : Token} (ht : t.Canonical) (hrest : ∀ n, t = .number n → Delimited rest) :
    scan (symbols t.text.toList ++ rest) = (t :: (scan rest).1, (scan rest).2) := by
  cases t with
  | arrayOpen | arrayClose | objectOpen | objectClose | comma | colon => exact scan_cons rfl rfl
  | null => exact scan_cons rfl rfl
  | boolean b => cases b <;> exact scan_cons rfl rfl
  | string s =>
      have hq := quoted_append s.toList rest
      have htext : (Token.string s).text.toList
          = '"' :: (s.toList.flatMap escapeChar ++ ['"']) := by
        simp [Token.text, quote]
      rw [htext, symbols_cons, List.cons_append]
      have hnext : next '"' (symbols (s.toList.flatMap escapeChar ++ ['"']) ++ rest)
          = .ok (.string (String.ofList s.toList), rest) :=
        congrArg (Except.map _) hq
      rw [String.ofList_toList] at hnext
      exact scan_cons rfl hnext
  | number n =>
      obtain ⟨negative, l, hl, htext, hn⟩ := Number.exists_literal (ht n rfl)
      have hnumber := unsigned_chars hl (hrest n rfl) hn
      rw [Token.text, htext]
      cases negative with
      | true =>
          have hnext : next '-' (symbols l.chars ++ rest) = .ok (.number n, rest) :=
            congrArg (Except.map _) hnumber
          exact scan_cons rfl hnext
      | false =>
          obtain ⟨c, tail, hchars, hc⟩ := exists_chars hl
          rw [hchars, symbols_cons, List.cons_append] at hnumber
          obtain ⟨hblank, hnext⟩ := next_digit hc (symbols tail ++ rest)
          rw [hnumber] at hnext
          rw [hchars]
          exact scan_cons hblank hnext

end Token

/-! ### Values -/

/-- The characters of lexemes. -/
def chars (ts : List Token) : List Char := ts.flatMap fun t => t.text.toList

/-- The text of a value is that of its tokens. -/
theorem toList_text (v : Json) : v.text.toList = chars v.tokens := by
  simp [text, chars, List.flatMap_map]

open Token (scan)

/-- Lexemes are scanned from their texts, and what follows them as it is scanned alone. -/
def Scans (ts : List Token) (rest : List Symbol) : Prop :=
  scan (symbols (chars ts) ++ rest) = (ts ++ (scan rest).1, (scan rest).2)

section

variable {rest : List Symbol}

theorem scans_singleton {t : Token} (ht : t.Canonical)
    (hrest : ∀ n, t = .number n → Delimited rest) : Scans [t] rest := by
  have h := Token.scan_text ht hrest
  simpa [Scans, chars] using h

theorem Scans.append {ts ts' : List Token} (h : Scans ts (symbols (chars ts') ++ rest))
    (h' : Scans ts' rest) : Scans (ts ++ ts') rest := by
  unfold Scans at h h' ⊢
  rw [chars, List.flatMap_append, ← chars, ← chars, symbols_append, List.append_assoc, h, h',
    List.append_assoc]

/-- A lexeme that is not a number is scanned whatever follows it. -/
theorem Scans.cons {t : Token} {ts : List Token} (ht : ∀ n, t ≠ .number n) (h : Scans ts rest) :
    Scans (t :: ts) rest := by
  have hfirst : Scans [t] (symbols (chars ts) ++ rest) :=
    scans_singleton (fun n e => absurd e (ht n)) fun n e => absurd e (ht n)
  exact hfirst.append h

/-- Before a comma and before the end of a container a number ends. -/
theorem delimited_cons {t : Token} (ht : t = .comma ∨ t = .arrayClose ∨ t = .objectClose)
    (ts : List Token) : Delimited (symbols (chars (t :: ts)) ++ rest) := by
  rintro s hs
  rcases ht with rfl | rfl | rfl
  all_goals
    obtain rfl := Option.some.inj hs
    decide

theorem scans_close {t : Token} (ht : ∀ n, t ≠ .number n) : Scans [t] rest :=
  Scans.cons ht rfl

/-- The items of an array are scanned if each of them is. -/
theorem scans_itemTokens {items : List Json}
    (h : ∀ item ∈ items, ∀ rest, Delimited rest → Scans item.tokens rest) :
    Scans (itemTokens items) rest := by
  induction items with
  | nil => exact scans_close nofun
  | cons item items ih =>
      obtain ⟨hitem, hitems⟩ := List.forall_mem_cons.mp h
      cases items with
      | nil => exact (hitem _ (delimited_cons (.inr (.inl rfl)) _)).append (scans_close nofun)
      | cons next items =>
          exact (hitem _ (delimited_cons (.inl rfl) _)).append (.cons nofun (ih hitems))

/-- The members of an object are scanned if each of their values is. -/
theorem scans_memberTokens {members : List (String × Json)}
    (h : ∀ m ∈ members, ∀ rest, Delimited rest → Scans m.2.tokens rest) :
    Scans (memberTokens members) rest := by
  induction members with
  | nil => exact scans_close nofun
  | cons m members ih =>
      obtain ⟨hvalue, hmembers⟩ := List.forall_mem_cons.mp h
      obtain ⟨key, value⟩ := m
      have after : ∀ {ts : List Token}, Scans (value.tokens ++ ts) rest →
          Scans (.string key :: .colon :: value.tokens ++ ts) rest :=
        fun h => .cons nofun (.cons nofun h)
      cases members with
      | nil =>
          exact after ((hvalue _ (delimited_cons (.inr (.inr rfl)) _)).append (scans_close nofun))
      | cons next members =>
          exact after ((hvalue _ (delimited_cons (.inl rfl) _)).append (.cons nofun (ih hmembers)))

/-- **A value is scanned** to its lexemes, if what follows it does not go on with a number. -/
theorem scans_tokens {limit : Nat} {v : Json} (hv : Canonical limit v) (hrest : Delimited rest) :
    Scans v.tokens rest := by
  induction hv generalizing rest with
  | null => exact scans_close nofun
  | boolean b => exact scans_close nofun
  | number hn => exact scans_singleton (fun _ e => Token.number.inj e ▸ hn) fun _ _ => hrest
  | string s => exact scans_close nofun
  | array _ ih => exact .cons nofun (scans_itemTokens fun item hi _ => ih item hi)
  | object _ _ ih => exact .cons nofun (scans_memberTokens fun m hm _ => ih m hm)

/-- **The text of a value** is scanned to its lexemes. -/
theorem scan_text {limit : Nat} {v : Json} (hv : Canonical limit v) :
    scan (symbols v.text.toList) = (v.tokens, .complete) := by
  have hend : Delimited [] := nofun
  have h := scans_tokens hv hend
  rw [toList_text]
  unfold Scans at h
  simpa [Token.scan] using h

end

end GraphTrace.Json
