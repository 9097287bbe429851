import GraphTrace.Json.Reader

/-!
# Values as they are read

A value that was read is `Canonical`: no two members of an object have one key, since the last one
under a key replaces those before it; an integer fits 64 bits, since any other number is a double;
and no more than a given number of containers stand inside one another.

The reader keeps this of everything it holds: of the items and members of the containers around the
place it is at, and of the value it ends with (`Holds`).  A step keeps it (`Holds.step`), so what
bytes write is canonical (`canonical_of_ofBytes`).
-/

namespace GraphTrace.Json

/-! ### Canonical values -/

/-- A double, or an integer of 64 bits, signed or unsigned. -/
def Number.Canonical : Number → Prop
  | .integer n => fits n
  | .double _  => True

/-- A value in which at most `limit` containers stand inside one another. -/
inductive Canonical : Nat → Json → Prop where
  | null {limit : Nat} : Canonical limit .null
  | boolean {limit : Nat} (b : Bool) : Canonical limit (.boolean b)
  | number {limit : Nat} {n : Number} (h : n.Canonical) : Canonical limit (.number n)
  | string {limit : Nat} (s : String) : Canonical limit (.string s)
  | array {limit : Nat} {items : List Json} (h : ∀ item ∈ items, Canonical limit item) :
      Canonical (limit + 1) (.array items)
  | object {limit : Nat} {members : List (String × Json)} (hk : (members.map (·.1)).Nodup)
      (h : ∀ m ∈ members, Canonical limit m.2) : Canonical (limit + 1) (.object members)

/-- More containers are allowed. -/
theorem Canonical.mono {limit limit' : Nat} {v : Json} (h : Canonical limit v)
    (hle : limit ≤ limit') : Canonical limit' v := by
  induction h generalizing limit' with
  | null => exact .null
  | boolean b => exact .boolean b
  | number h => exact .number h
  | string s => exact .string s
  | array h ih =>
      obtain ⟨limit', rfl⟩ := Nat.exists_eq_add_of_lt hle
      exact .array fun item hi => ih item hi (by omega)
  | object hk h ih =>
      obtain ⟨limit', rfl⟩ := Nat.exists_eq_add_of_lt hle
      exact .object hk fun m hm => ih m hm (by omega)

/-- An object that can be read back has no key twice. -/
theorem Canonical.nodup_keys {limit : Nat} {members : List (String × Json)}
    (h : Canonical limit (.object members)) : (members.map (·.1)).Nodup := by
  cases h with
  | object hk _ => exact hk

/-- The items of an array may nest one level less deeply than the array. -/
theorem Canonical.item {limit : Nat} {items : List Json} (h : Canonical limit (.array items)) :
    ∃ inner, limit = inner + 1 ∧ ∀ item ∈ items, Canonical inner item := by
  cases h with
  | array h => exact ⟨_, rfl, h⟩

theorem nodup_append_singleton {keys : List String} {key : String} (h : keys.Nodup)
    (hk : key ∉ keys) : (keys ++ [key]).Nodup := by
  rw [List.nodup_append]
  refine ⟨h, by simp, fun a ha b hb e => hk ?_⟩
  rw [← List.mem_singleton.mp hb, ← e]
  exact ha

/-- Setting a member adds its key if it is missing. -/
theorem keys_setMember (key : String) (value : Json) (members : List (String × Json)) :
    (setMember key value members).map (·.1)
      = if key ∈ members.map (·.1) then members.map (·.1) else members.map (·.1) ++ [key] := by
  induction members with
  | nil => rfl
  | cons m rest ih =>
      rw [setMember]
      by_cases h : m.1 = key
      · simp [h]
      · simp only [beq_iff_eq, h, if_false, List.map_cons, ih, List.mem_cons, Ne.symm h, false_or]
        split <;> rfl

/-- After setting a member there is that one, and there are those before. -/
theorem mem_setMember {key : String} {value : Json} {members : List (String × Json)}
    {m : String × Json} (h : m ∈ setMember key value members) : m = (key, value) ∨ m ∈ members := by
  induction members with
  | nil => exact .inl (List.mem_singleton.mp h)
  | cons first rest ih =>
      rw [setMember] at h
      split at h
      · rcases List.mem_cons.mp h with rfl | h
        · exact .inl rfl
        · exact .inr (List.mem_cons_of_mem _ h)
      · rcases List.mem_cons.mp h with rfl | h
        · exact .inr List.mem_cons_self
        · exact (ih h).imp_right (List.mem_cons_of_mem _)

/-! ### What the reader holds -/

/-- A container whose items or members are canonical. -/
def Frame.Canonical (limit : Nat) : Frame → Prop
  | .array items      => ∀ item ∈ items, Json.Canonical limit item
  | .object members _ =>
    (members.map (·.1)).Nodup ∧ ∀ m ∈ members, Json.Canonical limit m.2

/-- Containers inside one another, the innermost first. -/
def CanonicalFrames (limit : Nat) : List Frame → Prop
  | []         => True
  | f :: outer =>
    outer.length < limit ∧ f.Canonical (limit - outer.length - 1) ∧ CanonicalFrames limit outer

/-- The containers around the place that a state is at, with the one that the state is in. -/
def State.frames (outer : List Frame) : State → List Frame
  | .value | .done _     => outer
  | .firstItem           => .array [] :: outer
  | .afterItem items     => .array items :: outer
  | .firstKey            => .object [] "" :: outer
  | .key members         => .object members "" :: outer
  | .colon members k     => .object members k :: outer
  | .afterMember members => .object members "" :: outer

/-- Everything in a state is canonical. -/
structure Holds (limit : Nat) (s : State × List Frame) : Prop where
  frames : CanonicalFrames limit (s.1.frames s.2)
  done : ∀ v, s.1 = .done v → Canonical limit v

/-- A token that is a number is one of 64 bits or a double. -/
def Token.Canonical (token : Token) : Prop := ∀ n, token = .number n → n.Canonical

section

variable {limit : Nat} {outer : List Frame} {v : Json}

/-- A whole value keeps its surroundings canonical. -/
theorem holds_after (hf : CanonicalFrames limit outer)
    (hv : Canonical (limit - outer.length) v) : Holds limit (State.after v outer) := by
  cases outer with
  | nil =>
      refine ⟨trivial, fun w e => ?_⟩
      obtain rfl := State.done.inj e
      exact hv
  | cons f outer =>
      obtain ⟨hlt, hframe, houter⟩ := hf
      have hv : Canonical (limit - outer.length - 1) v := hv
      cases f with
      | array items =>
          refine ⟨⟨hlt, fun item hi => ?_, houter⟩, fun w e => nomatch e⟩
          rcases List.mem_append.mp hi with hi | hi
          · exact hframe item hi
          · exact List.mem_singleton.mp hi ▸ hv
      | object members key =>
          obtain ⟨hkeys, hmembers⟩ := hframe
          refine ⟨⟨hlt, ⟨?_, fun m hm => ?_⟩, houter⟩, fun w e => nomatch e⟩
          · rw [keys_setMember]
            split
            · exact hkeys
            case isFalse hno => exact nodup_append_singleton hkeys hno
          · rcases mem_setMember hm with rfl | hm
            · exact hv
            · exact hmembers m hm

/-- A container that was held is a canonical value. -/
theorem Frame.canonical_array {items : List Json} (hlt : outer.length < limit)
    (h : (Frame.array items).Canonical (limit - outer.length - 1)) :
    Json.Canonical (limit - outer.length) (.array items) := by
  obtain ⟨n, hn⟩ : ∃ n, limit - outer.length = n + 1 := ⟨limit - outer.length - 1, by omega⟩
  rw [hn] at h ⊢
  exact .array h

/-- An open object may be closed at the depth at which it stands. -/
theorem Frame.canonical_object {members : List (String × Json)} {key : String}
    (hlt : outer.length < limit)
    (h : (Frame.object members key).Canonical (limit - outer.length - 1)) :
    Json.Canonical (limit - outer.length) (.object members) := by
  obtain ⟨n, hn⟩ : ∃ n, limit - outer.length = n + 1 := ⟨limit - outer.length - 1, by omega⟩
  rw [hn] at h ⊢
  exact .object h.1 h.2

/-- An open container has nothing in it that is not canonical. -/
theorem canonicalFrames_open (hf : CanonicalFrames limit outer) (hlt : outer.length < limit) :
    CanonicalFrames limit (.array [] :: outer) ∧ CanonicalFrames limit (.object [] "" :: outer) :=
  ⟨⟨hlt, List.forall_mem_nil _, hf⟩, ⟨hlt, ⟨.nil, List.forall_mem_nil _⟩, hf⟩⟩

/-- A token that is read where a value is expected keeps what holds of a reader. -/
theorem Holds.value {token : Token} {next : State × List Frame}
    (hf : CanonicalFrames limit outer) (ht : token.Canonical)
    (h : State.value? limit outer token = .ok next) : Holds limit next := by
  cases token with
  | null => exact Except.ok.inj h ▸ holds_after hf .null
  | boolean b => exact Except.ok.inj h ▸ holds_after hf (.boolean b)
  | number n => exact Except.ok.inj h ▸ holds_after hf (.number (ht n rfl))
  | string s => exact Except.ok.inj h ▸ holds_after hf (.string s)
  | arrayOpen =>
      simp only [State.value?] at h
      split at h
      case isTrue hlt =>
        exact Except.ok.inj h ▸ ⟨(canonicalFrames_open hf hlt).1, fun _ e => nomatch e⟩
      case isFalse => contradiction
  | objectOpen =>
      simp only [State.value?] at h
      split at h
      case isTrue hlt =>
        exact Except.ok.inj h ▸ ⟨(canonicalFrames_open hf hlt).2, fun _ e => nomatch e⟩
      case isFalse => contradiction
  | arrayClose | objectClose | comma | colon => contradiction

/-- **A step keeps everything canonical.** -/
theorem Holds.step {s next : State × List Frame} {token : Token} (hs : Holds limit s)
    (ht : token.Canonical) (h : State.step limit s token = .ok next) : Holds limit next := by
  obtain ⟨hf, -⟩ := hs
  unfold State.step at h
  split at h
  case h_1 => exact Holds.value hf ht h
  case h_2 => exact Except.ok.inj h ▸ holds_after hf.2.2 (Frame.canonical_array hf.1 hf.2.1)
  case h_3 => exact Holds.value hf ht h
  case h_4 => exact Except.ok.inj h ▸ ⟨hf, fun _ e => nomatch e⟩
  case h_5 => exact Except.ok.inj h ▸ holds_after hf.2.2 (Frame.canonical_array hf.1 hf.2.1)
  case h_6 => exact Except.ok.inj h ▸ holds_after hf.2.2 (Frame.canonical_object hf.1 hf.2.1)
  case h_7 | h_8 | h_9 | h_10 => exact Except.ok.inj h ▸ ⟨hf, fun _ e => nomatch e⟩
  case h_11 => exact Except.ok.inj h ▸ holds_after hf.2.2 (Frame.canonical_object hf.1 hf.2.1)
  case h_12 => contradiction

end

/-- **A run of steps** keeps everything canonical. -/
theorem Holds.run {limit : Nat} {s next : State × List Frame} {tokens : List Token}
    (hs : Holds limit s) (ht : ∀ token ∈ tokens, token.Canonical)
    (h : tokens.foldlM (State.step limit) s = .ok next) : Holds limit next := by
  induction tokens generalizing s with
  | nil => exact Except.ok.inj h ▸ hs
  | cons token rest ih =>
      obtain ⟨htoken, hrest⟩ := List.forall_mem_cons.mp ht
      obtain ⟨s', hstep, hrun⟩ := Token.ok_of_bind_eq_ok h
      exact ih (hs.step htoken hstep) hrest hrun

/-- Reading ends with a value only if nothing is open. -/
theorem eq_done_of_finish {state : State} {ending : Ending} {v : Json}
    (h : state.finish ending = .ok v) : state = .done v := by
  unfold State.finish at h
  split at h
  case h_1 => exact congrArg State.done (Except.ok.inj h)
  all_goals contradiction

/-! ### Numbers -/

/-- What a numeral stands for can be read back. -/
theorem canonical_numberOf? {negative : Bool} {whole : List Char} {fraction : Option (List Char)}
    {exponent : Option Int} {n : Number}
    (h : Token.numberOf? negative whole fraction exponent = some n) : n.Canonical := by
  simp only [Token.numberOf?] at h
  generalize ite (negative = true) (_ : Int) _ = value at h
  split at h
  case isTrue hfits =>
    obtain rfl := Option.some.inj h
    simp only [Bool.and_eq_true] at hfits
    exact hfits.1.2
  case isFalse =>
    obtain ⟨d, -, rfl⟩ := Option.map_eq_some_iff.mp h
    trivial

theorem canonical_unsigned {negative : Bool} {symbols rest : List Symbol} {n : Number}
    (h : Token.unsigned negative symbols = .ok (n, rest)) : n.Canonical := by
  unfold Token.unsigned at h
  obtain ⟨⟨whole, _⟩, -, h⟩ := Token.ok_of_bind_eq_ok h
  obtain ⟨⟨fraction, _⟩, -, h⟩ := Token.ok_of_bind_eq_ok h
  obtain ⟨⟨exponent, _⟩, -, h⟩ := Token.ok_of_bind_eq_ok h
  simp only at h
  split at h
  case h_1 m hm =>
    obtain ⟨rfl, -⟩ := Prod.mk.inj (Except.ok.inj h)
    exact canonical_numberOf? hm
  case h_2 => contradiction

theorem canonical_punctuator? {c : Char} {token : Token} (h : Token.punctuator? c = some token) :
    token.Canonical := by
  rintro n rfl
  unfold Token.punctuator? at h
  split at h <;> simp at h

theorem canonical_word? {c : Char} {letters : List Char} {token : Token}
    (h : Token.word? c = some (letters, token)) : token.Canonical := by
  rintro n rfl
  unfold Token.word? at h
  split at h <;> simp at h

/-- A token of a text can be read back. -/
theorem canonical_next {c : Char} {symbols rest : List Symbol} {token : Token}
    (h : Token.next c symbols = .ok (token, rest)) : token.Canonical := by
  have number : ∀ {negative : Bool} {symbols : List Symbol},
      (Token.unsigned negative symbols).map (fun p => (Token.number p.1, p.2)) = .ok (token, rest) →
      token.Canonical := by
    rintro negative symbols h n rfl
    obtain ⟨⟨m, _⟩, hm, e⟩ := Token.ok_of_map_eq_ok h
    obtain rfl := Token.number.inj (congrArg Prod.fst e)
    exact canonical_unsigned hm
  unfold Token.next at h
  split at h
  case h_1 hp =>
    obtain ⟨rfl, -⟩ := Prod.mk.inj (Except.ok.inj h)
    exact canonical_punctuator? hp
  case h_2 =>
    split at h
    case h_1 hw =>
      obtain ⟨_, -, e⟩ := Token.ok_of_map_eq_ok h
      obtain ⟨rfl, -⟩ := Prod.mk.inj e
      exact canonical_word? hw
    case h_2 =>
      split at h
      · obtain ⟨_, -, e⟩ := Token.ok_of_map_eq_ok h
        rintro n rfl
        exact nomatch congrArg Prod.fst e
      · split at h
        · exact number h
        · exact number h

/-- Numbers that were scanned are of 64 bits or doubles. -/
theorem canonical_scan (symbols : List Symbol) :
    ∀ token ∈ (Token.scan symbols).1, token.Canonical := by
  fun_induction Token.scan symbols with
  | case1 | case2 | case4 => exact List.forall_mem_nil _
  | case3 c rest hblank ih => exact ih
  | case5 c rest hblank token after hnext tokens ending e ih =>
      rw [e] at ih
      exact List.forall_mem_cons.mpr ⟨canonical_next hnext, ih⟩

/-- **What bytes write is canonical.** -/
theorem canonical_of_ofBytes {bytes : ByteArray} {v : Json} (h : ofBytes bytes = .ok v) :
    Canonical nestingLimit v := by
  obtain ⟨⟨state, outer⟩, hrun, hfinish⟩ := Token.ok_of_bind_eq_ok h
  have hstart : Holds nestingLimit (.value, []) := ⟨trivial, fun _ e => nomatch e⟩
  exact (hstart.run (canonical_scan _) hrun).done v (eq_done_of_finish hfinish)

end GraphTrace.Json
