import GraphTrace.Document.Parse
import GraphTrace.Proofs.Document.Named

/-!
# Names of a document that was read

Every name that the scanner cuts out of a text is a GraphQL name (`spelled_scan`), and a reader
leaves tokens that stood in front of it.  So a document that was read has GraphQL names only
(`named_of_parse?`).

`Reader.Gives r P` says both for a reader: what it reads has the property, and what it leaves is
spelled as before.  Where nothing is claimed of what is read, `Reader.Keeps` is left, and its rules
are enough to take any such reader apart.
-/

namespace GraphTrace.Document

/-! ### Lexemes -/

/-- A lexeme that is a GraphQL name if it is a name. -/
def Lexeme.Spelled (l : Lexeme) : Prop := ∀ text, l = .name text → Name.isValid text

/-- Tokens of such lexemes. -/
def Spelled (tokens : List Token) : Prop := ∀ t ∈ tokens, t.lexeme.Spelled

theorem spelled_cons {t : Token} {rest : List Token} :
    Spelled (t :: rest) ↔ t.lexeme.Spelled ∧ Spelled rest := by
  simp [Spelled]

/-- A run of the characters of names is a name if it starts as one. -/
theorem spelled_name {c : Char} (h : Name.isStart c) (cs : List Char) :
    (Lexeme.name (String.ofList (c :: cs.takeWhile Name.isPart))).Spelled := by
  intro text e
  obtain rfl := Lexeme.name.inj e
  simp [Name.isValid, Name.spelled, h]

theorem spelled_of_lexeme {l : Lexeme} {afterComma : Bool} {scanned : Option (List Token)}
    {tokens : List Token} (hl : l.Spelled) (ih : ∀ {rest}, scanned = some rest → Spelled rest)
    (h : (do return ⟨l, afterComma⟩ :: (← scanned)) = some tokens) : Spelled tokens := by
  obtain ⟨rest, hrest, h⟩ := Option.bind_eq_some_iff.mp h
  obtain rfl := Option.some.inj h
  exact spelled_cons.mpr ⟨hl, ih hrest⟩

/-- The names that a text is scanned into are valid. -/
theorem spelled_scanFrom {afterComma : Bool} {cs : List Char} {tokens : List Token}
    (h : Token.scanFrom afterComma cs = some tokens) : Spelled tokens := by
  fun_induction Token.scanFrom afterComma cs generalizing tokens
  case case1 =>
    obtain rfl := Option.some.inj h
    exact nofun
  case case2 ih | case3 ih | case4 ih => exact ih h
  case case8 hstart ih => exact spelled_of_lexeme (spelled_name hstart _) ih h
  case case5 ih | case6 ih | case9 ih | case11 ih =>
    refine spelled_of_lexeme (fun _ e => ?_) ih h
    contradiction
  case case7 | case10 | case12 => contradiction

/-- **The names in a text** are GraphQL names. -/
theorem spelled_scan {text : String} {tokens : List Token} (h : Token.scan text = some tokens) :
    Spelled tokens := spelled_scanFrom h

/-! ### What a reader reads and leaves -/

namespace Reader

/-- A reader that reads from spelled tokens what has a property, and leaves spelled tokens. -/
def Gives {α : Type} (r : Reader α) (P : α → Prop) : Prop :=
  ∀ ⦃tokens a rest⦄, Spelled tokens → r.run tokens = some (a, rest) → P a ∧ Spelled rest

/-- A reader that leaves spelled tokens. -/
def Keeps {α : Type} (r : Reader α) : Prop := Gives r fun _ => True

section

variable {α β : Type} {r : Reader α} {f : α → Reader β} {P : α → Prop} {Q : β → Prop}

theorem Gives.pure {a : α} (h : P a) : Gives (Pure.pure a) P := by
  intro tokens a' rest ht hr
  cases hr
  exact ⟨h, ht⟩

theorem Gives.failure : Gives (failure : Reader α) P := by
  intro tokens a rest ht hr
  contradiction

/-- A second reader may use what the first one gave. -/
theorem Gives.bind (hr : Gives r P) (hf : ∀ a, P a → Gives (f a) Q) : Gives (r >>= f) Q := by
  intro tokens b rest ht h
  obtain ⟨⟨a, between⟩, ha, hb⟩ := Option.bind_eq_some_iff.mp h
  obtain ⟨hP, hbetween⟩ := hr ht ha
  exact hf a hP hbetween hb

theorem Gives.mono {P' : α → Prop} (hr : Gives r P) (h : ∀ a, P a → P' a) : Gives r P' :=
  fun _ _ _ ht hrun => (hr ht hrun).imp_left (h _)

/-- A reader that gives anything may come before one that gives something. -/
theorem Keeps.gives (hr : Keeps r) (hf : ∀ a, Gives (f a) Q) : Gives (r >>= f) Q :=
  Gives.bind hr fun a _ => hf a

theorem Gives.keeps (hr : Gives r P) : Keeps r := hr.mono fun _ _ => trivial

theorem Keeps.pure (a : α) : Keeps (Pure.pure a : Reader α) := Gives.pure trivial

theorem Keeps.failure : Keeps (Alternative.failure : Reader α) := Gives.failure

theorem Keeps.bind (hr : Keeps r) (hf : ∀ a, Keeps (f a)) : Keeps (r >>= f) := hr.gives hf

theorem Keeps.ite {c : Prop} [Decidable c] {s : Reader α} (hr : Keeps r) (hs : Keeps s) :
    Keeps (if c then r else s) := by
  split
  · exact hr
  · exact hs

theorem Keeps.discard (hr : Keeps r) : Keeps (Functor.discard r) := hr.bind fun _ => .pure _

theorem Keeps.get : Keeps (MonadState.get : Reader (List Token)) := by
  intro tokens a rest ht h
  cases h
  exact ⟨trivial, ht⟩

end

/-- A lexeme of a spelled text is spelled. -/
theorem gives_lexeme : Gives lexeme Lexeme.Spelled := by
  intro tokens l rest ht h
  cases tokens with
  | nil => contradiction
  | cons token rest => cases h; exact spelled_cons.mp ht

theorem keeps_lexeme : Keeps lexeme := gives_lexeme.keeps

theorem keeps_peek? : Keeps peek? := Keeps.get.bind fun _ => .pure _

theorem keeps_nextIs (test : Lexeme → Bool) : Keeps (nextIs test) :=
  keeps_peek?.bind fun _ => .pure _

theorem keeps_take (expected : Lexeme) : Keeps (take expected) :=
  keeps_lexeme.bind fun _ => .ite (.pure _) .failure

theorem keeps_takeIf (wanted : Lexeme) : Keeps (takeIf wanted) :=
  (keeps_nextIs _).bind fun _ => .ite ((keeps_take wanted).bind fun _ => .pure _) (.pure _)

theorem keeps_punctuator (c : Char) : Keeps (punctuator c) := keeps_take _

theorem keeps_description : Keeps description :=
  (keeps_nextIs _).bind fun _ => .ite (keeps_lexeme.discard.bind fun _ => .pure _) (.pure _)

/-- A name that is read is a GraphQL name. -/
theorem gives_name : Gives name (Name.isValid · = true) := by
  unfold name
  refine gives_lexeme.bind fun l hl => ?_
  split
  · exact .pure (hl _ rfl)
  · exact .failure

theorem keeps_name : Keeps name := gives_name.keeps

/-- A name that is given is valid. -/
theorem gives_name? : Gives name? fun name? => ∀ name ∈ name?, Name.isValid name := by
  unfold name?
  refine (keeps_nextIs _).gives fun next => ?_
  split
  · exact gives_name.bind fun name h => .pure (by simpa using h)
  · exact .pure nofun

theorem keeps_name? : Keeps name? := gives_name?.keeps

/-! ### Repetition -/

section

variable {α : Type} {item : Reader α} {P : α → Prop}

/-- A bounded repetition gives what each reading gives. -/
theorem gives_upTo (starts : Lexeme → Bool) (h : Gives item P) (bound : Nat) :
    Gives (upTo starts item bound) (∀ a ∈ ·, P a) := by
  induction bound with
  | zero => exact .pure nofun
  | succ bound ih =>
      unfold upTo
      refine (keeps_nextIs _).gives fun next => ?_
      split
      · exact h.bind fun a ha => ih.bind fun others hothers =>
          .pure (List.forall_mem_cons.mpr ⟨ha, hothers⟩)
      · exact .pure nofun

theorem gives_many (starts : Lexeme → Bool) (h : Gives item P) :
    Gives (many starts item) (∀ a ∈ ·, P a) := Keeps.get.gives fun _ => gives_upTo starts h _

theorem gives_many1 (starts : Lexeme → Bool) (h : Gives item P) :
    Gives (many1 starts item) (∀ a ∈ ·, P a) :=
  h.bind fun _ ha => (gives_many starts h).bind fun _ hothers =>
    .pure (List.forall_mem_cons.mpr ⟨ha, hothers⟩)

theorem gives_enclosed (opening closing : Char) (h : Gives item P) :
    Gives (enclosed opening closing item) (∀ a ∈ ·, P a) :=
  (keeps_punctuator _).gives fun _ => (gives_many1 _ h).bind fun _ hitems =>
    (keeps_punctuator _).gives fun _ => .pure hitems

theorem keeps_many (starts : Lexeme → Bool) (h : Keeps item) : Keeps (many starts item) :=
  (gives_many starts h).keeps

theorem keeps_enclosed? (opening closing : Char) (h : Keeps item) :
    Keeps (enclosed? opening closing item) :=
  (keeps_nextIs _).bind fun _ => .ite (gives_enclosed opening closing h).keeps (.pure _)

theorem keeps_separated (separator : Char) (h : Keeps item) : Keeps (separated separator item) :=
  (keeps_takeIf _).discard.bind fun _ => h.bind fun _ =>
    (keeps_many _ ((keeps_punctuator separator).bind fun _ => h)).bind fun _ => .pure _

end

end Reader

/-! ### Readers of form

A proof follows its reader, with one rule for each thing that is read in turn. -/

namespace Grammar

open Reader

theorem keeps_objectField {item? : Option (Reader Value)} (h : Keeps (item?.getD failure)) :
    Keeps (objectField item?) :=
  keeps_name.bind fun _ => (keeps_takeIf _).bind fun _ => .ite (h.bind fun _ => .pure _) (.pure _)

theorem keeps_valueOver (constant : Bool) {item? : Option (Reader Value)}
    (h : Keeps (item?.getD failure)) : Keeps (valueOver constant item?) := by
  refine keeps_lexeme.bind fun first => ?_
  split
  case h_1 | h_2 | h_3 | h_4 | h_5 | h_6 => exact .pure _
  case h_7 => exact .ite .failure (keeps_name.bind fun _ => .pure _)
  case h_8 => exact (keeps_many _ h).bind fun _ => (keeps_punctuator _).bind fun _ => .pure _
  case h_9 =>
    exact (keeps_many _ (keeps_objectField h)).bind fun _ =>
      (keeps_punctuator _).bind fun _ => .pure _
  case h_10 => exact .failure

/-- A value leaves spelled text, however deep it nests. -/
theorem keeps_value (constant : Bool) (depth : Nat) : Keeps (value constant depth) := by
  induction depth with
  | zero => exact keeps_valueOver constant .failure
  | succ depth ih => exact keeps_valueOver constant ih

theorem keeps_argument (constant : Bool) (depth : Nat) : Keeps (argument constant depth) :=
  keeps_name.bind fun _ => (keeps_takeIf _).bind fun _ =>
    .ite ((keeps_value constant depth).bind fun _ => .pure _) (.pure _)

theorem keeps_arguments (constant : Bool) (depth : Nat) : Keeps (arguments constant depth) :=
  keeps_enclosed? _ _ (keeps_argument constant depth)

theorem keeps_directive (constant : Bool) (depth : Nat) : Keeps (directive constant depth) :=
  (keeps_punctuator _).bind fun _ => keeps_name.bind fun _ =>
    (keeps_arguments constant depth).bind fun _ => .pure _

theorem keeps_directives (constant : Bool) (depth : Nat) : Keeps (directives constant depth) :=
  keeps_many _ (keeps_directive constant depth)

theorem keeps_typeOver {element? : Option (Reader Unit)} (h : Keeps (element?.getD failure)) :
    Keeps (typeOver element?) := by
  refine keeps_lexeme.bind fun first => ?_
  extract_lets bang
  have hbang : ∀ u, Keeps (bang u) := fun _ => (keeps_takeIf _).discard
  split
  case h_1 => exact hbang ()
  case h_2 => exact h.bind fun _ => (keeps_punctuator _).bind fun _ => hbang ()
  case h_3 => exact Keeps.failure.bind hbang

theorem keeps_typeReference (depth : Nat) : Keeps (typeReference depth) := by
  induction depth with
  | zero => exact keeps_typeOver .failure
  | succ depth ih => exact keeps_typeOver ih

theorem keeps_defaultValue (depth : Nat) : Keeps (defaultValue depth) :=
  (keeps_takeIf _).bind fun _ => .ite (keeps_value true depth).discard (.pure _)

theorem keeps_variableDefinition (depth : Nat) : Keeps (variableDefinition depth) :=
  (keeps_punctuator _).bind fun _ => keeps_name.discard.bind fun _ =>
    (keeps_punctuator _).bind fun _ => (keeps_typeReference depth).bind fun _ =>
      (keeps_defaultValue depth).bind fun _ => (keeps_directives true depth).discard

theorem keeps_inputValue (depth : Nat) : Keeps (inputValue depth) :=
  keeps_description.discard.bind fun _ => keeps_name.discard.bind fun _ =>
    (keeps_punctuator _).bind fun _ => (keeps_typeReference depth).bind fun _ =>
      (keeps_defaultValue depth).bind fun _ => (keeps_directives true depth).discard

theorem keeps_fieldDefinition (depth : Nat) : Keeps (fieldDefinition depth) :=
  keeps_description.discard.bind fun _ => keeps_name.discard.bind fun _ =>
    (keeps_enclosed? _ _ (keeps_inputValue depth)).discard.bind fun _ =>
      (keeps_punctuator _).bind fun _ => (keeps_typeReference depth).bind fun _ =>
        (keeps_directives true depth).discard

theorem keeps_enumValue (depth : Nat) : Keeps (enumValue depth) :=
  keeps_description.discard.bind fun _ => keeps_name.bind fun _ =>
    .ite (Keeps.failure.bind fun _ => (keeps_directives true depth).discard)
      (keeps_directives true depth).discard

theorem keeps_rootType : Keeps rootType :=
  keeps_name.bind fun _ => .ite
    (Keeps.failure.bind fun _ => (keeps_punctuator _).bind fun _ => keeps_name?.discard)
    ((keeps_punctuator _).bind fun _ => keeps_name?.discard)

theorem keeps_directiveLocation : Keeps directiveLocation :=
  keeps_name.bind fun _ => .ite (.pure _) .failure

theorem keeps_directiveDefinition (depth : Nat) : Keeps (directiveDefinition depth) :=
  (keeps_punctuator _).bind fun _ => keeps_name.discard.bind fun _ =>
    (keeps_enclosed? _ _ (keeps_inputValue depth)).discard.bind fun _ =>
      (keeps_takeIf _).discard.bind fun _ => (keeps_take _).bind fun _ =>
        (keeps_separated _ keeps_directiveLocation).discard

theorem keeps_interfaces : Keeps interfaces :=
  (keeps_takeIf _).bind fun _ =>
    .ite ((keeps_separated _ keeps_name).discard.bind fun _ => .pure _) (.pure _)

theorem keeps_unionMembers : Keeps unionMembers :=
  (keeps_takeIf _).bind fun _ =>
    .ite ((keeps_separated _ keeps_name).discard.bind fun _ => .pure _) (.pure _)

theorem keeps_body {item : Reader Unit} (h : Keeps item) : Keeps (body item) :=
  (keeps_enclosed? _ _ h).bind fun _ => .pure _

theorem keeps_anyDirectives (depth : Nat) : Keeps (anyDirectives depth) :=
  (keeps_directives true depth).bind fun _ => .pure _

theorem keeps_addedRootTypes : Keeps addedRootTypes :=
  (keeps_takeIf _).bind fun _ => .ite
    ((keeps_many _ keeps_rootType).bind fun _ => (keeps_punctuator _).bind fun _ => .pure _)
    (.pure _)

theorem keeps_typeParts (keyword : String) (depth : Nat) : Keeps (typeParts keyword depth) := by
  have hdirectives := keeps_anyDirectives depth
  unfold typeParts
  split
  case h_1 => exact hdirectives.bind fun _ => .pure _
  case h_2 | h_3 =>
    exact keeps_interfaces.bind fun _ => hdirectives.bind fun _ =>
      (keeps_body (keeps_fieldDefinition depth)).bind fun _ => .pure _
  case h_4 => exact hdirectives.bind fun _ => keeps_unionMembers.bind fun _ => .pure _
  case h_5 =>
    exact hdirectives.bind fun _ => (keeps_body (keeps_enumValue depth)).bind fun _ => .pure _
  case h_6 =>
    exact hdirectives.bind fun _ => (keeps_body (keeps_inputValue depth)).bind fun _ => .pure _
  case h_7 => exact .failure

theorem keeps_typeSystemDefinition (keyword : String) (depth : Nat) :
    Keeps (typeSystemDefinition keyword depth) := by
  unfold typeSystemDefinition
  split
  case h_1 => exact keeps_directiveDefinition depth
  case h_2 =>
    exact (keeps_directives true depth).discard.bind fun _ => (keeps_body keeps_rootType).discard
  case h_3 => exact keeps_name.discard.bind fun _ => (keeps_typeParts _ depth).discard

theorem keeps_typeSystemExtension (keyword : String) (depth : Nat) :
    Keeps (typeSystemExtension keyword depth) := by
  unfold typeSystemExtension
  extract_lets added
  have hadded : ∀ parts, Keeps (added parts) := fun _ => .ite (.pure _) .failure
  split
  · exact (keeps_anyDirectives depth).bind fun _ => keeps_addedRootTypes.bind fun _ =>
      Keeps.bind (.pure _) hadded
  · exact keeps_name.discard.bind fun _ => (keeps_typeParts keyword depth).bind hadded

theorem keeps_adjacentKeyword : Keeps adjacentKeyword :=
  keeps_peek?.bind fun _ => .ite (Keeps.failure.bind fun _ => keeps_name) keeps_name

/-! ### Readers of operations -/

theorem gives_typeCondition : Gives typeCondition (Name.isValid · = true) :=
  (keeps_take _).gives fun _ => gives_name

section

variable {depth : Nat} {sub : Reader (List Selection)}

theorem gives_fragmentSelection (h : Gives sub NamedSelections) :
    Gives (fragmentSelection depth sub) Selection.Named := by
  unfold fragmentSelection
  refine keeps_peek?.gives fun next? => ?_
  split
  case h_2 => exact .failure
  case h_1 next =>
    dsimp only
    split
    · exact Gives.failure.bind (P := fun _ => False) fun _ no => no.elim
    · split
      case h_1 =>
        exact gives_typeCondition.bind fun _ hcondition => (keeps_directives false depth).gives
          fun _ => h.bind fun _ hbelow => .pure ⟨hcondition, hbelow⟩
      case h_2 =>
        exact gives_name.bind fun _ hname => (keeps_directives false depth).gives fun _ =>
          .pure hname
      case h_3 | h_4 =>
        exact (keeps_directives false depth).gives fun _ => h.bind fun _ hbelow => .pure hbelow
      case h_5 => exact .failure

/-- A field is named if what is below it is. -/
theorem gives_field (h : Gives sub NamedSelections) :
    Gives (field depth sub) Selection.Named := by
  unfold field
  refine gives_name.bind fun first hfirst => keeps_peek?.gives fun next? => ?_
  extract_lets renamed rest
  have hrest : ∀ (alias? : Option String) {name : String}, Name.isValid name →
      Gives (rest (alias?, name)) Selection.Named := by
    intro alias? name hname
    refine (keeps_arguments false depth).gives fun _ => (keeps_directives false depth).gives
      fun _ => (keeps_nextIs _).gives fun _ => ?_
    split
    · exact h.bind fun _ hbelow => .pure ⟨hname, hbelow⟩
    · exact .pure ⟨hname, trivial⟩
  split
  · exact (keeps_punctuator _).gives fun _ => gives_name.bind fun _ hname => hrest _ hname
  · exact hrest _ hfirst

theorem gives_selection (h : Gives sub NamedSelections) :
    Gives (selection depth sub) Selection.Named := by
  unfold selection
  refine (keeps_takeIf _).gives fun spread => ?_
  split
  · exact gives_fragmentSelection h
  · exact gives_field h

end

/-- **A selection set is named**, by induction on the depth that is left. -/
theorem gives_selectionSet (depth : Nat) : Gives (selectionSet depth) NamedSelections := by
  induction depth with
  | zero => exact .failure
  | succ depth ih =>
      refine (gives_enclosed '{' '}' (gives_selection ih)).mono fun selections h => ?_
      exact namedSelections_iff.mpr h

theorem gives_operation (kind : OperationKind) (depth : Nat) :
    Gives (operation kind depth) Operation.Named := by
  unfold operation
  refine gives_name?.bind fun name? hname => ?_
  exact (keeps_enclosed? _ _ (keeps_variableDefinition depth)).discard.gives fun _ =>
    (keeps_directives false depth).discard.gives fun _ =>
      (gives_selectionSet depth).bind fun _ h => .pure ⟨hname, h⟩

theorem keeps_fragmentNamed (name : String) (depth : Nat) : Keeps (fragmentNamed name depth) :=
  gives_typeCondition.keeps.bind fun _ => (keeps_directives false depth).discard.bind fun _ =>
    (gives_selectionSet depth).keeps.bind fun _ => .pure _

theorem keeps_fragment (depth : Nat) : Keeps (fragment depth) :=
  keeps_name.bind fun name => .ite (Keeps.failure.bind fun _ => keeps_fragmentNamed name depth)
    (keeps_fragmentNamed name depth)

theorem gives_described (word : String) (depth : Nat) :
    Gives (described word depth) Definition.Named := by
  unfold described
  split
  · exact (keeps_fragmentNamed word depth).gives fun _ => .pure nofun
  · exact (keeps_typeSystemDefinition word depth).gives fun _ => .pure nofun

theorem gives_undescribed (keyword : String) (depth : Nat) :
    Gives (undescribed keyword depth) Definition.Named := by
  unfold undescribed
  split
  case h_1 kind _ =>
    exact (gives_operation kind depth).bind fun o ho => .pure fun _ e => Option.some.inj e ▸ ho
  case h_2 => exact (keeps_fragment depth).gives fun _ => .pure nofun
  case h_3 => exact keeps_adjacentKeyword.gives fun word =>
    (keeps_typeSystemExtension word depth).gives fun _ => .pure nofun
  case h_4 => exact (keeps_typeSystemDefinition _ depth).gives fun _ => .pure nofun

theorem gives_definition (depth : Nat) : Gives (definition depth) Definition.Named := by
  unfold definition
  refine (keeps_nextIs _).gives fun shorthand => ?_
  split
  · exact (gives_selectionSet depth).bind fun _ h => .pure fun _ e =>
      Option.some.inj e ▸ ⟨nofun, h⟩
  · refine keeps_description.gives fun described => ?_
    split
    · exact keeps_adjacentKeyword.gives fun word => gives_described word depth
    · exact keeps_name.gives fun keyword => gives_undescribed keyword depth

end Grammar

/-- **A document that was read** has GraphQL names only. -/
theorem named_of_parse? {text : String} {d : Document} (h : parse? text = some d) : d.Named := by
  obtain ⟨tokens, htokens, h⟩ := Option.bind_eq_some_iff.mp h
  obtain ⟨⟨definitions, rest⟩, hread, h⟩ := Option.bind_eq_some_iff.mp h
  dsimp only at h
  split at h
  case isFalse => contradiction
  case isTrue =>
    obtain rfl := Option.some.inj h
    intro o ho
    obtain ⟨definition, hdefinition, e⟩ := List.mem_filterMap.mp ho
    have hdefinitions := Reader.gives_many1 (fun _ => true) (Grammar.gives_definition nestingLimit)
    exact (hdefinitions (spelled_scan htokens) hread).1 definition hdefinition o e

end GraphTrace.Document
