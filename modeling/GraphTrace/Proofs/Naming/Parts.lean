import GraphTrace.Naming.Transaction
import GraphTrace.Proofs.Naming.Chain

/-!
# Reading the name of a request back

The name of a request runs together a route, a marker, and the kinds, names and paths of its
operations, all with slashes.  Where names are GraphQL names, neither a name nor a path holds a
slash, so the text behind the route splits into the parts it was made of, and the parts are told
from each other by the first of them: `batch` opens several members, `*` stands for a member that
could not be named, and a kind comes with a name and a path (`readMembers`).

* `readMembers_texts`: the parts of several members read back as these members, in order.
* `readTransaction_transactionOf`: the name of a request reads back as its members; where none
  could be named, as one member that could not be named.
* `transactionOf_eq_iff`: so two names with one route are equal only for equal members, or where
  no member could be named on either side.
-/

namespace GraphTrace.Naming

/-! ### Parts -/

/-- What the identifier of an operation is made of. -/
structure Parts where
  kind : OperationKind
  name : Option String
  path : String
deriving DecidableEq, Repr

namespace Parts

/-- The identifier made of the parts. -/
def identifier (p : Parts) : Identifier := .ofParts p.kind p.name p.path

/-- The parts as they are written. -/
def texts (p : Parts) : List String := [p.kind.keyword, p.name.getD anonymous, p.path]

/-- Parts whose name is a GraphQL name and whose path holds no slash. -/
structure Plain (p : Parts) : Prop where
  name : ∀ name ∈ p.name, Name.isValid name
  path : '/' ∉ p.path.toList

/-- An identifier is its texts between slashes. -/
theorem text_identifier (p : Parts) : p.identifier.text = "/".intercalate p.texts := by
  simp only [identifier, Identifier.ofParts, texts, String.intercalate_cons_cons,
    String.intercalate_singleton, String.append_assoc]

end Parts

theorem slash_notMem_name {name : String} (h : Name.isValid name) : '/' ∉ name.toList :=
  fun hc => absurd (Name.isPart_of_mem h hc) (by decide)

theorem slash_notMem_keyword (kind : OperationKind) : '/' ∉ kind.keyword.toList := by
  cases kind <;> decide

theorem Parts.Plain.slash_notMem {p : Parts} (h : p.Plain) : ∀ t ∈ p.texts, '/' ∉ t.toList := by
  have hname : '/' ∉ (p.name.getD anonymous).toList := by
    cases e : p.name with
    | none => decide
    | some name => exact slash_notMem_name (h.name name (e ▸ rfl))
  simp only [Parts.texts, List.forall_mem_cons, List.not_mem_nil, false_imp_iff, implies_true,
    and_true]
  exact ⟨slash_notMem_keyword p.kind, hname, h.path⟩

/-- A step keeps slashes out of a path. -/
theorem slash_notMem_extend {path : String} {step : Step} (hp : '/' ∉ path.toList)
    (h : step.Named) : '/' ∉ (step.extend path).toList := by
  cases step with
  | field name | fragment name =>
      have hname : '/' ∉ name.toList := slash_notMem_name h
      rw [Step.extend, Step.join]
      split
      · exact hname
      · simp [hp, hname]
  | condition type =>
      have htype : '/' ∉ type.toList := slash_notMem_name h
      simp [Step.extend, hp, htype]

/-- **A path holds no slash** where its names are GraphQL names. -/
theorem slash_notMem_pathText {steps : List Step} (h : ∀ step ∈ steps, step.Named) :
    '/' ∉ (pathText steps).toList :=
  List.foldlRecOn steps Step.extend (motive := fun path => '/' ∉ path.toList) (by simp)
    fun _ hp step hstep => slash_notMem_extend hp (h step hstep)

/-- The parts of an operation of GraphQL names are plain, whatever the document declares. -/
theorem plain_of_named (d : Document) (reserved : Reserved) {o : Operation} (h : o.Named) :
    Parts.Plain ⟨o.kind, o.name, (d.walkOf reserved o).text⟩ :=
  ⟨h.name, slash_notMem_pathText (named_walk h.selections)⟩

/-! ### Members -/

/-- The identifier of a member of a batch, `*` where it could not be named. -/
def memberIdentifier (m : Option Parts) : Identifier := (m.map Parts.identifier).getD .unavailable

/-- The parts of a member as they are written. -/
def memberTexts : Option Parts → List String
  | none   => [wildcard]
  | some p => p.texts

/-- Members of plain parts. -/
def PlainMembers (members : List (Option Parts)) : Prop := ∀ m ∈ members, ∀ p ∈ m, p.Plain

theorem memberTexts_ne_nil (m : Option Parts) : memberTexts m ≠ [] := by
  cases m <;> exact List.cons_ne_nil _ _

theorem text_memberIdentifier (m : Option Parts) :
    (memberIdentifier m).text = "/".intercalate (memberTexts m) := by
  cases m with
  | none => rfl
  | some p => exact p.text_identifier

/-- Joined texts that were joined themselves are all joined. -/
theorem intercalate_map_intercalate (separator : String) (lists : List (List String))
    (h : ∀ l ∈ lists, l ≠ []) : separator.intercalate (lists.map separator.intercalate)
      = separator.intercalate lists.flatten := by
  induction lists with
  | nil => rfl
  | cons l rest ih =>
      cases rest with
      | nil => simp
      | cons l' rest =>
          have hl := h l List.mem_cons_self
          have hrest : (l' :: rest).flatten ≠ [] := by
            simp [h l' (List.mem_cons_of_mem _ List.mem_cons_self)]
          rw [show (l :: l' :: rest).flatten = l ++ (l' :: rest).flatten from rfl,
            String.intercalate_append_of_ne_nil hl hrest, List.map_cons,
            String.intercalate_cons_of_ne_nil (by simp),
            ih fun x hx => h x (List.mem_cons_of_mem _ hx)]

/-- What stands behind the route: the parts, in front of them a marker where there are several
members. -/
def transactionTexts : List (Option Parts) → List String
  | [m]     => memberTexts m
  | members => batchMarker :: members.flatMap memberTexts

/-- A batch is its marker and the texts of its members between slashes. -/
theorem combined_eq (members : List (Option Parts)) :
    combined (members.map memberIdentifier)
      = "/".intercalate (batchMarker :: members.flatMap memberTexts) := by
  have h := intercalate_map_intercalate "/" ([batchMarker] :: members.map memberTexts)
    (by simp [memberTexts_ne_nil])
  simpa [combined, List.flatMap, text_memberIdentifier, Function.comp_def] using h

/-- The name that a request with these members is reported under. -/
def transactionOf (route : String) (members : List (Option Parts)) : String :=
  transactionName route (members.map memberIdentifier) (members.any (·.isSome))

/-- A transaction name is the route and its texts. -/
theorem transactionOf_eq (route : String) {members : List (Option Parts)}
    (h : members.any (·.isSome)) :
    transactionOf route members = route ++ "//" ++ "/".intercalate (transactionTexts members) := by
  rw [transactionOf, h]
  match members, h with
  | [m], _ => exact congrArg (route ++ "//" ++ ·) (text_memberIdentifier m)
  | m :: m' :: rest, _ => exact congrArg (route ++ "//" ++ ·) (combined_eq (m :: m' :: rest))

theorem transactionOf_eq_wildcard (route : String) {members : List (Option Parts)}
    (h : members.any (·.isSome) = false) :
    transactionOf route members = route ++ "//" ++ wildcard := by
  simp [transactionOf, transactionName, h]

/-! ### Reading -/

/-- The name that a text in its place stands for. -/
def readName (text : String) : Option String := if text = anonymous then none else some text

/-- The members that parts are of, if they are of any. -/
def readMembers : List String → Option (List (Option Parts))
  | []           => some []
  | text :: rest =>
    if text = wildcard then (readMembers rest).map (none :: ·)
    else
      match rest with
      | name :: path :: rest => do
        let kind ← OperationKind.ofKeyword? text
        return some ⟨kind, readName name, path⟩ :: (← readMembers rest)
      | _ => none

/-- The parts that a text is made of. -/
def splitParts (text : List Char) : List String := (text.splitOn '/').map String.ofList

/-- The members that the texts behind a route are of: those behind the marker of a batch, or one
without it. -/
def readTexts : List String → Option (List (Option Parts))
  | []           => none
  | text :: rest => if text = batchMarker then readMembers rest else readMembers (text :: rest)

/-- The members of the request that has this name, if it is the name of one. -/
def readTransaction (route name : String) : Option (List (Option Parts)) :=
  readTexts (splitParts (name.toList.drop (route ++ "//").length))

/-- A kind is read back. -/
theorem ofKeyword?_keyword (kind : OperationKind) :
    OperationKind.ofKeyword? kind.keyword = some kind := by
  cases kind <;> decide

/-- No kind is called as a wildcard or a batch. -/
theorem keyword_ne (kind : OperationKind) :
    kind.keyword ≠ wildcard ∧ kind.keyword ≠ batchMarker := by
  cases kind <;> decide

theorem readName_getD {name : Option String} (h : ∀ text ∈ name, Name.isValid text) :
    readName (name.getD anonymous) = name := by
  cases name with
  | none => rfl
  | some text =>
      refine if_neg fun e => ?_
      -- A GraphQL name does not start with `<`.
      have hvalid : Name.isValid anonymous := e ▸ h text rfl
      exact absurd hvalid (by decide)

/-- A wildcard is read back as a missing member. -/
theorem readMembers_wildcard (rest : List String) :
    readMembers (wildcard :: rest) = (readMembers rest).map (none :: ·) := by
  rw [readMembers.eq_def]
  exact if_pos rfl

/-- An identifier is read back as its parts. -/
theorem readMembers_part {p : Parts} (h : p.Plain) (rest : List String) :
    readMembers (p.texts ++ rest) = (readMembers rest).map (some p :: ·) := by
  simp only [Parts.texts, List.cons_append, List.nil_append]
  rw [readMembers, if_neg (keyword_ne p.kind).1, ofKeyword?_keyword, readName_getD h.name]
  cases readMembers rest <;> rfl

/-- **Members are read back** from their parts. -/
theorem readMembers_texts {members : List (Option Parts)} (h : PlainMembers members) :
    readMembers (members.flatMap memberTexts) = some members := by
  induction members with
  | nil => rfl
  | cons m rest ih =>
      obtain ⟨hm, hrest⟩ := List.forall_mem_cons.mp h
      rw [List.flatMap_cons]
      cases m with
      | none =>
          rw [memberTexts, List.singleton_append, readMembers_wildcard, ih hrest, Option.map_some]
      | some p => rw [memberTexts, readMembers_part (hm p rfl), ih hrest, Option.map_some]

theorem readTexts_batch (texts : List String) :
    readTexts (batchMarker :: texts) = readMembers texts := by
  rw [readTexts, if_pos rfl]

/-- **The members of a transaction are read back from its texts.** -/
theorem readTexts_transactionTexts {members : List (Option Parts)} (h : PlainMembers members) :
    readTexts (transactionTexts members) = some members := by
  have hread := readMembers_texts h
  match members, h, hread with
  | [none], _, _ => rfl
  | [some p], _, hread =>
      rw [List.flatMap_singleton] at hread
      rw [transactionTexts, memberTexts, Parts.texts, readTexts, if_neg (keyword_ne p.kind).2]
      exact hread
  | [], _, _ => rfl
  | m :: m' :: rest, _, hread =>
      rw [show transactionTexts (m :: m' :: rest) = batchMarker :: _ from rfl, readTexts_batch]
      exact hread

/-- Texts without a slash are read back from what stands between the slashes. -/
theorem splitParts_intercalate {texts : List String} (h : ∀ t ∈ texts, '/' ∉ t.toList)
    (hne : texts ≠ []) : splitParts ("/".intercalate texts).toList = texts := by
  have hslash : ∀ l ∈ texts.map String.toList, '/' ∉ l := by simpa using h
  rw [splitParts, String.toList_intercalate, show "/".toList = ['/'] from rfl,
    List.splitOn_intercalate '/' hslash (by simpa using hne), List.map_map]
  simp [Function.comp_def]

/-- A name splits into the texts behind its route. -/
theorem readTransaction_append (route : String) {texts : List String}
    (h : ∀ t ∈ texts, '/' ∉ t.toList) (hne : texts ≠ []) :
    readTransaction route (route ++ "//" ++ "/".intercalate texts) = readTexts texts := by
  rw [readTransaction, String.toList_append, ← String.length_toList, List.drop_left,
    splitParts_intercalate h hne]

theorem slash_notMem_memberTexts {members : List (Option Parts)}
    (h : PlainMembers members) : ∀ t ∈ members.flatMap memberTexts, '/' ∉ t.toList := by
  intro t ht
  obtain ⟨m, hm, ht⟩ := List.mem_flatMap.mp ht
  cases m with
  | none => rw [List.mem_singleton.mp ht]; decide
  | some p => exact (h _ hm p rfl).slash_notMem t ht

/-- There is no slash in the texts of a transaction. -/
theorem slash_notMem_transactionTexts {members : List (Option Parts)}
    (h : PlainMembers members) : ∀ t ∈ transactionTexts members, '/' ∉ t.toList := by
  have hall := slash_notMem_memberTexts h
  unfold transactionTexts
  split
  · simpa using hall
  · exact List.forall_mem_cons.mpr ⟨by decide, hall⟩

theorem transactionTexts_ne_nil (members : List (Option Parts)) :
    transactionTexts members ≠ [] := by
  unfold transactionTexts
  split
  · exact memberTexts_ne_nil _
  · exact List.cons_ne_nil _ _

/-- **The name of a request reads back** as its members, or as one member that could not be named
where none could. -/
theorem readTransaction_transactionOf (route : String) {members : List (Option Parts)}
    (h : PlainMembers members) :
    readTransaction route (transactionOf route members)
      = some (if members.any (·.isSome) then members else [none]) := by
  cases hany : members.any (·.isSome) with
  | false =>
      have hread := readTransaction_append route (show ∀ t ∈ [wildcard], '/' ∉ t.toList by decide)
        (List.cons_ne_nil _ _)
      rw [String.intercalate_singleton] at hread
      rw [transactionOf_eq_wildcard route hany, hread]
      rfl
  | true =>
      rw [transactionOf_eq route hany, if_pos rfl, readTransaction_append route
        (slash_notMem_transactionTexts h) (transactionTexts_ne_nil members)]
      exact readTexts_transactionTexts h

/-! ### Equal names -/

/-- **Equal identifiers have equal members**, one by one. -/
theorem members_eq_of_identifiers {members members' : List (Option Parts)}
    (h : PlainMembers members) (h' : PlainMembers members')
    (e : members.map memberIdentifier = members'.map memberIdentifier) : members = members' := by
  have hsplit : ∀ {members : List (Option Parts)}, PlainMembers members →
      readTexts (splitParts (combined (members.map memberIdentifier)).toList) = some members := by
    intro members h
    have hmarker : '/' ∉ batchMarker.toList := by decide
    rw [combined_eq, splitParts_intercalate (List.forall_mem_cons.mpr
      ⟨hmarker, slash_notMem_memberTexts h⟩) (List.cons_ne_nil _ _), readTexts_batch,
      readMembers_texts h]
  exact Option.some.inj ((hsplit h).symm.trans (e ▸ hsplit h'))

/-- **Names are unambiguous**: two requests with one route have one name only if none of their
operations could be named, or if their identifiers are equal. -/
theorem transactionOf_eq_iff (route : String) {members members' : List (Option Parts)}
    (h : PlainMembers members) (h' : PlainMembers members') :
    transactionOf route members = transactionOf route members' ↔
      (members.any (·.isSome) = false ∧ members'.any (·.isSome) = false) ∨
        members.map memberIdentifier = members'.map memberIdentifier := by
  constructor
  · intro e
    have hread := (readTransaction_transactionOf route h).symm.trans
      (e ▸ readTransaction_transactionOf route h')
    have hmembers := Option.some.inj hread
    cases hany : members.any (·.isSome) with
    | false =>
        cases hany' : members'.any (·.isSome) with
        | false => exact .inl ⟨rfl, rfl⟩
        | true =>
            obtain rfl : [none] = members' := by simpa [hany, hany'] using hmembers
            contradiction
    | true =>
        cases hany' : members'.any (·.isSome) with
        | false =>
            obtain rfl : members = [none] := by simpa [hany, hany'] using hmembers
            contradiction
        | true =>
            obtain rfl : members = members' := by simpa [hany, hany'] using hmembers
            exact .inr rfl
  · rintro (⟨hany, hany'⟩ | e)
    · rw [transactionOf_eq_wildcard route hany, transactionOf_eq_wildcard route hany']
    · rw [members_eq_of_identifiers h h' e]

end GraphTrace.Naming
