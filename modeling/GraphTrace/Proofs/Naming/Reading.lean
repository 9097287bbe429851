import GraphTrace.Proofs.Naming.Parts

/-!
# Reading an identifier back

A field and a spread fragment of one name leave the same in a path, a segment; a type condition
leaves another thing (`Sign`).  An identifier shows the kind and the name of its operation and the
signs of its walk, and where names are GraphQL names all of it can be read there.

A path is read from its end.  The characters of a name are gathered until the character before them
tells what they are the name of: a point that of a segment, `<` that of a condition.  What is
gathered where the path begins is its first segment (`readPath`).

* `pathText_eq_signsText`: a path shows the signs of its steps and nothing else.
* `readPath_signsText`: the signs are read back, whatever they are and whichever comes first.
* `readIdentifier_identifier`: so are the kind, the name and the signs from an identifier.
* `identifiers_read_back`: two identifiers are equal just where all three are.
-/

namespace GraphTrace.Naming

/-! ### Signs -/

/-- What a step leaves in a path. -/
inductive Sign where
  | segment (name : String)
  | condition (type : String)
deriving DecidableEq, Repr

/-- The sign that a step leaves. -/
def Step.sign : Step → Sign
  | .field name | .fragment name => .segment name
  | .condition type              => .condition type

namespace Sign

/-- A path with a sign behind it. -/
def extend (path : String) : Sign → String
  | .segment name   => Step.join path name
  | .condition type => path ++ "<" ++ type ++ ">"

/-- The characters of a sign, behind a path that is not empty. -/
def written : Sign → List Char
  | .segment name   => '.' :: name.toList
  | .condition type => '<' :: (type.toList ++ ['>'])

/-- A sign that holds a GraphQL name. -/
def Named : Sign → Prop
  | .segment name | .condition name => Name.isValid name

end Sign

/-- The text of a sequence of signs. -/
def signsText (signs : List Sign) : String := signs.foldl Sign.extend ""

/-- **A path shows the signs of its steps** and nothing else. -/
theorem pathText_eq_signsText (steps : List Step) :
    pathText steps = signsText (steps.map Step.sign) := by
  have hextend : ∀ path step, Step.extend path step = step.sign.extend path := by
    intro path step
    cases step <;> rfl
  rw [pathText, signsText, List.foldl_map, funext₂ hextend]

/-- Named steps have named signs. -/
theorem named_sign {steps : List Step} (h : ∀ step ∈ steps, step.Named) :
    ∀ sign ∈ steps.map Step.sign, sign.Named := by
  refine List.forall_mem_map.mpr fun step hs => ?_
  have hstep := h step hs
  cases step <;> exact hstep

/-- Signs behind a path that is not empty are written one after the other. -/
theorem toList_foldl_extend {path : String} (h : path ≠ "") (signs : List Sign) :
    (signs.foldl Sign.extend path).toList = path.toList ++ signs.flatMap Sign.written := by
  induction signs generalizing path with
  | nil => simp
  | cons sign rest ih =>
      cases sign with
      | segment name =>
          rw [List.foldl_cons, Sign.extend, join_of_ne_empty h, ih (by simp)]
          simp [Sign.written]
      | condition type =>
          rw [List.foldl_cons, Sign.extend, ih (by simp)]
          simp [Sign.written]

/-! ### Reading a path -/

/-- What has been read of a path from its end: a name that is not complete, and the signs behind
it. -/
structure Scan where
  name : List Char := []
  signs : List Sign := []

namespace Scan

/-- The character before what has been read. -/
def push (c : Char) (s : Scan) : Scan :=
  match c with
  | '.' => ⟨[], .segment (String.ofList s.name) :: s.signs⟩
  | '<' => ⟨[], .condition (String.ofList s.name) :: s.signs⟩
  | '>' => ⟨[], s.signs⟩
  | c   => ⟨c :: s.name, s.signs⟩

/-- The signs of a path that begins here: a name that is left is the first segment. -/
def finish (s : Scan) : List Sign :=
  if s.name.isEmpty then s.signs else .segment (String.ofList s.name) :: s.signs

/-- A character of a name goes to the name that is being read. -/
theorem push_of_isPart {c : Char} (h : Name.isPart c) (s : Scan) :
    s.push c = ⟨c :: s.name, s.signs⟩ := by
  unfold push
  split
  case h_1 | h_2 | h_3 => exact absurd h (by decide)
  case h_4 => rfl

end Scan

/-- Reads characters from their end. -/
def scan (cs : List Char) : Scan := cs.foldr Scan.push {}

/-- The signs that a path shows. -/
def readPath (path : String) : List Sign := (scan path.toList).finish

/-- A name is read up to what follows it. -/
theorem scan_name {name : String} (h : Name.isValid name) (rest : List Char) :
    scan (name.toList ++ rest) = ⟨name.toList ++ (scan rest).name, (scan rest).signs⟩ := by
  have hpart : ∀ c ∈ name.toList, Name.isPart c := fun _ => Name.isPart_of_mem h
  generalize name.toList = cs at hpart
  induction cs with
  | nil => rfl
  | cons c cs ih =>
      obtain ⟨hc, hcs⟩ := List.forall_mem_cons.mp hpart
      have hscan : scan (cs ++ rest) = _ := ih hcs
      rw [List.cons_append, scan, List.foldr_cons, ← scan, hscan, Scan.push_of_isPart hc]
      rfl

/-- **Signs are read back** from their characters, and none of those is left. -/
theorem scan_written {signs : List Sign} (h : ∀ sign ∈ signs, sign.Named) :
    scan (signs.flatMap Sign.written) = ⟨[], signs⟩ := by
  induction signs with
  | nil => rfl
  | cons sign rest ih =>
      obtain ⟨hsign, hrest⟩ := List.forall_mem_cons.mp h
      cases sign with
      | segment name =>
          have hname := scan_name hsign (rest.flatMap Sign.written)
          rw [ih hrest, List.append_nil] at hname
          rw [List.flatMap_cons, Sign.written, List.cons_append, scan, List.foldr_cons, ← scan,
            hname, Scan.push, String.ofList_toList]
      | condition type =>
          have hclose : scan ('>' :: rest.flatMap Sign.written) = ⟨[], rest⟩ := by
            rw [scan, List.foldr_cons, ← scan, ih hrest]
            rfl
          have htype := scan_name hsign ('>' :: rest.flatMap Sign.written)
          rw [hclose, List.append_nil] at htype
          rw [List.flatMap_cons, Sign.written, List.cons_append, List.append_assoc,
            List.singleton_append, scan, List.foldr_cons, ← scan, htype, Scan.push,
            String.ofList_toList]

/-- **A path is read back** as the signs that make it up. -/
theorem readPath_signsText {signs : List Sign} (h : ∀ sign ∈ signs, sign.Named) :
    readPath (signsText signs) = signs := by
  cases signs with
  | nil => rfl
  | cons sign rest =>
      have hscan := scan_written h
      obtain ⟨hsign, hrest⟩ := List.forall_mem_cons.mp h
      cases sign with
      | segment name =>
          -- No point stands before the first segment.
          have hne := Name.ne_empty hsign
          have htext : (signsText (.segment name :: rest)).toList
              = name.toList ++ rest.flatMap Sign.written := toList_foldl_extend hne rest
          rw [readPath, htext, scan_name hsign, scan_written hrest, List.append_nil, Scan.finish]
          simp [hne]
      | condition type =>
          have htext : (signsText (.condition type :: rest)).toList
              = (Sign.condition type :: rest).flatMap Sign.written := by
            rw [signsText, List.foldl_cons, Sign.extend, toList_foldl_extend (by simp)]
            simp [Sign.written]
          rw [readPath, htext, hscan]
          rfl

/-! ### Reading an identifier -/

/-- What an identifier shows of an operation. -/
structure Reading where
  kind : OperationKind
  name : Option String
  signs : List Sign
deriving DecidableEq, Repr

/-- The reading of a text, if it is an identifier. -/
def readIdentifier (identifier : Identifier) : Option Reading :=
  match splitParts identifier.text.toList with
  | [kind, name, path] =>
    (OperationKind.ofKeyword? kind).map (⟨·, readName name, readPath path⟩)
  | _ => none

/-- Plain parts are read back from their identifier. -/
theorem readIdentifier_parts {p : Parts} (h : p.Plain) :
    readIdentifier p.identifier = some ⟨p.kind, p.name, readPath p.path⟩ := by
  have hsplit : splitParts p.identifier.text.toList = p.texts := by
    rw [p.text_identifier, splitParts_intercalate h.slash_notMem (List.cons_ne_nil _ _)]
  simp only [readIdentifier, hsplit, Parts.texts, ofKeyword?_keyword, readName_getD h.name,
    Option.map_some]

/-- The signs of the walk from an operation. -/
def signsOf (d : Document) (reserved : Reserved) (o : Operation) : List Sign :=
  (d.walkOf reserved o).steps.map Step.sign

section

variable (d d' : Document) (reserved reserved' : Reserved) {o o' : Operation}

/-- **An identifier is read back** as the kind, the name and the signs of its operation. -/
theorem readIdentifier_identifier (h : o.Named) : readIdentifier (d.identifier reserved o)
    = some ⟨o.kind, o.name, signsOf d reserved o⟩ := by
  have hsigns : readPath (d.walkOf reserved o).text = signsOf d reserved o := by
    rw [Walk.text, pathText_eq_signsText, signsOf]
    exact readPath_signsText (named_sign (named_walk h.selections))
  have hread := readIdentifier_parts (plain_of_named d reserved h)
  rw [hsigns] at hread
  exact hread

/-- **Identifiers can be read back.**  Where names are GraphQL names, an identifier is read as the
kind, the name and the signs of its operation, and two of them, of any documents and under any
reserved names, are equal just where those are. -/
theorem identifiers_read_back (h : o.Named) (h' : o'.Named) :
    readIdentifier (d.identifier reserved o) = some ⟨o.kind, o.name, signsOf d reserved o⟩ ∧
      (d.identifier reserved o = d'.identifier reserved' o' ↔
        o.kind = o'.kind ∧ o.name = o'.name ∧ signsOf d reserved o = signsOf d' reserved' o') := by
  have hread := readIdentifier_identifier d reserved h
  refine ⟨hread, fun e => ?_, ?_⟩
  · have hreading := hread.symm.trans (e ▸ readIdentifier_identifier d' reserved' h')
    exact Reading.mk.inj (Option.some.inj hreading)
  · rintro ⟨hkind, hname, hsigns⟩
    rw [Document.identifier, Document.identifier, Walk.text, Walk.text, pathText_eq_signsText,
      pathText_eq_signsText, hkind, hname, ← signsOf, ← signsOf, hsigns]

end

/-- `{ search { ... on Book { author { Name } } } }` -/
def authorNameOperation : Operation :=
  ⟨.query, none, [.field none "search" [] []
    [.inline (some "Book") [] [.field none "author" [] [] [.field none "Name" [] [] []]]]]⟩

/-- Two operations in two documents with the same identifier, and what it reads back as. -/
theorem identifiers_read_back_search :
    Operation.Named ⟨.query, none, searchSelections⟩ ∧ authorNameOperation.Named ∧
      cyclicFragments.identifier .standard ⟨.query, none, searchSelections⟩
        = (⟨[]⟩ : Document).identifier (.withNames ["books"]) authorNameOperation ∧
      readIdentifier ⟨"query/<anonymous>/search<Book>.author.Name"⟩
        = some ⟨.query, none,
          [.segment "search", .condition "Book", .segment "author", .segment "Name"]⟩ := by
  have h : Operation.Named ⟨.query, none, searchSelections⟩ := by
    refine ⟨by simp, ?_⟩
    simp only [searchSelections, NamedSelections, Selection.Named]
    decide
  have h' : authorNameOperation.Named := by
    refine ⟨by simp [authorNameOperation], ?_⟩
    simp only [authorNameOperation, NamedSelections, Selection.Named]
    decide
  have hsigns : signsOf cyclicFragments .standard ⟨.query, none, searchSelections⟩
      = [.segment "search", .condition "Book", .segment "author", .segment "Name"] := by
    decide +kernel
  have hsigns' : signsOf ⟨[]⟩ (.withNames ["books"]) authorNameOperation
      = [.segment "search", .condition "Book", .segment "author", .segment "Name"] := by
    decide +kernel
  obtain ⟨hread, hiff⟩ := identifiers_read_back cyclicFragments ⟨[]⟩ .standard
    (.withNames ["books"]) h h'
  refine ⟨h, h', hiff.mpr ⟨rfl, rfl, hsigns.trans hsigns'.symm⟩, ?_⟩
  rwa [hsigns, show cyclicFragments.identifier .standard ⟨.query, none, searchSelections⟩
    = ⟨"query/<anonymous>/search<Book>.author.Name"⟩ by decide +kernel] at hread

end GraphTrace.Naming
