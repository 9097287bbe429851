import GraphTrace.Json.Mismatch

/-!
# Paths into a response

A path names the place of a field in a response by keys and list indices, as in
`["library", "books", 0, "title"]`.  It is shown with points, `library.books.0.title`; the texts of
its nonempty beginnings, shortest first, are its dotted levels.

As JSON a path is an array.  An integer that fits 64 unsigned bits is an index and a string is a
key, whatever it spells; nothing else is an element.
-/

namespace GraphTrace.Response

/-- A step into a response: into a list, or into an object. -/
inductive Element where
  | index (i : UInt64)
  | key (name : String)
deriving DecidableEq, Repr

namespace Element

/-- The step as it is shown. -/
def text : Element → String
  | .index i  => i.toNat.repr
  | .key name => name

/-- The step as JSON. -/
def toJson : Element → Json
  | .index i  => .integer i.toNat
  | .key name => .string name

/-- The step a JSON value stands for. -/
def ofJson? : Json → Option Element
  | .number (.integer n) =>
    if 0 ≤ n ∧ n < 0x10000000000000000 then some (.index (.ofNat n.toNat)) else none
  | .string name => some (.key name)
  | _            => none

end Element

/-- A place in a response. -/
structure Path where
  elements : List Element
deriving DecidableEq, Repr

namespace Path

/-- The response itself. -/
def empty : Path := ⟨[]⟩

/-- The path one step deeper. -/
def join (p : Path) (e : Element) : Path := ⟨p.elements ++ [e]⟩

/-- The path one step shorter. The empty path has none. -/
def parent? (p : Path) : Option Path :=
  if p.elements.isEmpty then none else some ⟨p.elements.dropLast⟩

/-- Every shorter path, the longest first. -/
def parents (p : Path) : List Path :=
  (List.range p.elements.length).reverse.map fun n => ⟨p.elements.take n⟩

/-- The path as it is shown. -/
def text (p : Path) : String := ".".intercalate (p.elements.map Element.text)

/-- The levels below one that is shown as `above`. -/
def levelsBelow (above : String) : List Element → List String
  | []        => []
  | e :: rest => (above ++ "." ++ e.text) :: levelsBelow (above ++ "." ++ e.text) rest

/-- The texts of the nonempty beginnings of the path, shortest first. -/
def levels (p : Path) : List String :=
  match p.elements with
  | []        => []
  | e :: rest => e.text :: levelsBelow e.text rest

/-- Why a JSON value is no path. -/
inductive Error where
  | noSequence (found : Json)
  | noElement

/-- The wording of an error. -/
def Error.message : Error → String
  | .noSequence found => Json.mismatch found.described "a sequence"
  | .noElement        => "data did not match any variant of untagged enum PathElement"

/-- The path as JSON. -/
def toJson (p : Path) : Json := .array (p.elements.map Element.toJson)

/-- The path a JSON value stands for. -/
def ofJson : Json → Except Error Path
  | .array items =>
    match items.mapM Element.ofJson? with
    | some elements => .ok ⟨elements⟩
    | none          => .error .noElement
  | found => .error (.noSequence found)

end Path

end GraphTrace.Response
