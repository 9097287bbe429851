/-!
# Tokens of a document

The structure that indentation and key positions give a text is made explicit: every collection
written by indentation has a start and an end among the tokens, and every key has its mark.
-/

namespace GraphTrace.Yaml

/-- A tag: its handle as written, and the rest of it. -/
structure Tag where
  handle : String
  suffix : String
deriving DecidableEq, Repr

/-- A part of a document. -/
inductive Token where
  /-- A line that is addressed to the reader. -/
  | directive
  | documentStart
  | documentEnd
  /-- The start of a list written by indentation. -/
  | listStart
  /-- The start of a mapping written by indentation. -/
  | mappingStart
  /-- The end of a list or mapping written by indentation. -/
  | indentEnd
  | bracketOpen
  | bracketClose
  | braceOpen
  | braceClose
  /-- The mark of an item of a list. -/
  | item
  | comma
  | key
  | value
  | anchor (name : String)
  | reference (name : String)
  | tag (tag : Tag)
  | scalar (text : String) (plain : Bool)
deriving DecidableEq, Repr

end GraphTrace.Yaml
