/-!
# GraphQL names

A name is a letter or underscore followed by letters, digits and underscores, all of them ASCII.
-/

namespace GraphTrace.Name

/-- A character that may open a name. -/
def isStart (c : Char) : Bool := c.isAlpha || c == '_'

/-- A character that may go on in a name. -/
def isPart (c : Char) : Bool := isStart c || c.isDigit

/-- Whether the characters spell a name. -/
def spelled : List Char → Bool
  | []      => false
  | c :: cs => isStart c && cs.all isPart

/-- Whether the text is a name. -/
def isValid (text : String) : Bool := spelled text.toList

end GraphTrace.Name
