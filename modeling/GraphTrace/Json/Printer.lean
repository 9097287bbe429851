import GraphTrace.Double.Shortest
import GraphTrace.Json.Token

/-!
# Writing a JSON value

A value is written as its lexemes one after the other, with nothing between them.  A double is
written with the fewest digits that read back, positionally from `0.00001` up to sixteen digits
before the point, and otherwise with a signed exponent.
-/

namespace GraphTrace

/-- How doubles are laid out. -/
structure Layout where
  /-- The least decimal exponent that is written positionally. -/
  leastPlain : Int
  /-- The greatest decimal exponent that is written positionally. -/
  greatestPlain : Int

namespace Layout

/-- Digits with the point behind the first `point` of them, and zeros where digits are missing. -/
def positional (digits : List Char) (point : Int) : List Char :=
  if point ≤ 0 then ['0', '.'] ++ List.replicate (-point).toNat '0' ++ digits
  else
    let whole := digits.take point.toNat
    let fraction := digits.drop point.toNat
    whole ++ List.replicate (point.toNat - digits.length) '0' ++ ['.']
      ++ if fraction.isEmpty then ['0'] else fraction

/-- Digits with the point behind the first of them, and an exponent with its sign. -/
def scientific (digits : List Char) (exponent : Int) : List Char :=
  digits.take 1 ++ (if digits.length ≤ 1 then [] else '.' :: digits.drop 1)
    ++ ['e', if exponent < 0 then '-' else '+'] ++ Nat.toDigits 10 exponent.natAbs

/-- A double in this layout. -/
def render (layout : Layout) (d : Double) : String :=
  let sign := if d.negative then ['-'] else []
  if d.mantissa = 0 then String.ofList (sign ++ ['0', '.', '0'])
  else
    let shortest := d.shortest
    let (digits, zeros) := shortest.significant
    let point : Int := shortest.exponent + zeros + digits.length
    let exponent := point - 1
    String.ofList <| sign ++
      if layout.leastPlain ≤ exponent ∧ exponent ≤ layout.greatestPlain then
        positional digits point
      else scientific digits exponent

end Layout

namespace Json

/-- Doubles are written positionally for decimal exponents from -5 to 15. -/
def doubleLayout : Layout := ⟨-5, 15⟩

/-- A number as it is written. -/
def Number.text : Number → String
  | .integer n => toString n
  | .double d  => doubleLayout.render d

/-- A hexadecimal digit. -/
def hexDigit (n : Nat) : Char := Nat.digitChar n

/-- A character inside quotes. Quotes, backslashes and control characters are escaped. -/
def escapeChar (c : Char) : List Char :=
  match c with
  | '"'    => ['\\', '"']
  | '\\'   => ['\\', '\\']
  | '\x08' => ['\\', 'b']
  | '\x0c' => ['\\', 'f']
  | '\n'   => ['\\', 'n']
  | '\r'   => ['\\', 'r']
  | '\t'   => ['\\', 't']
  | c =>
    if c < ' ' then ['\\', 'u', '0', '0', hexDigit (c.toNat / 16), hexDigit (c.toNat % 16)]
    else [c]

/-- A string in quotes. -/
def quote (text : String) : String :=
  String.ofList ('"' :: text.toList.flatMap escapeChar ++ ['"'])

/-- A lexeme as it is written. -/
def Token.text : Token → String
  | .arrayOpen     => "["
  | .arrayClose    => "]"
  | .objectOpen    => "\x7b"
  | .objectClose   => "\x7d"
  | .comma         => ","
  | .colon         => ":"
  | .null          => "null"
  | .boolean true  => "true"
  | .boolean false => "false"
  | .number n      => n.text
  | .string s      => quote s

mutual

/-- The lexemes of a value. -/
def tokens : Json → List Token
  | .null           => [.null]
  | .boolean b      => [.boolean b]
  | .number n       => [.number n]
  | .string s       => [.string s]
  | .array items    => .arrayOpen :: itemTokens items
  | .object members => .objectOpen :: memberTokens members

/-- The lexemes of the items of an array and of its end. -/
def itemTokens : List Json → List Token
  | []           => [.arrayClose]
  | [item]       => item.tokens ++ [.arrayClose]
  | item :: rest => item.tokens ++ .comma :: itemTokens rest

/-- The lexemes of the members of an object and of its end. -/
def memberTokens : List (String × Json) → List Token
  | []                => [.objectClose]
  | [(key, value)]    => .string key :: .colon :: value.tokens ++ [.objectClose]
  | (key, value) :: rest =>
    .string key :: .colon :: value.tokens ++ .comma :: memberTokens rest

end

/-- A value as compact text. -/
def text (value : Json) : String := String.join (value.tokens.map Token.text)

end Json

end GraphTrace
