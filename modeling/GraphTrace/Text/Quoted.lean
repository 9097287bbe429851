import GraphTrace.Text.Faceless

/-!
# Quoted text

A text in quotes for a reader of messages: quotes and backslashes are escaped, the usual control
characters by a letter, and every other character without a face by its code point in braces.
-/

namespace GraphTrace.Text

/-- A character inside quotes. -/
def quotedChar (c : Char) : List Char :=
  match c with
  | '\x00' => ['\\', '0']
  | '\t'   => ['\\', 't']
  | '\n'   => ['\\', 'n']
  | '\r'   => ['\\', 'r']
  | '"'    => ['\\', '"']
  | '\\'   => ['\\', '\\']
  | c =>
    if Faceless.contains c then ['\\', 'u', '{'] ++ Nat.toDigits 16 c.toNat ++ ['}'] else [c]

/-- A text in quotes. -/
def quoted (text : String) : String :=
  String.ofList ('"' :: text.toList.flatMap quotedChar ++ ['"'])

end GraphTrace.Text
