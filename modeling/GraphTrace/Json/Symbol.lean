/-!
# Bytes as symbols

A byte string is read as symbols: the characters it encodes in UTF-8, and each byte that is part of
no encoded character as a stray.  A text that encodes characters throughout has no strays.
-/

namespace GraphTrace.Json

/-- What a place in a byte string holds. -/
inductive Symbol where
  | char (c : Char)
  | stray (byte : UInt8)
deriving DecidableEq, Repr

namespace Symbol

/-- How many bytes a symbol takes up. -/
def size : Symbol → Nat
  | .char c  => c.utf8Size
  | .stray _ => 1

/-- The symbols of a byte string from a position on. -/
def decodeFrom (bytes : ByteArray) (i : Nat) : List Symbol :=
  if _h : i < bytes.size then
    match bytes.utf8DecodeChar? i with
    | some c => .char c :: decodeFrom bytes (i + c.utf8Size)
    | none   => .stray bytes[i] :: decodeFrom bytes (i + 1)
  else []
termination_by bytes.size - i
decreasing_by
  · have := c.utf8Size_pos; omega
  · omega

/-- The symbols of a byte string. -/
def decode (bytes : ByteArray) : List Symbol := decodeFrom bytes 0

end Symbol

end GraphTrace.Json
