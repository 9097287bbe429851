/-!
# Finite binary64 numbers

A finite double is a sign, a biased exponent below the one kept for infinities, and a fraction: the
three fields of the format, so two doubles are equal exactly when their bits are.  Zero has a sign.

`Double.ofDecimal?` rounds a decimal to the nearest double, a tie to the even neighbour, in exact
arithmetic; there is no double beyond the largest finite one.
-/

namespace GraphTrace

/-- A finite binary64 number. -/
structure Double where
  negative : Bool
  exponent : Fin 2047
  /-- Fifty-two bits. -/
  fraction : Fin 0x10000000000000
deriving DecidableEq, Repr

namespace Double

/-- Zero with a sign. -/
def zero (negative : Bool) : Double := ⟨negative, 0, 0⟩

/-- The integer of which the number is a multiple by `2 ^ unit`. -/
def mantissa (d : Double) : Nat :=
  if d.exponent.val = 0 then d.fraction.val else 0x10000000000000 + d.fraction.val

/-- The exponent of the last place. -/
def unit (d : Double) : Int := (max d.exponent.val 1 : Nat) - 1075

/-- The quotient of two naturals rounded to the nearest natural, a tie to the even one. -/
def divToEven (num den : Nat) : Nat :=
  let floor := num / den
  match compare (2 * (num % den)) den with
  | .lt => floor
  | .gt => floor + 1
  | .eq => if floor % 2 = 0 then floor else floor + 1

/-- The quotient `num / den * 2 ^ -place` as a fraction of naturals. -/
def atPlace (num den : Nat) (place : Int) : Nat × Nat :=
  (num * Nat.pow 2 (-place).toNat, den * Nat.pow 2 place.toNat)

/-- The greatest `e` with `2 ^ e ≤ num / den`, for a positive fraction. -/
def binaryExponent (num den : Nat) : Int :=
  let e : Int := (num.log2 : Int) - den.log2
  let (n, d) := atPlace num den e
  if d ≤ n then e else e - 1

/-- The number `mantissa * 2 ^ unit`, for a mantissa of at most 53 bits that is full unless the
unit is the least one. -/
def ofMantissa? (negative : Bool) (mantissa : Nat) (unit : Int) : Option Double :=
  if mantissa < 0x10000000000000 then some ⟨negative, 0, Fin.ofNat _ mantissa⟩
  else
    let (mantissa, unit) :=
      if mantissa < 0x20000000000000 then (mantissa, unit) else (0x10000000000000, unit + 1)
    let exponent := (unit + 1075).toNat
    if h : exponent < 2047 then some ⟨negative, ⟨exponent, h⟩, Fin.ofNat _ mantissa⟩ else none

/-- The double nearest to a positive fraction, if it is finite. -/
def ofFraction? (negative : Bool) (num den : Nat) : Option Double :=
  let unit := max (binaryExponent num den - 52) (-1074)
  let (n, d) := atPlace num den unit
  ofMantissa? negative (divToEven n d) unit

/-- How many decimal digits a natural has. -/
def decimalLength (n : Nat) : Nat := (Nat.toDigits 10 n).length

/-- The double nearest to `significand * 10 ^ exponent`, if it is finite. Exponents far outside the
range of doubles are settled by their size alone. -/
def ofDecimal? (negative : Bool) (significand : Nat) (exponent : Int) : Option Double :=
  let magnitude := exponent + decimalLength significand
  if significand = 0 ∨ magnitude < -400 then some (zero negative)
  else if 400 < magnitude then none
  else
    ofFraction? negative (significand * Nat.pow 10 exponent.toNat) (Nat.pow 10 (-exponent).toNat)

end Double

end GraphTrace
