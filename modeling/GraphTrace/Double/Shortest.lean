import GraphTrace.Double.Basic

/-!
# The shortest decimal that reads back

Every real between the halves of the gaps to a double's neighbours rounds to that double, the ends
included when its mantissa is even.  `Double.shortest` is the decimal of fewest digits in this
interval, and of those the one nearest to the double, an exact tie going to the even digit.  The
digits are searched on the grids of one, two, … digits; on each grid only the two neighbours of the
double can be nearest, and seventeen digits always suffice.
-/

namespace GraphTrace

/-- The number `digits * 10 ^ exponent`. -/
structure Decimal where
  digits : Nat
  exponent : Int
deriving DecidableEq, Repr

namespace Double

/-- How `a * 10 ^ i` and `b * 2 ^ j` compare. -/
def compareScaled (a : Nat) (i : Int) (b : Nat) (j : Int) : Ordering :=
  compare (a * Nat.pow 10 i.toNat * Nat.pow 2 (-j).toNat)
    (b * Nat.pow 2 j.toNat * Nat.pow 10 (-i).toNat)

/-- Whether the gap to the neighbour below is half the gap to the neighbour above. -/
def narrowBelow (d : Double) : Bool := d.fraction.val = 0 && 1 < d.exponent.val

/-- Whether a decimal lies among the reals that round to the magnitude of this double. -/
def readsBack (d : Double) (x : Decimal) : Bool :=
  let low := 4 * d.mantissa - (if d.narrowBelow then 1 else 2)
  let high := 4 * d.mantissa + 2
  let ends := d.mantissa % 2 == 0
  let below := compareScaled x.digits x.exponent low (d.unit - 2)
  let above := compareScaled x.digits x.exponent high (d.unit - 2)
  (below == .gt || (ends && below == .eq)) && (above == .lt || (ends && above == .eq))

/-- The greatest natural `c` for which `c * 10 ^ exponent` is at most this magnitude. -/
def floorAt (d : Double) (exponent : Int) : Nat :=
  (d.mantissa * Nat.pow 2 d.unit.toNat * Nat.pow 10 (-exponent).toNat)
    / (Nat.pow 10 exponent.toNat * Nat.pow 2 (-d.unit).toNat)

/-- How many digits the integer part has; for a number below one, minus the zeros behind the
point. -/
def decimalPoint (d : Double) : Int :=
  if 0 < d.floorAt 0 then decimalLength (d.floorAt 0)
  else
    let shift := 400
    (decimalLength (d.floorAt (-shift)) : Int) - shift

/-- The nearer of the two neighbours of this magnitude on the grid of `count` digits that reads
back. -/
def onGrid? (d : Double) (count : Nat) : Option Decimal :=
  let exponent := d.decimalPoint - count
  let floor := d.floorAt exponent
  let below : Decimal := ⟨floor, exponent⟩
  let above : Decimal := ⟨floor + 1, exponent⟩
  match d.readsBack below, d.readsBack above with
  | true, false  => some below
  | false, true  => some above
  | false, false => none
  | true, true   =>
    match compareScaled (2 * floor + 1) exponent (2 * d.mantissa) d.unit with
    | .gt => some below
    | .lt => some above
    | .eq => some (if floor % 2 = 0 then below else above)

/-- The exact value, which always reads back. -/
def exact (d : Double) : Decimal :=
  ⟨d.mantissa * Nat.pow 2 d.unit.toNat * Nat.pow 5 (-d.unit).toNat, -((-d.unit).toNat : Int)⟩

/-- The shortest decimal that reads back as this magnitude. -/
def shortest (d : Double) : Decimal :=
  ((List.range' 1 17).findSome? d.onGrid?).getD d.exact

end Double

namespace Decimal

/-- The digits without the zeros at their end, and how many of those there are. -/
def significant (x : Decimal) : List Char × Nat :=
  let written := Nat.toDigits 10 x.digits
  let zeros := (written.reverse.takeWhile (· == '0')).length
  (written.take (written.length - zeros), zeros)

end Decimal

end GraphTrace
