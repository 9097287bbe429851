/-!
# Durations in words

A duration in nanoseconds is written as its nonzero parts, largest first: `1year 2days 3h 4ms`.  A
year is 365.25 days and a month a twelfth of it, rounded up to whole seconds of days; the calendar
plays no part.
-/

namespace GraphTrace.Duration

/-- A unit: how many nanoseconds it has, its name, and whether the name takes an `s` after numbers
other than one. -/
structure Unit where
  nanoseconds : Nat
  name : String
  pluralised : Bool

/-- The units, largest first. -/
def units : List Unit :=
  [⟨31557600000000000, "year", true⟩, ⟨2630016000000000, "month", true⟩,
   ⟨86400000000000, "day", true⟩, ⟨3600000000000, "h", false⟩, ⟨60000000000, "m", false⟩,
   ⟨1000000000, "s", false⟩, ⟨1000000, "ms", false⟩, ⟨1000, "us", false⟩, ⟨1, "ns", false⟩]

/-- A positive number of a unit. -/
def Unit.count (u : Unit) (n : Nat) : String :=
  n.repr ++ u.name ++ (if u.pluralised && n != 1 then "s" else "")

/-- The nonzero parts of a duration in these units. -/
def parts : List Unit → Nat → List String
  | [], _ => []
  | u :: smaller, nanoseconds =>
    let rest := parts smaller (nanoseconds % u.nanoseconds)
    if nanoseconds / u.nanoseconds = 0 then rest else u.count (nanoseconds / u.nanoseconds) :: rest

/-- A duration in words. -/
def text (nanoseconds : Nat) : String :=
  if nanoseconds = 0 then "0s" else " ".intercalate (parts units nanoseconds)

end GraphTrace.Duration
