import Aprs.Coordinate.Arithmetic

namespace Aprs

/-- A rational number with a sign of its own, which tells the two zeros apart. Other
numbers have the sign of their value. -/
structure Exact where
  value : Rat
  negative : Bool
  negative_eq : value ≠ 0 → negative = decide (value < 0)
  deriving DecidableEq

namespace Exact

/-- A number whose sign is `negative` if its value is zero. -/
def ofValue (value : Rat) (negative : Bool) : Exact where
  value := value
  negative := if value = 0 then negative else value < 0
  negative_eq h := if_neg h

/-- The signs of sums, products and quotients are those of the binary formats when they
round to nearest: a sum is a negative zero only if both parts are. -/
instance : Arithmetic Exact where
  whole n := ofValue n false
  add x y := ofValue (x.value + y.value) (x.negative && y.negative)
  sub x y := ofValue (x.value - y.value) (x.negative && !y.negative)
  mul x y := ofValue (x.value * y.value) (x.negative ^^ y.negative)
  div x y := ofValue (x.value / y.value) (x.negative ^^ y.negative)
  neg x := ofValue (-x.value) !x.negative
  le x y := x.value ≤ y.value
  isNegative x := x.negative
  round x := min (x.value + 1 / 2).floor.toNat 0xFFFFFFFF

end Exact

end Aprs
