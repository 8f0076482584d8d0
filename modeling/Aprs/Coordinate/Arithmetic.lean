namespace Aprs

/-- The numbers that coordinates are computed in. A decoder runs on binary64 numbers, and
what it computes is understood on exact ones; the order of the operations is the same. -/
class Arithmetic (R : Type) extends Add R, Sub R, Mul R, Div R, Neg R where
  whole : Nat → R
  le : R → R → Bool
  /-- Whether a number has a minus sign, as a zero may. -/
  isNegative : R → Bool
  /-- The nearest natural number, a half going up. A number below zero gives zero, and one
  that does not fit 32 bits gives the largest number that does. -/
  round : R → Nat

instance : Arithmetic Float where
  whole := Float.ofNat
  le x y := x ≤ y
  isNegative x := x.toBits >>> 63 = 1
  round x := x.round.toUInt32.toNat

end Aprs
