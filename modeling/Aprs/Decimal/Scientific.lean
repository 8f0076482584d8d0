import Aprs.Decimal.Digits

namespace Aprs.Decimal

/-- The quotient of two numbers rounded to a whole one, a tie going to the even side. -/
def roundHalfEven (num den : Nat) : Nat :=
  let quotient := num / den
  let twice := 2 * (num % den)
  if twice < den then quotient
  else if den < twice then quotient + 1
  else quotient + quotient % 2

/-- `num / den * 10 ^ shift` as a fraction of whole numbers. -/
def scale (num den : Nat) (shift : Int) : Nat × Nat :=
  (num * Nat.pow 10 shift.toNat, den * Nat.pow 10 (-shift).toNat)

/-- The power of ten at which the first digit of a positive fraction stands. The number of
digits of both sides leaves two powers to choose from. -/
def leadingPower (num den : Nat) : Int :=
  let power : Int := (digits num).length - (digits den).length
  let (n, d) := scale num den (-power)
  if d ≤ n then power else power - 1

/-- A non-negative number with `places + 1` significant digits, a point after the first
one and a power of ten at the end, as in `8.32e0`. -/
def scientific (places : Nat) (q : Rat) : List Char :=
  let (mantissa, power) :=
    if q.num = 0 then (0, 0) else
      let power := leadingPower q.num.toNat q.den
      let (n, d) := scale q.num.toNat q.den (places - power)
      let mantissa := roundHalfEven n d
      if mantissa = Nat.pow 10 (places + 1) then (Nat.pow 10 places, power + 1) else (mantissa, power)
  let sign := if power < 0 then ['-'] else []
  padded 1 (mantissa / Nat.pow 10 places) ++ '.' :: padded places mantissa ++ 'e' :: sign ++
    digits power.natAbs

end Aprs.Decimal
