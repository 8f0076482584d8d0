namespace Aprs.Decimal

/-- The number that digits write, the first digit weighing most. -/
def value (digits : List Char) : Nat := digits.foldl (fun n c => 10 * n + (c.toNat - 0x30)) 0

/-- The number that a text writes, if it holds ASCII digits only. A sign is refused, and
a text without digits is zero. -/
def ofText? (text : List Char) : Option Nat :=
  if text.all Char.isDigit then some (value text) else none

/-- The last `width` digits of a number, with zeros in front of a short one. -/
def padded : Nat → Nat → List Char
  | 0, _ => []
  | width + 1, n => padded width (n / 10) ++ [Nat.digitChar (n % 10)]

/-- The decimal digits of a number, without zeros in front. -/
def digits (n : Nat) : List Char := Nat.toDigits 10 n

/-- The decimal digits of a number, with zeros in front until there are `width` of them. A number
that is longer keeps all of its digits. -/
def zeroFilled (width n : Nat) : List Char := (digits n).leftpad width '0'

end Aprs.Decimal
