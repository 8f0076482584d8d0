import Aprs.Bytes

namespace Aprs.Base91

/-- The value of a digit. The digits are the 91 printable octets from `!` to `{`. -/
def digit? (b : UInt8) : Option Nat :=
  if 0x21 ≤ b ∧ b ≤ 0x7B then some (b.toNat - 0x21) else none

/-- The digit of a value below 91. -/
def ofDigit (d : Nat) : UInt8 := UInt8.ofNat (d + 0x21)

/-- Appends one digit to a number of 32 bits. -/
def push? (n : Nat) (b : UInt8) : Option Nat := do
  let d ← digit? b
  let next := 91 * n + d
  if next ≤ 0xFFFFFFFF then some next else none

/-- The number that digits write, the first digit weighing most. There is none if an octet
is no digit or if the number does not fit 32 bits. -/
def decode? (b : Bytes) : Option Nat := b.foldlM push? 0

/-- The last `width` digits of a number. -/
def digits : Nat → Nat → Bytes
  | 0, _ => []
  | width + 1, n => digits width (n / 91) ++ [ofDigit (n % 91)]

/-- A number written with `width` digits. One that needs more is written as the largest
number that does not. -/
def encode (width n : Nat) : Bytes := digits width (min n (Nat.pow 91 width - 1))

end Aprs.Base91
