import Aprs.Decimal.Digits
import Aprs.Decoder

namespace Aprs

/-- Where an antenna favours. -/
inductive Directivity where
  | omni
  | degrees (n : Nat)
  deriving DecidableEq, Repr

/-- Code 0 favours no direction, and the others are the eight winds clockwise from north-east. -/
def Directivity.ofCode? (n : Nat) : Option Directivity :=
  if n = 0 then some .omni else if n ≤ 8 then some (.degrees (45 * n)) else none

/-- The code of a direction that has one. -/
def Directivity.code : Directivity → Nat
  | .omni => 0
  | .degrees n => n / 45

/-- Seven octets of data that may stand behind a position written out in degrees. -/
inductive Extension where
  /-- Course and speed of a station, or direction and speed of an object or the wind. -/
  | directionSpeed (degrees knots : Nat)
  /-- Transmitter power, and height, gain and direction of the antenna. -/
  | power (watts feet gain : Nat) (directivity : Directivity)
  | radioRange (miles : Nat)
  /-- Strength of a received signal, and height, gain and direction of the antenna. -/
  | signal (strength feet gain : Nat) (directivity : Directivity)
  | area (kind color : Nat)
  deriving DecidableEq, Repr

namespace Extension

/-- The height above average terrain. Each step of the code doubles it, beginning at ten
feet for `0` and going past `9`, and the height fits 32 bits. -/
def height? (c : Char) : Option Nat :=
  let feet := 10 * Nat.pow 2 (c.toNat - '0'.toNat)
  if '0' ≤ c ∧ feet ≤ 0xFFFFFFFF then some feet else none

/-- Reads the four codes that power and signal reports share. -/
def readCodes? (lead height gain directivity : Char) :
    Option (Nat × Nat × Nat × Directivity) := do
  let lead ← Decimal.ofText? [lead]
  let feet ← height? height
  let gain ← Decimal.ofText? [gain]
  let directivity ← Directivity.ofCode? (← Decimal.ofText? [directivity])
  some (lead, feet, gain, directivity)

/-- Reads the seven characters of an extension. The letters and slashes settle its form, and no
other form is tried if the numbers do not fit that one. -/
def ofText? : List Char → Option Extension
  | ['R', 'N', 'G', a, b, c, d] => (Decimal.ofText? [a, b, c, d]).map radioRange
  | ['P', 'H', 'G', a, b, c, d] =>
    (readCodes? a b c d).map fun (lead, feet, gain, directivity) =>
      power (lead * lead) feet gain directivity
  | ['D', 'F', 'S', a, b, c, d] =>
    (readCodes? a b c d).map fun (lead, feet, gain, directivity) =>
      signal lead feet gain directivity
  | ['T', a, b, '/', 'C', c, d] => do
    some (area (← Decimal.ofText? [a, b]) (← Decimal.ofText? [c, d]))
  | [a, b, c, '/', d, e, f] => do
    some (directionSpeed (← Decimal.ofText? [a, b, c]) (← Decimal.ofText? [d, e, f]))
  | _ => none

/-- The code of a height that has one. -/
def heightCode (feet : Nat) : Char := Char.ofNat ('0'.toNat + Nat.log2 (feet / 10))

/-- The digit whose square is the power, for a power that has one. -/
def powerCode (watts : Nat) : Nat := (List.range 10).findIdx fun n => n * n = watts

/-- The seven characters of an extension. -/
def text : Extension → List Char
  | directionSpeed degrees knots => Decimal.padded 3 degrees ++ '/' :: Decimal.padded 3 knots
  | power watts feet gain directivity => ['P', 'H', 'G'] ++ Decimal.padded 1 (powerCode watts) ++
    heightCode feet :: Decimal.padded 1 gain ++ Decimal.padded 1 directivity.code
  | radioRange miles => ['R', 'N', 'G'] ++ Decimal.padded 4 miles
  | signal strength feet gain directivity => ['D', 'F', 'S'] ++ Decimal.padded 1 strength ++
    heightCode feet :: Decimal.padded 1 gain ++ Decimal.padded 1 directivity.code
  | area kind color => 'T' :: Decimal.padded 2 kind ++ '/' :: 'C' :: Decimal.padded 2 color

/-- Reads an extension off the front of the octets. -/
def decode : Decoder Extension := Decoder.field 7 .extension ofText?

end Extension

end Aprs
