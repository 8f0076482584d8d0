import Aprs.Base91
import Aprs.Coordinate.Precision
import Aprs.Decimal.Digits

namespace Aprs

open Arithmetic

/-- Degrees north of the equator. -/
structure Latitude (R : Type) where
  degrees : R
  deriving DecidableEq

/-- Degrees east of the prime meridian. -/
structure Longitude (R : Type) where
  degrees : R
  deriving DecidableEq

variable {R : Type} [Arithmetic R]

namespace Coordinate

/-- Whether a number lies between `-limit` and `limit`, both included. -/
def isWithin (limit : Nat) (x : R) : Bool := le (-(whole limit)) x && le x (whole limit)

/-- Degrees, minutes and hundredths of a minute in degrees. -/
def ofParts (degrees minutes hundredths : Nat) (positive : Bool) : R :=
  let x := whole degrees + whole minutes / whole 60 + whole hundredths / whole 6000
  if positive then x else -x

/-- Reads the digits of degrees, minutes and hundredths, the last `blanks` of them as zeros
whatever stands there. The minutes are below sixty, and the degrees are what stands before. -/
def readDigits? (blanks : Nat) (places : List Char) : Option (Nat × Nat × Nat) := do
  let n ← Decimal.ofText? (places.take (places.length - blanks) ++ List.replicate blanks '0')
  if n / 100 % 100 < 60 then some (n / 10000, n / 100 % 100, n % 100) else none

/-- The side of zero that the last letter of a coordinate names. -/
def readSide? (positive negative c : Char) : Option Bool :=
  if c = positive then some true else if c = negative then some false else none

end Coordinate

open Coordinate

namespace Latitude

/-- The latitude of so many degrees, unless it lies beyond a pole. -/
def ofDegrees? (x : R) : Option (Latitude R) := if isWithin 90 x then some ⟨x⟩ else none

/-- The latitude that lies so many degrees, minutes and hundredths of a minute off the equator. -/
def ofParts? (degrees minutes hundredths : Nat) (north : Bool) : Option (Latitude R) :=
  ofDegrees? (ofParts degrees minutes hundredths north)

/-- Reads `ddmm.hhN`. The digits left blank at the end tell the precision. -/
def ofText? : List Char → Option (Latitude R × Precision)
  | [d₁, d₂, m₁, m₂, '.', h₁, h₂, side] => do
    let north ← readSide? 'N' 'S' side
    let places := [d₁, d₂, m₁, m₂, h₁, h₂]
    let precision ← Precision.ofBlanks? (places.reverse.takeWhile (· = ' ')).length
    let (degrees, minutes, hundredths) ← readDigits? precision.blanks places
    let latitude ← ofParts? degrees minutes hundredths north
    some (latitude, precision)
  | _ => none

/-- Reads the base-91 number of a compressed position, which counts down from the north pole. -/
def ofBase91? (b : Bytes) : Option (Latitude R) := do
  let n ← Base91.decode? b
  ofDegrees? (whole 90 - whole n / whole 380926)

/-- The base-91 number nearest to a latitude. -/
def toBase91 (latitude : Latitude R) : Bytes :=
  Base91.encode 4 (round ((whole 90 - latitude.degrees) * whole 380926))

end Latitude

namespace Longitude

/-- The longitude of so many degrees, unless it lies beyond the date line, which has one on either
side of zero. -/
def ofDegrees? (x : R) : Option (Longitude R) := if isWithin 180 x then some ⟨x⟩ else none

/-- The longitude that lies so many degrees, minutes and hundredths of a minute off the prime
meridian. -/
def ofParts? (degrees minutes hundredths : Nat) (east : Bool) : Option (Longitude R) :=
  ofDegrees? (ofParts degrees minutes hundredths east)

/-- Reads `dddmm.hhE`. As many digits at the end count for nothing as the latitude before
it left blank, and they need not be digits. -/
def ofText? (precision : Precision) : List Char → Option (Longitude R)
  | [d₁, d₂, d₃, m₁, m₂, '.', h₁, h₂, side] => do
    let east ← readSide? 'E' 'W' side
    let (degrees, minutes, hundredths) ←
      readDigits? precision.blanks [d₁, d₂, d₃, m₁, m₂, h₁, h₂]
    ofParts? degrees minutes hundredths east
  | _ => none

/-- Reads the base-91 number of a compressed position, which counts up from the date line. -/
def ofBase91? (b : Bytes) : Option (Longitude R) := do
  let n ← Base91.decode? b
  ofDegrees? (whole n / whole 190463 - whole 180)

/-- The base-91 number nearest to a longitude. -/
def toBase91 (longitude : Longitude R) : Bytes :=
  Base91.encode 4 (round ((whole 180 + longitude.degrees) * whole 190463))

end Longitude

end Aprs
