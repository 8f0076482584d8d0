import Aprs.Coordinate.Arithmetic

namespace Aprs

/-- How exactly a sender states a position. Digits at the end of a coordinate may be left
blank, and each blank makes the place ten or six times as large. -/
inductive Precision where
  | tenDegrees
  | oneDegree
  | tenMinutes
  | oneMinute
  | tenthMinute
  | hundredthMinute
  deriving DecidableEq, Repr

namespace Precision

/-- A position without blanks is given to a hundredth of a minute, and so is a compressed one. -/
instance : Inhabited Precision := ⟨hundredthMinute⟩

/-- The number of blank digits. -/
def blanks : Precision → Nat
  | hundredthMinute => 0
  | tenthMinute => 1
  | oneMinute => 2
  | tenMinutes => 3
  | oneDegree => 4
  | tenDegrees => 5

/-- The six digits of a latitude may not all be blank. -/
def ofBlanks? : Nat → Option Precision
  | 0 => some hundredthMinute
  | 1 => some tenthMinute
  | 2 => some oneMinute
  | 3 => some tenMinutes
  | 4 => some oneDegree
  | 5 => some tenDegrees
  | _ => none

variable {R : Type} [Arithmetic R]

open Arithmetic

/-- The width of the place of the last digit that is not blank, in degrees. -/
def width : Precision → R
  | hundredthMinute => whole 1 / whole 6000
  | tenthMinute => whole 1 / whole 600
  | oneMinute => whole 1 / whole 60
  | tenMinutes => whole 1 / whole 6
  | oneDegree => whole 1
  | tenDegrees => whole 10

/-- The bounds of a coordinate whose blank digits were read as zero. The coordinate is the
bound nearest to zero, so the sign decides the side, also that of a zero. -/
def bounds (p : Precision) (edge : R) : R × R :=
  if isNegative edge then (edge - p.width, edge) else (edge, edge + p.width)

end Precision

end Aprs
