import Aprs.Coordinate.Basic
import Aprs.Position.Supplement
import Aprs.Symbol
import Aprs.Text.Latin1

namespace Aprs

/-- The form in which a position was sent. -/
inductive Form where
  /-- Written out in degrees and minutes. -/
  | uncompressed
  /-- In digits of base 91, with two more digits and their type or without. -/
  | compressed (supplement : Option (Supplement × CompressionType))
  deriving DecidableEq

/-- Where a station or a thing is, and the symbol that stands for it on a map. -/
structure Position (R : Type) where
  /-- Blank digits are read as zero, so the coordinates are those of the nearest corner to
  the equator and the prime meridian of the area that the position names. -/
  latitude : Latitude R
  longitude : Longitude R
  precision : Precision
  symbolTable : SymbolTable
  symbolCode : Char
  /-- In feet, as the comment behind the position states it. -/
  altitude : Option Nat
  form : Form
  deriving DecidableEq

namespace Position

variable {R : Type} [Arithmetic R]

/-- The number of digits that the sender left blank, if there are any. -/
def ambiguity (p : Position R) : Option Nat :=
  if p.precision.blanks = 0 then none else some p.precision.blanks

/-- The symbol of a weather station is the same in both tables. -/
def isWeatherStation (p : Position R) : Bool := p.symbolCode = '_'

/-- Whether the position was sent in digits of base 91. -/
def isCompressed (p : Position R) : Bool := p.form ≠ .uncompressed

/-- What a compressed position says in its last digits, if it says anything there. -/
def supplement? (p : Position R) : Option Supplement :=
  match p.form with
  | .compressed (some (supplement, _)) => some supplement
  | _ => none

/-- The latitudes between which the position lies, of which one is the latitude that was read. -/
def latitudeBounds (p : Position R) : R × R := p.precision.bounds p.latitude.degrees

/-- A longitude is as exact as the latitude that it was sent with. -/
def longitudeBounds (p : Position R) : R × R := p.precision.bounds p.longitude.degrees

/-- The compressed form of a position, written without a supplement. -/
def compress (p : Position R) : Bytes :=
  p.symbolTable.compressedByte :: p.latitude.toBase91 ++ p.longitude.toBase91 ++
    String.utf8EncodeChar p.symbolCode ++ Latin1.ascii " sT"

end Position

end Aprs
