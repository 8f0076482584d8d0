import Aprs.Base91
import Aprs.Error

namespace Aprs

/-- Whether the position of a station is of the last fix or of an earlier one. -/
inductive GpsFix where
  | old
  | current
  deriving DecidableEq, Repr

/-- The receiver's sentence that a position was taken from. -/
inductive NmeaSource where
  | other
  | gll
  | gga
  | rmc
  deriving DecidableEq, Repr

/-- What compressed a position. -/
inductive Origin where
  | compressed
  | tncBText
  | software
  | tbd
  | kpc3
  | pico
  | other
  | digipeater
  deriving DecidableEq, Repr

/-- How a compressed position came about, as its last octet tells. -/
structure CompressionType where
  fix : GpsFix
  source : NmeaSource
  origin : Origin
  deriving DecidableEq, Repr

/-- The flags of a compression type: bit 5 for the fix, bits 3 and 4 for the source and the
lowest three for the origin. Bits above count for nothing. -/
def CompressionType.ofBits (n : Nat) : CompressionType where
  fix := if n / 32 % 2 = 1 then .current else .old
  source :=
    match n / 8 % 4 with
    | 0 => .other
    | 1 => .gll
    | 2 => .gga
    | _ => .rmc
  origin :=
    match n % 8 with
    | 0 => .compressed
    | 1 => .tncBText
    | 2 => .software
    | 3 => .tbd
    | 4 => .kpc3
    | 5 => .pico
    | 6 => .other
    | _ => .digipeater

/-- What a compressed position says in two digits of base 91, besides where a station is. -/
inductive Supplement where
  | courseSpeed (degrees : Nat) (knots : Rat)
  | radioRange (miles : Rat)
  | altitude (feet : Rat)
  deriving DecidableEq

namespace Supplement

/-- A speed grows by 8 percent with each step of its digit, beginning at zero. -/
def knots (s : Nat) : Rat := (27 / 25) ^ s - 1

/-- A range grows by 8 percent with each step of its digit, beginning at two miles. -/
def miles (s : Nat) : Rat := 2 * (27 / 25) ^ s

/-- An altitude grows by 0.2 percent with each step, beginning at one foot. -/
def feet (n : Nat) : Rat := (501 / 500) ^ n

/-- What two digits mean for a position from `source`. One from a GGA sentence has an
altitude. In others the largest first digit announces a range, and the rest are courses in
steps of four degrees. -/
def ofDigits (source : NmeaSource) (c s : Nat) : Supplement :=
  if source = .gga then altitude (feet (91 * c + s))
  else if c = 90 then radioRange (miles s)
  else courseSpeed (4 * c) (knots s)

/-- Reads the last three octets of a compressed position. A space in front says that they
mean nothing, and then the others need not be digits. -/
def ofBytes (c s t : UInt8) : Except DecodeError (Option (Supplement × CompressionType)) :=
  if c = 0x20 then .ok none else
    match Base91.digit? c, Base91.digit? s, Base91.digit? t with
    | some first, some second, some bits =>
      let type := CompressionType.ofBits bits
      .ok (some (ofDigits type.source first second, type))
    | _, _, _ => .error (.courseSpeed c s)

end Supplement

end Aprs
