import Aprs.Altitude
import Aprs.Position.Decode

namespace Aprs

/-- A thing that some station reports, with a position and without a time. -/
structure Item (R : Type) where
  name : Bytes
  live : Bool
  position : Position R
  extension : Option Extension
  comment : Bytes
  deriving DecidableEq

namespace Item

variable {R : Type}

/-- The octets that end a name: `!` for a live item and `_` for a killed one. -/
def endsName (b : UInt8) : Bool := b = 0x21 ∨ b = 0x5F

/-- The length of the name at the front of the octets. A name has three to nine octets, and
the first three are not looked at. -/
def nameLength? (b : Bytes) : Option Nat :=
  (((b.take 10).drop 3).findIdx? endsName).map (· + 3)

/-- All that follows the position and its extension is comment, which is left to be read. -/
def decode [Arithmetic R] : Decoder (Item R) := fun b =>
  match (nameLength? b).bind (splitAt? · b) with
  | some (name, mark :: rest) => do
    let ((position, extension), comment) ← Position.decodeWithExtension.runOn b rest
    return ({
      name
      live := mark = 0x21
      position := { position with altitude := Altitude.scan comment }
      extension
      comment }, comment)
  | _ => .error (.itemName (b.take 10))

end Item

end Aprs
