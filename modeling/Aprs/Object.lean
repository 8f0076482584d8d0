import Aprs.Altitude
import Aprs.Position.Decode
import Aprs.Timestamp

namespace Aprs

/-- A thing that some station reports, with a time and a position. -/
structure Object (R : Type) where
  name : Bytes
  live : Bool
  timestamp : Option Timestamp
  position : Option (Position R)
  extension : Option Extension
  comment : Bytes
  /-- Why there is nothing in the fields above, if there is nothing. -/
  fault : Option String
  deriving DecidableEq

namespace Object

variable {R : Type}

/-- What stands for an object whose report is too short to hold one. -/
def placeholder (reason : String) : Object R where
  name := Latin1.ascii "null"
  live := false
  timestamp := none
  position := none
  extension := none
  comment := []
  fault := some reason

/-- Whether the object is a placeholder. -/
def isFaulted (o : Object R) : Bool := o.fault.isSome

/-- The name is filled up with spaces to nine octets, and an object is live if a `*` comes
next. All that follows the position and its extension is comment, which is left to be read. -/
def decode [Arithmetic R] : Decoder (Object R) := fun b =>
  match splitAt? 9 b with
  | none => .error (.objectName b)
  | some (name, []) => .error (.objectName name)
  | some (name, mark :: rest) => do
    let (timestamp, rest) ← Timestamp.decode rest
    let ((position, extension), comment) ← Position.decodeWithExtension.runOn b rest
    return ({
      name := trimSpaces name
      live := mark = 0x2A
      timestamp := some timestamp
      position := some { position with altitude := Altitude.scan comment }
      extension
      comment
      fault := none }, comment)

end Object

end Aprs
