import Aprs.Body
import Aprs.Path

namespace Aprs

/-- A packet: the stations of its header, its body, and what was read from the body. -/
structure Packet (R : Type) where
  source : Callsign
  destination : Callsign
  path : List PathEntry
  dataType : DataType
  /-- The body with its data type and the terminator of its line. -/
  body : Bytes
  /-- The line that the packet was read from, if it was a line. -/
  line : Option String
  information : Information R
  /-- Why decoding the body stopped early, if it did. -/
  fault : Option String
  deriving DecidableEq

namespace Packet

variable {R : Type}

/-- Whether the body, or the end of it, could not be decoded. -/
def isFaulted (p : Packet R) : Bool := p.fault.isSome

/-- The packet of a body. Only an empty body makes none: content that cannot be decoded
leaves a fault behind. -/
def ofBody [Arithmetic R] (source destination : Callsign) (path : List PathEntry) (body : Bytes) :
    Except PacketError (Packet R) :=
  match body with
  | [] => .error .emptyBody
  | first :: _ =>
    let dataType := DataType.ofByte first
    let (information, fault) := Body.read dataType (stripTerminator body)
    .ok { source, destination, path, dataType, body, line := none, information, fault }

end Packet

end Aprs
