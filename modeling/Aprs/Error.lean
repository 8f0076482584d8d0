import Aprs.Bytes
import Aprs.Text.Quoted

namespace Aprs

/-- Why no packet was built: the header is broken, or there is no body behind it. -/
inductive PacketError where
  /-- The line has no delimiter, or a part of its header names nobody. -/
  | malformed (part : Bytes)
  | emptyCallsign (text : String)
  | emptySsid (text : String)
  /-- An address field is not seven octets wide. -/
  | addressWidth (field : Bytes)
  /-- The frame ends before its header does. -/
  | truncated (frame : Bytes)
  | tooManyRepeaters (count : Nat)
  /-- The frame does not carry unnumbered information without a layer 3 protocol. -/
  | notInformation (control pid : UInt8)
  | emptyBody
  deriving DecidableEq, Repr

/-- What a user is told of a packet that was not built. Octets that were refused are quoted. -/
def PacketError.message : PacketError → String
  | .malformed part => "Invalid Packet: " ++ Quoted.octets part
  | .emptyCallsign text => "Empty Callsign: " ++ text
  | .emptySsid text => "Empty Callsign SSID: " ++ text
  | .addressWidth field => "Invalid Address Field: " ++ Quoted.octets field
  | .truncated frame => "Truncated Frame: " ++ Quoted.octets frame
  | .tooManyRepeaters count => "Too Many Digipeaters: " ++ toString count
  | .notInformation control pid =>
    "Invalid Control/PID: " ++ Quoted.hex control ++ "/" ++ Quoted.hex pid
  | .emptyBody => "Empty Payload"

/-- Why a field of a body could not be read. Each holds the octets that were refused. -/
inductive DecodeError where
  | timestamp (field : Bytes)
  /-- The octets begin neither of the two forms of a position. -/
  | positionFormat (rest : Bytes)
  | position (block : Bytes)
  | latitude (field : Bytes)
  | longitude (field : Bytes)
  | symbolTable (table : Char)
  /-- The course, speed and compression type octets hold something that is no digit. -/
  | courseSpeed (c s : UInt8)
  | extension (field : Bytes)
  | addressee (field : Bytes)
  | objectName (field : Bytes)
  | itemName (field : Bytes)
  /-- Reading was to start at `cursor`, where a body of `length` octets has nothing. -/
  | cursorOutOfBounds (cursor length : Nat)
  deriving DecidableEq, Repr

namespace DecodeError

/-- The reason that a packet gives for a fault. Octets that were refused are quoted. -/
def message : DecodeError → String
  | timestamp field => "Invalid Timestamp: " ++ Quoted.octets field
  | positionFormat rest => "Unsupported Position Format: " ++ Quoted.octets rest
  | position block => "Invalid Position: " ++ Quoted.octets block
  | latitude field => "Invalid Latitude: " ++ Quoted.octets field
  | longitude field => "Invalid Longitude: " ++ Quoted.octets field
  | symbolTable table => "Invalid Symbol Table: " ++ Quoted.char table
  | courseSpeed c s => "Invalid Compressed Course/Speed: " ++ Quoted.octets [c, s]
  | extension field => "Invalid Extension: " ++ Quoted.octets field
  | addressee field => "Invalid Message Destination: " ++ Quoted.octets field
  | objectName field => "Invalid Object Name: " ++ Quoted.octets field
  | itemName field => "Invalid Item Name: " ++ Quoted.octets field
  | cursorOutOfBounds cursor length =>
    "Cursor " ++ toString cursor ++ " is past the end of the " ++ toString length ++ " byte body"

/-- An error of a decoder that was given only the octets from `start` on, told of the
whole body. Places are the only part of an error that depends on what came before. -/
def locate (start length : Nat) : DecodeError → DecodeError
  | cursorOutOfBounds cursor _ => cursorOutOfBounds (start + cursor) length
  | error => error

end DecodeError

end Aprs
