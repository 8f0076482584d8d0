import Aprs.Packet

namespace Aprs

namespace Line

/-- Reads a station at one of the two ends of a packet. They are known in upper case. -/
def readStation (b : Bytes) : Except PacketError Callsign :=
  match Utf8.decode? b with
  | none => .error (.malformed b)
  | some text => (Callsign.parse (String.ofList text)).map Callsign.toUpper

/-- The octets of a line, as in `N0CALL-9>APRS,WIDE1-1*,qAR,DL4MEA:>status`. There is no
comma behind the destination if the path has no entries. -/
def bytes (source destination : Callsign) (path : List PathEntry) (body : Bytes) : Bytes :=
  Utf8.encode source.display.toList ++ 0x3E :: Utf8.encode destination.display.toList ++
    path.flatMap (fun entry => 0x2C :: entry.bytes) ++ 0x3A :: body

end Line

namespace Packet

variable {R : Type} [Arithmetic R]

/-- Reads a line. Each of its parts ends at the first delimiter behind it, so a body can hold
them all, and so can what stands before a delimiter of another kind. -/
def ofLine (line : Bytes) : Except PacketError (Packet R) :=
  match cut? 0x3E line with
  | none => .error (.malformed line)
  | some (source, rest) =>
    match cut? 0x3A rest with
    | none => .error (.malformed line)
    | some (header, body) => do
      let (destination, path) := (cut? 0x2C header).getD (header, [])
      let source ← Line.readStation source
      let destination ← Line.readStation destination
      let path ← Path.ofBytes path
      let packet ← ofBody source destination path body
      return { packet with line := some (String.ofList (Utf8.decodeLossy line)) }

/-- Reads a line that was received as text, by its octets in UTF-8. -/
def ofText (text : String) : Except PacketError (Packet R) := ofLine (Utf8.encode text.toList)

end Packet

end Aprs
