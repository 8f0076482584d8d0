import Aprs.Ax25.Address
import Aprs.Packet

namespace Aprs

namespace Ax25.Frame

/-- A frame has room for this many repeaters. -/
def maxRepeaters : Nat := 8

/-- Reads the address at the front of `rest`, the end of `frame`. -/
def readAddress (frame rest : Bytes) : Except PacketError (Address × Bytes) :=
  match splitAt? 7 rest with
  | none => .error (.truncated frame)
  | some (field, rest) => (Address.ofBytes field).map (·, rest)

/-- Reads the repeaters that follow an address, up to one that is the last. With no room
left, an address that is not the last is one too many, whether another follows it or not. -/
def readRepeaters (frame : Bytes) : (room : Nat) → (last : Bool) → Bytes →
    Except PacketError (List Address × Bytes)
  | _, true, rest => .ok ([], rest)
  | 0, false, _ => .error (.tooManyRepeaters (maxRepeaters + 1))
  | room + 1, false, rest => do
    let (repeater, rest) ← readAddress frame rest
    let (more, rest) ← readRepeaters frame room repeater.last rest
    return (repeater :: more, rest)

/-- Reads the two octets that say that a frame carries unnumbered information and that no
layer 3 protocol is in use, and returns the body behind them. -/
def readBody (frame : Bytes) : Bytes → Except PacketError Bytes
  | control :: pid :: body =>
    if control = 0x03 ∧ pid = 0xF0 then .ok body else .error (.notInformation control pid)
  | _ => .error (.truncated frame)

end Ax25.Frame

open Ax25.Frame

/-- Reads a frame without its flags and its check sequence. The destination comes first, and
it is the source that says whether repeaters follow. -/
def Packet.ofFrame {R : Type} [Arithmetic R] (frame : Bytes) : Except PacketError (Packet R) := do
  let (destination, rest) ← readAddress frame frame
  let (source, rest) ← readAddress frame rest
  let (repeaters, rest) ← readRepeaters frame maxRepeaters source.last rest
  let body ← readBody frame rest
  ofBody source.callsign destination.callsign
    (repeaters.map fun a => .station a.callsign a.repeated) body

end Aprs
