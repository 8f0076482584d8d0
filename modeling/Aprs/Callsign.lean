import Aprs.Error
import Aprs.Text.Utf8

namespace Aprs

/-- The name of a station. One operator's stations differ in the SSID. -/
structure Callsign where
  call : String
  ssid : Option String
  deriving DecidableEq, Repr

namespace Callsign

/-- Splits a text at its first dash. The call may not be empty, and neither may an SSID
whose dash is there. Which characters they hold is not checked. -/
def parse (text : String) : Except PacketError Callsign :=
  match cut? '-' text.toList with
  | none => if text = "" then .error (.emptyCallsign text) else .ok ⟨text, none⟩
  | some ([], _) => .error (.emptyCallsign text)
  | some (_, []) => .error (.emptySsid text)
  | some (call, ssid) => .ok ⟨String.ofList call, some (String.ofList ssid)⟩

/-- The text of a callsign, with a dash in front of an SSID. -/
def display (c : Callsign) : String :=
  match c.ssid with
  | none => c.call
  | some ssid => c.call ++ "-" ++ ssid

/-- A callsign in upper case. Letters outside ASCII stay as they are. -/
def toUpper (c : Callsign) : Callsign :=
  ⟨c.call.map Char.toUpper, c.ssid.map (String.map Char.toUpper)⟩

/-- Reads a callsign off the path of a line, where a `*` at the end says that the station
has repeated the packet. The mark is no part of the callsign, and one is taken off. -/
def ofPathText? (b : Bytes) : Option (Callsign × Bool) := do
  let repeated : Bool := b.getLast? = some 0x2A
  let text ← Utf8.decode? (if repeated then b.dropLast else b)
  match parse (String.ofList text) with
  | .ok c => some (c, repeated)
  | .error _ => none

end Callsign

end Aprs
