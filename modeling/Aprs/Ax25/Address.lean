import Aprs.Callsign
import Aprs.Text.Latin1

namespace Aprs.Ax25

/-- A station as an address field names it. -/
structure Address where
  call : String
  /-- Zero stands for a callsign without an SSID. -/
  ssid : Nat
  /-- No address follows this one. -/
  last : Bool
  /-- The station has repeated the frame. -/
  repeated : Bool
  deriving DecidableEq, Repr

namespace Address

/-- The callsign that a line shows for an address. It leaves out an SSID of zero. -/
def callsign (a : Address) : Callsign :=
  ⟨a.call, if a.ssid = 0 then none else some (toString a.ssid)⟩

/-- White space in the sense of Unicode, of which seven bits can hold six characters. -/
def isBlank (c : Char) : Bool := c = ' ' ∨ ('\t' ≤ c ∧ c ≤ '\r')

/-- Reads the six characters of a call, each one bit to the left of its place, without the
white space at the end. -/
def callText (b : Bytes) : List Char :=
  ((b.map fun octet : UInt8 => Char.ofUInt8 (octet >>> 1)).reverse.dropWhile isBlank).reverse

/-- Reads an address field. Besides the call it holds one octet with the repeated flag in
its highest bit, the SSID in bits 1 to 4 and the last address flag in bit 0. -/
def ofBytes (b : Bytes) : Except PacketError Address :=
  match splitAt? 6 b with
  | some (call, [flags]) =>
    if callText call = [] then .error (.emptyCallsign "")
    else .ok {
      call := String.ofList (callText call)
      ssid := (flags >>> 1 &&& 0x0F).toNat
      last := flags &&& 0x01 ≠ 0
      repeated := flags &&& 0x80 ≠ 0 }
  | _ => .error (.addressWidth b)

/-- The address field of a station whose call is at most six ASCII characters long. The two
reserved bits are set, as they are on the air. -/
def bytes (a : Address) : Bytes :=
  ((padSpaces 6 (Latin1.encode a.call.toList)).map fun octet : UInt8 => octet <<< 1) ++
    [(if a.repeated then 0x80 else 0) ||| 0x60 ||| UInt8.ofNat (2 * a.ssid) |||
      (if a.last then 0x01 else 0)]

end Address

end Aprs.Ax25
