import Aprs.Callsign
import Aprs.Text.Latin1

namespace Aprs

/-- How a packet came to the internet. The constructs stand in the path of a line and are
never sent over the air. -/
inductive QConstruct where
  | qAC | qAX | qAU | qAo | qAO | qAS | qAr | qAR | qAZ | qAI
  deriving DecidableEq, Repr

namespace QConstruct

/-- The three letters of a construct. Some constructs differ only in the case of the last one. -/
def text : QConstruct → String
  | qAC => "qAC"
  | qAX => "qAX"
  | qAU => "qAU"
  | qAo => "qAo"
  | qAO => "qAO"
  | qAS => "qAS"
  | qAr => "qAr"
  | qAR => "qAR"
  | qAZ => "qAZ"
  | qAI => "qAI"

/-- The q construct that the octets are, letter case included. -/
def ofBytes? (b : Bytes) : Option QConstruct :=
  match Latin1.decode b with
  | ['q', 'A', 'C'] => some qAC
  | ['q', 'A', 'X'] => some qAX
  | ['q', 'A', 'U'] => some qAU
  | ['q', 'A', 'o'] => some qAo
  | ['q', 'A', 'O'] => some qAO
  | ['q', 'A', 'S'] => some qAS
  | ['q', 'A', 'r'] => some qAr
  | ['q', 'A', 'R'] => some qAR
  | ['q', 'A', 'Z'] => some qAZ
  | ['q', 'A', 'I'] => some qAI
  | _ => none

end QConstruct

/-- One entry of the path that a packet is to take, or has taken. -/
inductive PathEntry where
  /-- A digipeater, and whether it has repeated the packet. -/
  | station (callsign : Callsign) (repeated : Bool)
  | qConstruct (q : QConstruct)
  deriving DecidableEq, Repr

namespace PathEntry

/-- Whether an entry says that its station has repeated the packet. A q construct never does. -/
def isRepeated : PathEntry → Bool
  | station _ repeated => repeated
  | qConstruct _ => false

/-- The text of an entry as it stands in a line. -/
def text : PathEntry → String
  | station callsign repeated => callsign.display ++ if repeated then "*" else ""
  | qConstruct q => q.text

/-- The octets of an entry as they stand in a line. -/
def bytes (e : PathEntry) : Bytes := Utf8.encode e.text.toList

/-- A q construct is recognized before a callsign, so a station can have one of their names
only if it is marked as repeated. -/
def ofBytes? (b : Bytes) : Option PathEntry :=
  match QConstruct.ofBytes? b with
  | some q => some (qConstruct q)
  | none => (Callsign.ofPathText? b).map fun (c, repeated) => station c repeated

/-- An entry that must be one: what is none is the malformed part of its packet. -/
def ofBytes (b : Bytes) : Except PacketError PathEntry :=
  match ofBytes? b with
  | none => .error (.malformed b)
  | some e => .ok e

end PathEntry

namespace Path

/-- The entries of a path, divided by commas. No octets are a path without entries, and
the first entry that is none decides the error. -/
def ofBytes (b : Bytes) : Except PacketError (List PathEntry) :=
  if b = [] then .ok [] else (b.splitOn 0x2C).mapM PathEntry.ofBytes

/-- The octets of a path. -/
def bytes (path : List PathEntry) : Bytes := [0x2C].intercalate (path.map PathEntry.bytes)

end Path

end Aprs
