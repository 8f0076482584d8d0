import Aprs.Extension
import Aprs.Position.Basic

namespace Aprs.Position

variable {R : Type} [Arithmetic R]

/-- A symbol code is a character that prints. Otherwise the whole block is refused. -/
def readSymbolCode (block : Bytes) (code : UInt8) : Except DecodeError Char :=
  if 0x21 ≤ code ∧ code ≤ 0x7E then .ok (Char.ofUInt8 code) else .error (.position block)

/-- Reads the nineteen octets of a position written out in degrees, as in
`4903.50N/07201.75W-`. The latitude comes before the table, and tells how much of the
longitude counts. -/
def ofText (lat : Bytes) (table : UInt8) (lon : Bytes) (code : UInt8) :
    Except DecodeError (Position R) := do
  let (latitude, precision) ← (Latitude.ofText? (Latin1.decode lat)).elim
    (.error (.latitude lat)) .ok
  let symbolTable ← SymbolTable.ofByte table
  let longitude ← (Longitude.ofText? precision (Latin1.decode lon)).elim
    (.error (.longitude lon)) .ok
  let symbolCode ← readSymbolCode (lat ++ table :: lon ++ [code]) code
  return { latitude, longitude, precision, symbolTable, symbolCode, altitude := none,
           form := .uncompressed }

/-- Reads the thirteen octets of a compressed position, as in `/5L!!<*e7>7P[`. -/
def ofBase91 (table : UInt8) (lat lon : Bytes) (code c s t : UInt8) :
    Except DecodeError (Position R) := do
  let symbolTable ← SymbolTable.ofCompressedByte table
  let latitude ← (Latitude.ofBase91? lat).elim (.error (.latitude lat)) .ok
  let longitude ← (Longitude.ofBase91? lon).elim (.error (.longitude lon)) .ok
  let symbolCode ← readSymbolCode (table :: lat ++ lon ++ [code, c, s, t]) code
  let supplement ← Supplement.ofBytes c s t
  return { latitude, longitude, precision := default, symbolTable, symbolCode, altitude := none,
           form := .compressed supplement }

/-- Reads a position written out in degrees off the front of the octets. If there are too few of
them, none of its parts is looked at. -/
def decodeUncompressed : Decoder (Position R) := fun b =>
  if h : 19 ≤ b.length then
    (ofText (b.take 8) b[8] ((b.drop 9).take 9) b[18]).map (·, b.drop 19)
  else .error (.position b)

/-- As `decodeUncompressed`, for a compressed position. -/
def decodeCompressed : Decoder (Position R) := fun b =>
  if h : 13 ≤ b.length then
    (ofBase91 b[0] ((b.drop 1).take 4) ((b.drop 5).take 4) b[9] b[10] b[11] b[12]).map
      (·, b.drop 13)
  else .error (.position b)

/-- The first octet tells the two forms of a position apart: a digit of a latitude, or the
identifier of a symbol table. -/
def decode : Decoder (Position R)
  | [] => .error (.cursorOutOfBounds 0 0)
  | first :: rest =>
    if (Char.ofUInt8 first).isDigit then decodeUncompressed (first :: rest)
    else if (SymbolTable.ofCompressedByte first).isOk then decodeCompressed (first :: rest)
    else .error (.positionFormat (first :: rest))

/-- The extension at the front of what follows a position, and what follows that. Only
positions written out in degrees have one, and octets that are none are left where they are. -/
def readExtension (p : Position R) (b : Bytes) : Option Extension × Bytes :=
  if p.isCompressed then (none, b) else
    match Extension.decode b with
    | .ok (extension, rest) => (some extension, rest)
    | .error _ => (none, b)

/-- The extension that a body has behind a position, and the cursor after it. A body without
one leaves the cursor where it is, wherever that is. -/
def extensionAt (p : Position R) (body : Bytes) (cursor : Nat) : Option Extension × Nat :=
  if p.isCompressed then (none, cursor) else
    match Extension.decode.runAt body cursor with
    | .ok (extension, stop) => (some extension, stop)
    | .error _ => (none, cursor)

/-- Reads a position and, if there is one behind it, an extension. -/
def decodeWithExtension : Decoder (Position R × Option Extension) := fun b => do
  let (position, rest) ← decode b
  let (extension, rest) := position.readExtension rest
  return ((position, extension), rest)

end Aprs.Position
