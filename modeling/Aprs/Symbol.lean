import Aprs.Error

namespace Aprs

/-- The table in which a symbol code is looked up. -/
inductive SymbolTable where
  | primary
  | alternate
  /-- The alternate table, with a digit or a capital letter drawn over the symbol. -/
  | overlay (c : Char)
  deriving DecidableEq, Repr

namespace SymbolTable

/-- The identifier of a table in a position written out in degrees. -/
def ofByte (b : UInt8) : Except DecodeError SymbolTable :=
  match Char.ofUInt8 b with
  | '/' => .ok primary
  | '\\' => .ok alternate
  | c => if c.isDigit || c.isUpper then .ok (overlay c) else .error (.symbolTable c)

/-- The identifier of a table in a compressed position. Digits are sent as `a` to `j`, so
that none of them is taken for the first digit of a latitude. -/
def ofCompressedByte (b : UInt8) : Except DecodeError SymbolTable :=
  match Char.ofUInt8 b with
  | '/' => .ok primary
  | '\\' => .ok alternate
  | c =>
    if c.isUpper then .ok (overlay c)
    else if 'a' ≤ c ∧ c ≤ 'j' then .ok (overlay (Char.ofNat (c.toNat - 'a'.toNat + '0'.toNat)))
    else .error (.symbolTable c)

/-- The character of a table in a position written out in degrees. -/
def toChar : SymbolTable → Char
  | primary => '/'
  | alternate => '\\'
  | overlay c => c

/-- The octet that a compressed position begins with. -/
def compressedByte (table : SymbolTable) : UInt8 :=
  let c := table.toChar
  if c.isDigit then UInt8.ofNat (c.toNat - '0'.toNat + 'a'.toNat) else c.toUInt8

end SymbolTable

end Aprs
