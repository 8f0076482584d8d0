namespace Aprs.Quoted

/-- A character below U+0100 between single quotes, as an error shows it. What does not
print is written by its number, and the quote and the backslash behind a backslash. -/
def char (c : Char) : String :=
  let shown :=
    match c with
    | '\x00' => "\\0"
    | '\t' => "\\t"
    | '\n' => "\\n"
    | '\r' => "\\r"
    | '\x27' => "\\\x27"
    | '\\' => "\\\\"
    | c =>
      if c.toNat < 0x20 ∨ (0x7F ≤ c.toNat ∧ c.toNat ≤ 0xA0) ∨ c.toNat = 0xAD then
        "\\u\x7b" ++ String.ofList (Nat.toDigits 16 c.toNat) ++ "\x7d"
      else String.ofList [c]
  "\x27" ++ shown ++ "\x27"

/-- Octets as decimal numbers between brackets. -/
def octets (b : List UInt8) : String :=
  "[" ++ ", ".intercalate (b.map fun octet => toString octet.toNat) ++ "]"

/-- An octet as two hexadecimal digits behind `0x`. -/
def hex (b : UInt8) : String :=
  "0x" ++ String.ofList [Nat.digitChar (b.toNat / 16), Nat.digitChar (b.toNat % 16)]

end Aprs.Quoted
