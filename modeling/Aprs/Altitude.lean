import Aprs.Decimal.Digits
import Aprs.Decoder

namespace Aprs.Altitude

/-- The numbers of all `/A=` tokens with six digits, from left to right. -/
def tokens : List Char → List Nat
  | '/' :: 'A' :: '=' :: a :: b :: c :: d :: e :: f :: rest =>
    match Decimal.ofText? [a, b, c, d, e, f] with
    | some feet => feet :: tokens rest
    | none => tokens ('A' :: '=' :: a :: b :: c :: d :: e :: f :: rest)
  | _ :: rest => tokens rest
  | [] => []

/-- The altitude that a comment states, in feet. Of several tokens the last one counts. -/
def scan (comment : Bytes) : Option Nat := (tokens (Latin1.decode comment)).getLast?

/-- An altitude stays a part of its comment, so nothing is read off. -/
def decode : Decoder (Option Nat) := fun b => .ok (scan b, b)

/-- Looks for an altitude from a cursor on, which may stand at the end of the body. -/
def decodeAt (body : Bytes) (cursor : Nat) : Except DecodeError (Option Nat × Nat) :=
  decode.runWithin body cursor

end Aprs.Altitude
