import Aprs.Decimal.Digits
import Aprs.Decoder

namespace Aprs

/-- A time as it is sent. There is no year, and only the longest form has a month. The same
six digits mean different things in different forms, so the form is kept. -/
inductive Timestamp where
  /-- Day of the month, hour and minute in UTC. -/
  | zulu (day hour minute : Nat)
  /-- Hour, minute and second in UTC. -/
  | clock (hour minute second : Nat)
  /-- Day of the month, hour and minute where the sender is. -/
  | localTime (day hour minute : Nat)
  /-- Month, day of the month, hour and minute in UTC, in weather reports without a position. -/
  | monthly (month day hour minute : Nat)
  deriving DecidableEq, Repr

namespace Timestamp

/-- At least two digits for each number, and a letter or a slash for the form. -/
def text : Timestamp → List Char
  | zulu day hour minute => pair day ++ pair hour ++ pair minute ++ ['z']
  | clock hour minute second => pair hour ++ pair minute ++ pair second ++ ['h']
  | localTime day hour minute => pair day ++ pair hour ++ pair minute ++ ['/']
  | monthly month day hour minute => pair month ++ pair day ++ pair hour ++ pair minute
where
  /-- The digits of one number. No number that was read off a body has more than two. -/
  pair (n : Nat) : List Char := Decimal.zeroFilled 2 n

/-- Reads one of the forms with a mark at the end. The numbers can be any two digits. -/
def ofText? : List Char → Option Timestamp
  | [a, b, c, d, e, f, mark] => do
    let first ← Decimal.ofText? [a, b]
    let second ← Decimal.ofText? [c, d]
    let third ← Decimal.ofText? [e, f]
    match mark with
    | 'z' => some (zulu first second third)
    | 'h' => some (clock first second third)
    | '/' => some (localTime first second third)
    | _ => none
  | _ => none

/-- Reads the form of eight digits. -/
def ofMonthlyText? : List Char → Option Timestamp
  | [a, b, c, d, e, f, g, h] => do
    let month ← Decimal.ofText? [a, b]
    let day ← Decimal.ofText? [c, d]
    let hour ← Decimal.ofText? [e, f]
    let minute ← Decimal.ofText? [g, h]
    some (monthly month day hour minute)
  | _ => none

/-- Reads a time of seven characters off the front of the octets. -/
def decode : Decoder Timestamp := Decoder.field 7 .timestamp ofText?

/-- Reads a time of eight digits off the front of the octets. -/
def decodeMonthly : Decoder Timestamp := Decoder.field 8 .timestamp ofMonthlyText?

end Timestamp

end Aprs
