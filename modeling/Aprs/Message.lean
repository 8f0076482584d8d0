import Aprs.Decoder

namespace Aprs

/-- What a message is for. The answers to a message are messages too. -/
inductive Message.Kind where
  | message
  /-- The message of the given number has arrived. -/
  | ack
  /-- The message of the given number was not accepted. -/
  | reject
  /-- To all stations that read bulletins. -/
  | bulletin
  deriving DecidableEq, Repr

/-- A text for an addressee, or the answer to one. -/
structure Message where
  addressee : Bytes
  text : Bytes
  /-- The number of this message, or of the one that it answers. -/
  id : Option Bytes
  kind : Message.Kind
  deriving DecidableEq, Repr

namespace Message

open Latin1 (ascii)

/-- An answer keeps its whole text, of which the number is the end. In other messages the
number stands behind the first opening brace. -/
def ofParts (addressee body : Bytes) : Message :=
  match (ascii "ack").isPrefixOf? body, (ascii "rej").isPrefixOf? body with
  | some id, _ => ⟨addressee, body, some id, .ack⟩
  | none, some id => ⟨addressee, body, some id, .reject⟩
  | none, none =>
    let kind := if (ascii "BLN").isPrefixOf addressee then Kind.bulletin else Kind.message
    match cut? 0x7B body with
    | none => ⟨addressee, body, none, kind⟩
    | some (text, id) => ⟨addressee, text, some id, kind⟩

/-- The addressee is filled up with spaces to nine octets and ends at a colon. A message
runs to the end of its body. -/
def decode : Decoder Message := fun b =>
  match splitAt? 9 b with
  | some (addressee, 0x3A :: body) => .ok (ofParts (trimSpaces addressee) body, [])
  | _ => .error (.addressee (b.takeWhile (· ≠ 0x3A)))

/-- The octets of a message as they stand in a body. -/
def bytes (m : Message) : Bytes :=
  let id :=
    match m.kind, m.id with
    | .message, some id => 0x7B :: id
    | .bulletin, some id => 0x7B :: id
    | _, _ => []
  padSpaces 9 m.addressee ++ 0x3A :: m.text ++ id

end Message

end Aprs
