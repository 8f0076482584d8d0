import Aprs.Error
import Aprs.Text.Latin1

namespace Aprs

/-- Reads a value off the front of the octets and returns what is left of them. -/
abbrev Decoder (α : Type) := Bytes → Except DecodeError (α × Bytes)

namespace Decoder

variable {α : Type}

/-- Reads a field of `width` octets as text. If there are fewer, or if `read` refuses the
field, the error holds the octets there are. -/
def field (width : Nat) (error : Bytes → DecodeError) (read : List Char → Option α) :
    Decoder α := fun b =>
  match splitAt? width b with
  | none => .error (error b)
  | some (text, rest) =>
    match read (Latin1.decode text) with
    | none => .error (error text)
    | some value => .ok (value, rest)

/-- Decodes `rest`, the end of `whole`. Places in an error count from the start of `whole`. -/
def runOn (decode : Decoder α) (whole rest : Bytes) : Except DecodeError (α × Bytes) :=
  (decode rest).mapError (·.locate (whole.length - rest.length) whole.length)

/-- Decodes the octets of a body from a cursor on, and returns the cursor behind the value.
A cursor past the end leaves nothing to decode, and it is for the decoder to refuse that. -/
def runAt (decode : Decoder α) (body : Bytes) (cursor : Nat) : Except DecodeError (α × Nat) :=
  match decode (body.drop cursor) with
  | .error error => .error (error.locate cursor body.length)
  | .ok (value, rest) => .ok (value, body.length - rest.length)

/-- As `runAt`, for a decoder to which the end of a body is as good a place as any other:
only a cursor past the end is out of bounds. -/
def runWithin (decode : Decoder α) (body : Bytes) (cursor : Nat) : Except DecodeError (α × Nat) :=
  if cursor ≤ body.length then decode.runAt body cursor
  else .error (.cursorOutOfBounds cursor body.length)

end Decoder

end Aprs
