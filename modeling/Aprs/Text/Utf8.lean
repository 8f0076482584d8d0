import Aprs.Bytes

namespace Aprs.Utf8

/-- What a first octet announces: how many octets follow, between which bounds the next
of them lies, and the bits of the code point that the first octet holds. -/
structure Lead where
  following : Nat
  low : UInt8
  high : UInt8
  bits : Nat

/-- The well-formed first octets of the Unicode standard. The bounds on the second octet
exclude overlong forms, surrogates and everything above U+10FFFF. -/
def Lead.ofByte? (b : UInt8) : Option Lead :=
  if b ≤ 0x7F then some ⟨0, 0x80, 0xBF, b.toNat⟩
  else if 0xC2 ≤ b ∧ b ≤ 0xDF then some ⟨1, 0x80, 0xBF, b.toNat - 0xC0⟩
  else if b = 0xE0 then some ⟨2, 0xA0, 0xBF, 0⟩
  else if b = 0xED then some ⟨2, 0x80, 0x9F, 0xD⟩
  else if 0xE1 ≤ b ∧ b ≤ 0xEF then some ⟨2, 0x80, 0xBF, b.toNat - 0xE0⟩
  else if b = 0xF0 then some ⟨3, 0x90, 0xBF, 0⟩
  else if 0xF1 ≤ b ∧ b ≤ 0xF3 then some ⟨3, 0x80, 0xBF, b.toNat - 0xF0⟩
  else if b = 0xF4 then some ⟨3, 0x80, 0x8F, 4⟩
  else none

/-- Reads the octets that follow a first one. At an octet out of bounds the character is
given up, and that octet is the next to be read. -/
def readFollowing (low high : UInt8) (code : Nat) : Nat → Bytes → Option Char × Bytes
  | 0, rest => (some (Char.ofNat code), rest)
  | _ + 1, [] => (none, [])
  | n + 1, b :: rest =>
    if low ≤ b ∧ b ≤ high then readFollowing 0x80 0xBF (64 * code + (b.toNat - 0x80)) n rest
    else (none, b :: rest)

theorem length_readFollowing_le (low high : UInt8) (code n : Nat) (b : Bytes) :
    (readFollowing low high code n b).2.length ≤ b.length := by
  induction n generalizing low high code b with
  | zero => simp [readFollowing]
  | succ n ih =>
    cases b with
    | nil => simp [readFollowing]
    | cons b rest =>
      simp only [readFollowing]
      split
      · exact Nat.le_succ_of_le (ih ..)
      · exact Nat.le_refl _

/-- The characters of a text, with `none` for each longest run of octets that begins a
character and does not finish it, or that begins none. -/
def scan : Bytes → List (Option Char)
  | [] => []
  | b :: rest =>
    match Lead.ofByte? b with
    | none => none :: scan rest
    | some lead =>
      let next := readFollowing lead.low lead.high lead.bits lead.following rest
      next.1 :: scan next.2
  termination_by b => b.length
  decreasing_by
    · simp
    · exact Nat.lt_succ_of_le (length_readFollowing_le ..)

/-- The text that the octets encode, if they encode one. -/
def decode? (b : Bytes) : Option (List Char) := (scan b).mapM id

/-- The text that the octets encode, with U+FFFD for each malformed run. -/
def decodeLossy (b : Bytes) : List Char := (scan b).map (·.getD '\uFFFD')

/-- The octets of a text. -/
def encode (text : List Char) : Bytes := text.flatMap String.utf8EncodeChar

end Aprs.Utf8
