import Aprs.Bytes

namespace Aprs.Latin1

/-- Every octet read as the character of the same number. All octets have one, so the
fields of a body can be matched as text before it is known that they hold text. -/
def decode (b : Bytes) : List Char := b.map Char.ofUInt8

/-- The octets of characters below U+0100. -/
def encode (text : List Char) : Bytes := text.map Char.toUInt8

/-- The octets of a text in ASCII. -/
def ascii (text : String) : Bytes := encode text.toList

@[simp] theorem toUInt8_ofUInt8 (b : UInt8) : (Char.ofUInt8 b).toUInt8 = b := by
  change b.toUInt32.toUInt8 = b
  simp

theorem ofUInt8_toUInt8 {c : Char} (hc : c.toNat < 256) : Char.ofUInt8 c.toUInt8 = c := by
  apply Char.ext
  apply UInt32.toNat_inj.1
  have h : c.val.toNat < 256 := hc
  change c.val.toUInt8.toUInt32.toNat = c.val.toNat
  rw [UInt8.toNat_toUInt32, UInt32.toNat_toUInt8, Nat.mod_eq_of_lt h]

@[simp] theorem encode_decode (b : Bytes) : encode (decode b) = b := by
  simp [encode, decode, Function.comp_def]

theorem decode_encode {text : List Char} (htext : ∀ c ∈ text, c.toNat < 256) :
    decode (encode text) = text := by
  unfold decode encode
  rw [List.map_map]
  exact (List.map_congr_left fun c hc => ofUInt8_toUInt8 (htext c hc)).trans (List.map_id text)

theorem toNat_lt_of_mem_decode {b : Bytes} {c : Char} (hc : c ∈ decode b) : c.toNat < 256 := by
  obtain ⟨x, _, rfl⟩ := List.mem_map.1 hc
  exact x.toNat_lt

theorem toNat_lt_of_isDigit {c : Char} (hc : c.isDigit) : c.toNat < 256 :=
  Nat.lt_of_le_of_lt (Char.isDigit_iff_toNat.1 hc).2 (by decide)

/-- Reading octets as characters loses nothing. -/
theorem decode_injective {a b : Bytes} (h : decode a = decode b) : a = b := by
  rw [← encode_decode a, h, encode_decode]

@[simp] theorem length_decode (b : Bytes) : (decode b).length = b.length := by
  simp [decode]

end Aprs.Latin1
