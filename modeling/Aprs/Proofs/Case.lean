import Aprs.Proofs.Callsign

namespace Aprs

/-- An octet in upper case. The octets of letters outside ASCII stay as they are. -/
def upper (b : UInt8) : UInt8 := if 0x61 ≤ b ∧ b ≤ 0x7A then b - 0x20 else b

/-- What stands before the letters has one case alone. -/
theorem upper_eq_iff {x : UInt8} (hx : x < 0x41) {b : UInt8} : upper b = x ↔ b = x := by
  unfold upper
  split
  case isTrue hletter =>
    have hraised : (b - 0x20).toNat = b.toNat - 32 :=
      UInt8.toNat_sub_of_le b 0x20 (UInt8.le_trans (by decide) hletter.1)
    rw [UInt8.lt_iff_toNat_lt] at hx
    rw [UInt8.le_iff_toNat_le] at hletter
    simp only [UInt8.reduceToNat] at hx hletter
    rw [← UInt8.toNat_inj, ← UInt8.toNat_inj, hraised]
    omega
  case isFalse => rfl

/-- The octets of characters outside ASCII are those of no letter. -/
theorem upper_of_le {b : UInt8} (hb : 0x80 ≤ b) : upper b = b := by
  unfold upper
  apply if_neg
  rintro ⟨_, hle⟩
  exact absurd (UInt8.le_trans hb hle) (by decide)

theorem mem_map_upper_iff {x : UInt8} (hx : x < 0x41) {b : Bytes} : x ∈ b.map upper ↔ x ∈ b := by
  simp only [List.mem_map, upper_eq_iff hx, exists_eq_right]

/-- A character and the octets that it is written with have the same upper case. -/
theorem Utf8.utf8EncodeChar_toUpper (c : Char) :
    String.utf8EncodeChar c.toUpper = (String.utf8EncodeChar c).map upper := by
  have hascii : ∀ n < 128, String.utf8EncodeChar (Char.ofNat n).toUpper =
      (String.utf8EncodeChar (Char.ofNat n)).map upper := by decide
  by_cases hc : c.toNat < 128
  · rw [← Char.ofNat_toNat c]
    exact hascii c.toNat hc
  · have hsame : c.toUpper = c := by
      apply dif_neg
      rintro ⟨_, hle⟩
      have hle : c.toNat ≤ 122 := hle
      omega
    have hoctets : ∀ b ∈ String.utf8EncodeChar c, upper b = id b := by
      intro b hmem
      apply upper_of_le
      apply UInt8.not_lt.1
      intro hb
      rw [(mem_utf8EncodeChar_iff hb).1 hmem] at hc
      exact hc hb
    rw [hsame, List.map_congr_left hoctets, List.map_id]

theorem Utf8.encode_map_toUpper (text : List Char) :
    encode (text.map Char.toUpper) = (encode text).map upper := by
  unfold encode
  rw [List.flatMap_map, List.map_flatMap]
  simp only [utf8EncodeChar_toUpper]

theorem Callsign.display_toUpper (c : Callsign) :
    c.toUpper.display.toList = c.display.toList.map Char.toUpper := by
  obtain ⟨call, ssid⟩ := c
  cases ssid <;> simp [display, toUpper]

/-- A station is shown in the upper case of the octets that it was read from. -/
theorem Line.encode_of_readStation {b : Bytes} {c : Callsign} (hread : readStation b = .ok c) :
    Utf8.encode c.display.toList = b.map upper := by
  obtain ⟨sent, _, rfl, rfl⟩ := readStation_eq_ok_iff.1 hread
  rw [Callsign.display_toUpper, Utf8.encode_map_toUpper]

end Aprs
