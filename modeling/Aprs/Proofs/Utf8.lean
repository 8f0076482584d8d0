import Aprs.Text.Latin1
import Aprs.Text.Utf8

namespace Aprs.Utf8

deriving instance DecidableEq for Lead

/-- The first octet of a character of one octet is all of it. -/
theorem Lead.ofByte?_one : ∀ n < 128,
    Lead.ofByte? (UInt8.ofNat n) = some ⟨0, 0x80, 0xBF, n⟩ := by
  decide

theorem Lead.ofByte?_two : ∀ n < 32, 2 ≤ n →
    Lead.ofByte? (UInt8.ofNat (n + 192)) = some ⟨1, 0x80, 0xBF, n⟩ := by
  decide

theorem Lead.ofByte?_three : ∀ n < 16, Lead.ofByte? (UInt8.ofNat (n + 224)) =
    some ⟨2, if n = 0 then 0xA0 else 0x80, if n = 13 then 0x9F else 0xBF, n⟩ := by
  decide

theorem Lead.ofByte?_four : ∀ n < 5, Lead.ofByte? (UInt8.ofNat (n + 240)) =
    some ⟨3, if n = 0 then 0x90 else 0x80, if n = 4 then 0x8F else 0xBF, n⟩ := by
  decide

/-- Six more bits of a code point, in an octet between the bounds. -/
theorem readFollowing_bits {low high : UInt8} {bits : Nat} (hbits : bits < 64)
    (hlow : low.toNat ≤ bits + 128) (hhigh : bits + 128 ≤ high.toNat) (code n : Nat)
    (rest : Bytes) :
    readFollowing low high code (n + 1) (UInt8.ofNat (bits + 128) :: rest) =
      readFollowing 0x80 0xBF (64 * code + bits) n rest := by
  have hoctet : (UInt8.ofNat (bits + 128)).toNat = bits + 128 :=
    UInt8.toNat_ofNat_of_lt' (Nat.lt_trans (Nat.add_lt_add_right hbits 128) (by decide))
  have hbounds : low ≤ UInt8.ofNat (bits + 128) ∧ UInt8.ofNat (bits + 128) ≤ high := by
    rw [UInt8.le_iff_toNat_le, UInt8.le_iff_toNat_le, hoctet]
    exact ⟨hlow, hhigh⟩
  rw [readFollowing, if_pos hbounds, hoctet, Nat.add_sub_cancel]

theorem scan_cons {b : UInt8} {lead : Lead} (hlead : Lead.ofByte? b = some lead) (rest : Bytes) :
    scan (b :: rest) =
      (readFollowing lead.low lead.high lead.bits lead.following rest).1 ::
        scan (readFollowing lead.low lead.high lead.bits lead.following rest).2 := by
  rw [scan]
  split
  case h_1 hnone => cases hnone.symm.trans hlead
  case h_2 actual hactual =>
    obtain rfl := Option.some.inj (hactual.symm.trans hlead)
    rfl

/-- The octets of a character are read as that character, whatever follows them. The bounds
on a second octet let all code points pass but the overlong ones and the surrogates. -/
theorem scan_utf8EncodeChar_append (c : Char) (rest : Bytes) :
    scan (String.utf8EncodeChar c ++ rest) = some c :: scan rest := by
  have hvalid : c.toNat < 0xD800 ∨ 0xDFFF < c.toNat ∧ c.toNat < 0x110000 := c.valid
  have hread (code : Nat) (hcode : code = c.toNat) :
      readFollowing 0x80 0xBF code 0 rest = (some c, rest) := by
    rw [readFollowing, hcode, Char.ofNat_toNat]
  unfold String.utf8EncodeChar
  simp only [Char.toNat_val]
  by_cases hone : c.toNat ≤ 127
  · have hlead := Lead.ofByte?_one c.toNat (by omega)
    rw [if_pos hone, List.singleton_append, scan_cons hlead, hread _ rfl]
  rw [if_neg hone]
  by_cases htwo : c.toNat ≤ 2047
  · have hlead := Lead.ofByte?_two (c.toNat / 64 % 32) (by omega) (by omega)
    rw [if_pos htwo, List.cons_append, scan_cons hlead, List.singleton_append]
    dsimp only
    rw [readFollowing_bits (by omega) (by simp) (by simp; omega), hread _ (by omega)]
  rw [if_neg htwo]
  by_cases hthree : c.toNat ≤ 65535
  · have hlead := Lead.ofByte?_three (c.toNat / 4096 % 16) (by omega)
    rw [if_pos hthree, List.cons_append, scan_cons hlead, List.cons_append, List.singleton_append]
    dsimp only
    rw [readFollowing_bits (by omega) (by split <;> simp; omega) (by split <;> simp <;> omega),
      readFollowing_bits (by omega) (by simp) (by simp; omega), hread _ (by omega)]
  rw [if_neg hthree]
  have hlead := Lead.ofByte?_four (c.toNat / 262144 % 8) (by omega)
  rw [List.cons_append, scan_cons hlead, List.cons_append, List.cons_append,
    List.singleton_append]
  dsimp only
  rw [readFollowing_bits (by omega) (by split <;> simp; omega) (by split <;> simp <;> omega),
    readFollowing_bits (by omega) (by simp) (by simp; omega),
    readFollowing_bits (by omega) (by simp) (by simp; omega), hread _ (by omega)]

theorem encode_cons (c : Char) (text : List Char) :
    encode (c :: text) = String.utf8EncodeChar c ++ encode text := rfl

theorem scan_encode (text : List Char) : scan (encode text) = text.map some := by
  induction text with
  | nil => rw [encode, List.flatMap_nil, scan, List.map_nil]
  | cons c text ih =>
    rw [encode_cons, scan_utf8EncodeChar_append, ih, List.map_cons]

/-- Every text is read back from its octets. -/
theorem decode?_encode (text : List Char) : decode? (encode text) = some text := by
  have hsome (text : List Char) : (text.map some).mapM id = some text := by
    induction text with
    | nil => rfl
    | cons c text ih => rw [List.map_cons, List.mapM_cons, ih]; rfl
  rw [decode?, scan_encode, hsome]

/-- An octet below 0x80 stands for one character alone, and is in the octets of no other. -/
theorem mem_utf8EncodeChar_iff {b : UInt8} (hb : b < 0x80) {c : Char} :
    b ∈ String.utf8EncodeChar c ↔ c = Char.ofUInt8 b := by
  have hsmall : b.toNat < 128 := hb
  have hhigh (n : Nat) (hlow : 128 ≤ n) (hoctet : n < 256) : b ≠ UInt8.ofNat n := by
    rintro rfl
    rw [UInt8.toNat_ofNat_of_lt' hoctet] at hsmall
    omega
  have hchar : (Char.ofUInt8 b).toNat = b.toNat := rfl
  unfold String.utf8EncodeChar
  simp only [Char.toNat_val]
  by_cases hone : c.toNat ≤ 127
  · rw [if_pos hone, List.mem_singleton]
    constructor
    · rintro rfl
      exact (Latin1.ofUInt8_toUInt8 (Nat.lt_of_le_of_lt hone (by decide))).symm
    · rintro rfl
      rw [hchar, UInt8.ofNat_toNat]
  · have hne : c ≠ Char.ofUInt8 b := by
      rintro rfl
      omega
    rw [if_neg hone, iff_false_right hne]
    split
    · simp only [List.mem_cons, List.not_mem_nil, or_false, not_or]
      exact ⟨hhigh _ (by omega) (by omega), hhigh _ (by omega) (by omega)⟩
    split
    · simp only [List.mem_cons, List.not_mem_nil, or_false, not_or]
      exact ⟨hhigh _ (by omega) (by omega), hhigh _ (by omega) (by omega),
        hhigh _ (by omega) (by omega)⟩
    · simp only [List.mem_cons, List.not_mem_nil, or_false, not_or]
      exact ⟨hhigh _ (by omega) (by omega), hhigh _ (by omega) (by omega),
        hhigh _ (by omega) (by omega), hhigh _ (by omega) (by omega)⟩

theorem mem_encode_iff {b : UInt8} (hb : b < 0x80) {text : List Char} :
    b ∈ encode text ↔ Char.ofUInt8 b ∈ text := by
  unfold encode
  rw [List.mem_flatMap]
  simp only [mem_utf8EncodeChar_iff hb, exists_eq_right]

theorem encode_append (s t : List Char) : encode (s ++ t) = encode s ++ encode t :=
  List.flatMap_append

/-- An octet below 0x80 ends the octets of a text only if its character ends the text. -/
theorem getLast?_of_encode {b : UInt8} (hb : b < 0x80) {text : List Char}
    (hlast : (encode text).getLast? = some b) : text.getLast? = some (Char.ofUInt8 b) := by
  rcases List.eq_nil_or_concat text with rfl | ⟨front, c, rfl⟩
  · cases hlast
  · have hencode : encode (front ++ [c]) = encode front ++ String.utf8EncodeChar c := by
      rw [encode_append]
      exact congrArg _ (List.append_nil _)
    have hend := List.getLast?_eq_some_getLast (String.utf8EncodeChar_ne_nil (c := c))
    rw [List.concat_eq_append] at hlast ⊢
    rw [hencode, List.getLast?_append, hend, Option.some_or] at hlast
    have hmem : b ∈ String.utf8EncodeChar c := List.mem_of_getLast? (hend.trans hlast)
    rw [List.getLast?_concat, (mem_utf8EncodeChar_iff hb).1 hmem]

end Aprs.Utf8
