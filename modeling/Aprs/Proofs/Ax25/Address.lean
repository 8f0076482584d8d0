import Aprs.Proofs.Ax25.Field
import Aprs.Proofs.Bytes
import Mathlib.Data.Nat.Bitwise

namespace Aprs.Ax25.Address

/-- White space in seven bits, character by character. -/
def whiteSpace : List Char := ['\t', '\n', '\x0b', '\x0c', '\r', ' ']

theorem isBlank_iff {c : Char} : isBlank c ↔ c ∈ whiteSpace := by
  constructor
  · intro hblank
    rcases of_decide_eq_true hblank with rfl | ⟨hlow, hhigh⟩
    · decide
    · have hlow : 9 ≤ c.toNat := hlow
      have hhigh : c.toNat ≤ 13 := hhigh
      rw [← Char.ofNat_toNat c]
      generalize c.toNat = n at hlow hhigh
      obtain rfl | rfl | rfl | rfl | rfl : n = 9 ∨ n = 10 ∨ n = 11 ∨ n = 12 ∨ n = 13 := by omega
      all_goals decide
  · intro hmem
    simp only [whiteSpace, List.mem_cons, List.not_mem_nil, or_false] at hmem
    rcases hmem with rfl | rfl | rfl | rfl | rfl | rfl <;> rfl

/-- The characters of a call. Each of its octets holds one of seven bits, above a bit that is not
a part of it. -/
def characters (call : Bytes) : List Char := call.map fun octet => Char.ofNat (octet.toNat / 2)

theorem ofUInt8_shiftRight (octet : UInt8) :
    Char.ofUInt8 (octet >>> 1) = Char.ofNat (octet.toNat / 2) := by
  have hvalue : (Char.ofUInt8 (octet >>> 1)).toNat = octet.toNat / 2 := by
    change (octet >>> 1).toUInt32.toNat = octet.toNat / 2
    rw [UInt8.toNat_toUInt32, UInt8.toNat_shiftRight, Nat.shiftRight_eq_div_pow]
    rfl
  rw [← hvalue, Char.ofNat_toNat]

theorem map_ofUInt8_shiftRight (call : Bytes) :
    call.map (fun octet : UInt8 => Char.ofUInt8 (octet >>> 1)) = characters call :=
  List.map_congr_left fun octet _ => ofUInt8_shiftRight octet

theorem forall_isBlank_iff {call : Bytes} :
    (∀ octet ∈ call, isBlank (Char.ofUInt8 (octet >>> 1))) ↔ ∀ c ∈ characters call, c ∈ whiteSpace := by
  rw [← map_ofUInt8_shiftRight, List.forall_mem_map]
  exact forall₂_congr fun _ _ => isBlank_iff

/-- The text of a call stands in front of the white space at the end of its characters. -/
theorem callText_append_blanks (call : Bytes) :
    (∃ blanks, characters call = callText call ++ blanks ∧ ∀ c ∈ blanks, c ∈ whiteSpace) ∧
      ∀ c, (callText call).getLast? = some c → c ∉ whiteSpace := by
  have htext : callText call = (characters call).rdropWhile isBlank := by
    rw [← map_ofUInt8_shiftRight]
    rfl
  rw [htext]
  refine ⟨⟨(characters call).rtakeWhile isBlank, List.rdropWhile_append_rtakeWhile.symm, ?_⟩, ?_⟩
  · intro c hc
    exact isBlank_iff.1 (List.mem_rtakeWhile_imp hc)
  · intro c hlast hblank
    obtain ⟨hne, rfl⟩ := List.mem_getLast?_eq_getLast hlast
    exact List.rdropWhile_last_not _ _ hne (isBlank_iff.2 hblank)

theorem toNat_ssid (flags : UInt8) : (flags >>> 1 &&& 0x0F).toNat = flags.toNat / 2 % 16 := by
  rw [UInt8.toNat_and, UInt8.toNat_shiftRight, Nat.shiftRight_eq_div_pow]
  exact Nat.and_two_pow_sub_one_eq_mod _ 4

/-- A mask of one bit tells whether that bit is set. -/
theorem and_ne_zero_iff {flags mask : UInt8} {bit : Nat} (hmask : mask.toNat = 2 ^ bit) :
    flags &&& mask ≠ 0 ↔ flags.toNat.testBit bit = true := by
  have hzero : (0 : UInt8).toNat = 0 := rfl
  rw [Ne, ← UInt8.toNat_inj, UInt8.toNat_and, hmask, hzero, Nat.and_two_pow]
  cases flags.toNat.testBit bit <;> simp

/-- What a field tells of a station, each part by the places of its bits. -/
structure Tells (call : Bytes) (flags : UInt8) (station : Callsign) (last repeated : Bool) :
    Prop where
  /-- The call is there but for white space at its end. -/
  call : ∃ blanks, characters call = station.call.toList ++ blanks ∧ ∀ c ∈ blanks, c ∈ whiteSpace
  trimmed : ∀ c, station.call.toList.getLast? = some c → c ∉ whiteSpace
  ssid : station.ssid =
    if flags.toNat / 2 % 16 = 0 then none else some (toString (flags.toNat / 2 % 16))
  last : last = flags.toNat.testBit 0
  repeated : repeated = flags.toNat.testBit 7

theorem tells (f : Field) :
    Tells f.call f.flags f.callsign f.address.last f.address.repeated := by
  obtain ⟨hcall, htrimmed⟩ := callText_append_blanks f.call
  have htext : f.callsign.call.toList = callText f.call := String.toList_ofList
  constructor
  case call => rwa [htext]
  case trimmed => rwa [htext]
  case ssid => rw [← toNat_ssid]; rfl
  case last => exact Bool.eq_iff_iff.2 (decide_eq_true_iff.trans (and_ne_zero_iff rfl))
  case repeated => exact Bool.eq_iff_iff.2 (decide_eq_true_iff.trans (and_ne_zero_iff rfl))

theorem ofBytes_of_length_ne {b : Bytes} (hlength : b.length ≠ 7) :
    ofBytes b = .error (.addressWidth b) := by
  unfold ofBytes
  split
  case h_1 call flags hsplit =>
    obtain ⟨rfl, hcall⟩ := splitAt?_eq_some_iff.1 hsplit
    rw [List.length_append, List.length_singleton, hcall] at hlength
    exact absurd rfl hlength
  case h_2 => rfl

/-- What becomes of octets that are read as an address field. -/
inductive FieldRead : Bytes → Except PacketError Address → Prop where
  | width {b : Bytes} (hlength : b.length ≠ 7) : FieldRead b (.error (.addressWidth b))
  | blank {call : Bytes} {flags : UInt8} (hcall : call.length = 6)
      (hblank : ∀ c ∈ characters call, c ∈ whiteSpace) :
      FieldRead (call ++ [flags]) (.error (.emptyCallsign ""))
  | station (f : Field) : FieldRead f.bytes (.ok f.address)

theorem ofBytes_reads (b : Bytes) : FieldRead b (ofBytes b) := by
  by_cases hlength : b.length = 7
  case neg =>
    rw [ofBytes_of_length_ne hlength]
    exact .width hlength
  obtain ⟨call, flags, rfl, hcall⟩ := exists_call_flags hlength
  rcases field_or_blank hcall flags with ⟨f, hf⟩ | ⟨hblank, herror⟩
  · rw [← hf, ofBytes_bytes]
    exact .station f
  · rw [herror]
    exact .blank hcall (forall_isBlank_iff.1 hblank)

theorem ofBytes_eq_addressWidth_iff {b : Bytes} :
    ofBytes b = .error (.addressWidth b) ↔ b.length ≠ 7 := by
  refine ⟨fun hrefused => ?_, ofBytes_of_length_ne⟩
  have hread := ofBytes_reads b
  rw [hrefused] at hread
  cases hread with
  | width hlength => exact hlength

theorem ofBytes_eq_emptyCallsign_iff {b : Bytes} :
    ofBytes b = .error (.emptyCallsign "") ↔
      ∃ call flags, b = call ++ [flags] ∧ call.length = 6 ∧ ∀ c ∈ characters call, c ∈ whiteSpace := by
  constructor
  · intro hrefused
    have hread := ofBytes_reads b
    rw [hrefused] at hread
    cases hread with
    | blank hcall hblank => exact ⟨_, _, rfl, hcall, hblank⟩
  · rintro ⟨call, flags, rfl, hcall, hblank⟩
    exact ofBytes_of_blank hcall flags (forall_isBlank_iff.2 hblank)

theorem exists_ofBytes_of_named {call : Bytes} (hcall : call.length = 6) (flags : UInt8)
    (hnamed : ∃ c ∈ characters call, c ∉ whiteSpace) :
    ∃ a, ofBytes (call ++ [flags]) = .ok a ∧ Tells call flags a.callsign a.last a.repeated := by
  have hoctet : ∃ octet ∈ call, ¬ isBlank (Char.ofUInt8 (octet >>> 1)) := by
    obtain ⟨c, hc, hblank⟩ := hnamed
    obtain ⟨octet, hmem, rfl⟩ := List.mem_map.1 hc
    refine ⟨octet, hmem, fun hoctet => hblank ?_⟩
    rwa [ofUInt8_shiftRight, isBlank_iff] at hoctet
  let f : Field := ⟨call, flags, hcall, hoctet⟩
  exact ⟨f.address, ofBytes_bytes f, tells f⟩

/-- The bits of a field that are read: all but bit 0 of each octet of the call, and all but bits
5 and 6 of the flags. -/
def mask : Bytes := [0xFE, 0xFE, 0xFE, 0xFE, 0xFE, 0xFE, 0x9F]

/-- A field whose other bits are cleared. -/
def significant (b : Bytes) : Bytes := b.zipWith (· &&& ·) mask

theorem significant_append {call : Bytes} (hcall : call.length = 6) (flags : UInt8) :
    significant (call ++ [flags]) = call.map (· &&& 0xFE) ++ [flags &&& 0x9F] :=
  match call, hcall with
  | [_, _, _, _, _, _], _ => rfl

theorem and_shiftRight (octet : UInt8) : (octet &&& 0xFE) >>> 1 = octet >>> 1 := by
  have hshift : (octet >>> 1).toNat < 128 := by
    have hoctet := octet.toNat_lt
    rw [UInt8.toNat_shiftRight, Nat.shiftRight_eq_div_pow]
    change octet.toNat / 2 < 128
    omega
  rw [UInt8.shiftRight_and, ← UInt8.toNat_inj, UInt8.toNat_and]
  exact (Nat.and_two_pow_sub_one_eq_mod _ 7).trans (Nat.mod_eq_of_lt hshift)

theorem callText_map_and (call : Bytes) : callText (call.map (· &&& 0xFE)) = callText call := by
  unfold callText
  rw [List.map_map]
  simp only [Function.comp_def, and_shiftRight]

/-- An address field is read the same if the bits that count for nothing are cleared. -/
theorem ofBytes_significant {b : Bytes} (hlength : b.length = 7) :
    ofBytes (significant b) = ofBytes b := by
  obtain ⟨call, flags, rfl, hcall⟩ := exists_call_flags hlength
  have hsplit : splitAt? 6 (call ++ [flags]) = some (call, [flags]) :=
    splitAt?_eq_some_iff.2 ⟨rfl, hcall⟩
  have hmasked : splitAt? 6 (significant (call ++ [flags])) =
      some (call.map (· &&& 0xFE), [flags &&& 0x9F]) :=
    splitAt?_eq_some_iff.2 ⟨significant_append hcall flags, by rw [List.length_map, hcall]⟩
  have hssid : ((flags &&& 0x9F) >>> 1 &&& 0x0F).toNat = (flags >>> 1 &&& 0x0F).toNat := by
    rw [UInt8.shiftRight_and, UInt8.and_assoc]
    rfl
  have hlast : flags &&& 0x9F &&& 0x01 = flags &&& 0x01 := by
    rw [UInt8.and_assoc]
    rfl
  have hrepeated : flags &&& 0x9F &&& 0x80 = flags &&& 0x80 := by
    rw [UInt8.and_assoc]
    rfl
  unfold ofBytes
  rw [hsplit, hmasked]
  simp only [callText_map_and, hssid, hlast, hrepeated]

/-- The addresses that a field has room for. A call that ends in white space would lose it. -/
structure IsSendable (a : Address) : Prop where
  call_ne : a.call ≠ ""
  length_call : a.call.toList.length ≤ 6
  ascii : ∀ c ∈ a.call.toList, c.toNat < 128
  trimmed : ∀ c, a.call.toList.getLast? = some c → c ∉ whiteSpace
  ssid_lt : a.ssid < 16

theorem flags_bits (ssid : Fin 16) (last repeated : Bool) :
    let flags : UInt8 := (if repeated then 0x80 else 0) ||| 0x60 ||| UInt8.ofNat (2 * ssid) |||
      (if last then 0x01 else 0)
    (flags >>> 1 &&& 0x0F).toNat = ssid ∧ decide (flags &&& 0x01 ≠ 0) = last ∧
      decide (flags &&& 0x80 ≠ 0) = repeated := by
  -- There are 64 such octets, and each of them is looked at.
  revert ssid last repeated
  decide +kernel

namespace IsSendable

variable {a : Address}

theorem length_encode (hsendable : a.IsSendable) : (Latin1.encode a.call.toList).length ≤ 6 := by
  rw [Latin1.encode, List.length_map]
  exact hsendable.length_call

theorem length_bytes (hsendable : a.IsSendable) : a.bytes.length = 7 := by
  rw [bytes, List.length_append, List.length_map, length_padSpaces hsendable.length_encode]
  rfl

/-- An address is read back from its field. -/
theorem ofBytes_bytes (hsendable : a.IsSendable) : ofBytes a.bytes = .ok a := by
  have hcall := length_padSpaces hsendable.length_encode
  have htext := callText_padSpaces hsendable.ascii
    (fun c hc hblank => hsendable.trimmed c hc (isBlank_iff.1 hblank)) 6
  have hempty : a.call.toList ≠ [] := fun hnil => hsendable.call_ne (String.toList_eq_nil_iff.1 hnil)
  obtain ⟨hssid, hlast, hrepeated⟩ := flags_bits ⟨a.ssid, hsendable.ssid_lt⟩ a.last a.repeated
  have hsplit : splitAt? 6 a.bytes = some (_, [_]) :=
    splitAt?_eq_some_iff.2 ⟨rfl, by rw [List.length_map, hcall]⟩
  unfold ofBytes
  rw [hsplit]
  simp only [htext, if_neg hempty, hssid, hlast, hrepeated, String.ofList_toList]

end IsSendable

/-- What is read off a field, bit by bit. Seven octets name a station unless all the characters of
their call are white space, and an address is read back from its field, whatever the bits are that
nobody reads. -/
theorem ofBytes_readsBits :
    (∀ b, ofBytes b = .error (.addressWidth b) ↔ b.length ≠ 7) ∧
    (∀ b, ofBytes b = .error (.emptyCallsign "") ↔ ∃ call flags,
      b = call ++ [flags] ∧ call.length = 6 ∧ ∀ c ∈ characters call, c ∈ whiteSpace) ∧
    (∀ call flags, call.length = 6 → (∃ c ∈ characters call, c ∉ whiteSpace) →
      ∃ a, ofBytes (call ++ [flags]) = .ok a ∧ Tells call flags a.callsign a.last a.repeated) ∧
    (∀ b b', b.length = 7 → b'.length = 7 → significant b = significant b' →
      ofBytes b = ofBytes b') ∧
    ∀ a : Address, a.IsSendable → a.bytes.length = 7 ∧
      ∀ b, b.length = 7 → significant b = significant a.bytes → ofBytes b = .ok a := by
  have halike : ∀ b b', b.length = 7 → b'.length = 7 → significant b = significant b' →
      ofBytes b = ofBytes b' := by
    intro b b' hb hb' hsignificant
    rw [← ofBytes_significant hb, hsignificant, ofBytes_significant hb']
  refine ⟨fun _ => ofBytes_eq_addressWidth_iff, fun _ => ofBytes_eq_emptyCallsign_iff,
    fun _ flags hcall hnamed => exists_ofBytes_of_named hcall flags hnamed, halike, ?_⟩
  intro a hsendable
  refine ⟨hsendable.length_bytes, fun b hb hsignificant => ?_⟩
  rw [halike b a.bytes hb hsendable.length_bytes hsignificant, hsendable.ofBytes_bytes]

/-- A blank inside a call is a part of it, and a tabulator behind it is none. -/
theorem ofBytes_readsBits_blanks :
    (∃ a, ofBytes [0x82, 0x40, 0x84, 0x12, 0x40, 0x40, 0xF7] = .ok a ∧
      Tells [0x82, 0x40, 0x84, 0x12, 0x40, 0x40] 0xF7 a.callsign a.last a.repeated) ∧
    ofBytes [0x82, 0x40, 0x84, 0x12, 0x40, 0x40, 0xF7] =
      ofBytes [0x83, 0x41, 0x85, 0x13, 0x41, 0x41, 0x97] ∧
    ofBytes [0x83, 0x41, 0x85, 0x41, 0x41, 0x41, 0x97] = .ok ⟨"A B", 11, true, true⟩ := by
  obtain ⟨_, _, hnamed, halike, hsent⟩ := ofBytes_readsBits
  have hsendable : IsSendable ⟨"A B", 11, true, true⟩ :=
    ⟨by decide, by decide, by simp, by simp [whiteSpace], by decide⟩
  refine ⟨hnamed [0x82, 0x40, 0x84, 0x12, 0x40, 0x40] 0xF7 rfl ⟨'A', by decide, by decide⟩,
    halike _ _ rfl rfl rfl, ?_⟩
  exact (hsent _ hsendable).2 _ rfl (by decide)

end Aprs.Ax25.Address
