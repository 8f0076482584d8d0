import Aprs.Ax25.Frame
import Aprs.Proofs.Except
import Mathlib.Data.List.DropRight

namespace Aprs.Ax25

/-- Seven octets that name a station. Six are for its call, and a call of white space alone
names nobody. Bit 0 of the octets of the call counts for nothing. -/
structure Field where
  call : Bytes
  flags : UInt8
  length_call : call.length = 6
  named : ∃ octet ∈ call, ¬ Address.isBlank (Char.ofUInt8 (octet >>> 1))

namespace Field

/-- The octets of a field, its flags last. -/
def bytes (f : Field) : Bytes := f.call ++ [f.flags]

/-- The station that a field names. The reserved bits 5 and 6 of its flags count for nothing. -/
def address (f : Field) : Address where
  call := String.ofList (Address.callText f.call)
  ssid := (f.flags >>> 1 &&& 0x0F).toNat
  last := f.flags &&& 0x01 ≠ 0
  repeated := f.flags &&& 0x80 ≠ 0

/-- The callsign of the station that a field names. -/
def callsign (f : Field) : Callsign := f.address.callsign

/-- No address follows the field. -/
def last (f : Field) : Bool := f.address.last

/-- The entry of a path that a field stands for. -/
def entry (f : Field) : PathEntry := .station f.callsign f.address.repeated

@[simp] theorem length_bytes (f : Field) : f.bytes.length = 7 := by
  rw [bytes, List.length_append, f.length_call]
  rfl

theorem length_flatMap_bytes (fields : List Field) :
    (fields.flatMap bytes).length = 7 * fields.length := by
  induction fields with
  | nil => rfl
  | cons f fields ih =>
    rw [List.flatMap_cons, List.length_append, length_bytes, ih, List.length_cons]
    omega

/-- All fields have one width, so what follows one of them does not blur where it ends. -/
theorem bytes_append_inj {f g : Field} {x y : Bytes} (h : f.bytes ++ x = g.bytes ++ y) :
    f = g ∧ x = y := by
  have hlength : f.bytes.length = g.bytes.length := by rw [length_bytes, length_bytes]
  obtain ⟨hbytes, hrest⟩ := List.append_inj h hlength
  obtain ⟨hcall, hflags⟩ := List.append_inj hbytes (f.length_call.trans g.length_call.symm)
  obtain ⟨fcall, fflags, _, _⟩ := f
  obtain ⟨gcall, gflags, _, _⟩ := g
  obtain rfl : fcall = gcall := hcall
  obtain rfl : fflags = gflags := List.singleton_inj.1 hflags
  exact ⟨rfl, hrest⟩

end Field

namespace Address

/-- A call is empty exactly if all its octets hold white space. -/
theorem callText_eq_nil_iff {b : Bytes} :
    callText b = [] ↔ ∀ octet ∈ b, isBlank (Char.ofUInt8 (octet >>> 1)) := by
  unfold callText
  rw [List.reverse_eq_nil_iff, List.dropWhile_eq_nil_iff]
  simp

/-- A character of seven bits is found again a bit to the left of its place. -/
theorem ofUInt8_shift {c : Char} (hc : c.toNat < 128) :
    Char.ofUInt8 (c.toUInt8 <<< 1 >>> 1) = c := by
  have hoctet : c.toUInt8.toNat = c.toNat := by
    have hvalue : c.toUInt8.toNat = c.toNat % 256 := UInt32.toNat_toUInt8 c.val
    omega
  have hshift : c.toUInt8 <<< 1 >>> 1 = c.toUInt8 := by
    apply UInt8.toNat_inj.1
    rw [UInt8.toNat_shiftRight, UInt8.toNat_shiftLeft, hoctet]
    change (c.toNat <<< 1 % 256) >>> 1 = c.toNat
    rw [Nat.shiftLeft_eq, Nat.shiftRight_eq_div_pow]
    omega
  rw [hshift, Latin1.ofUInt8_toUInt8 (by omega)]

/-- White space at the end of what the octets hold is no part of the call. -/
theorem callText_of_append {b : Bytes} {text blanks : List Char}
    (hb : b.map (fun octet : UInt8 => Char.ofUInt8 (octet >>> 1)) = text ++ blanks)
    (hblanks : ∀ c ∈ blanks, isBlank c) (hlast : ∀ c, text.getLast? = some c → ¬ isBlank c) :
    callText b = text := by
  have hbehind : ∀ c ∈ blanks.reverse, isBlank c := fun c hc => hblanks c (List.mem_reverse.1 hc)
  have hwhole : text.rdropWhile isBlank = text := by
    rw [List.rdropWhile_eq_self_iff]
    intro hne
    exact hlast _ (List.getLast?_eq_some_getLast hne)
  unfold callText
  rw [hb, List.reverse_append, List.dropWhile_append_of_pos hbehind]
  exact hwhole

/-- A call of seven bit characters that does not end in white space is read back from its
octets, with the spaces that fill them up. -/
theorem callText_padSpaces {text : List Char} (hascii : ∀ c ∈ text, c.toNat < 128)
    (hlast : ∀ c, text.getLast? = some c → ¬ isBlank c) (n : Nat) :
    callText ((padSpaces n (Latin1.encode text)).map fun octet : UInt8 => octet <<< 1) = text := by
  have hspaces : ∀ c ∈ List.replicate (n - text.length) ' ', isBlank c := by
    intro c hc
    rw [List.eq_of_mem_replicate hc]
    rfl
  have htext : text.map (fun c : Char => Char.ofUInt8 (c.toUInt8 <<< 1 >>> 1)) = text := by
    have hread : ∀ c ∈ text, Char.ofUInt8 (c.toUInt8 <<< 1 >>> 1) = id c := by
      intro c hc
      exact ofUInt8_shift (hascii c hc)
    rw [List.map_congr_left hread, List.map_id]
  have hoctets : ((padSpaces n (Latin1.encode text)).map fun octet : UInt8 => octet <<< 1).map
      (fun octet : UInt8 => Char.ofUInt8 (octet >>> 1)) =
        text ++ List.replicate (n - text.length) ' ' := by
    unfold padSpaces Latin1.encode
    rw [List.map_append, List.map_append, List.map_map, List.map_map, List.map_replicate,
      List.map_replicate, List.length_map]
    exact congrArg (· ++ _) htext
  exact callText_of_append hoctets hspaces hlast

/-- Seven octets are six for a call and one for the flags. -/
theorem exists_call_flags {b : Bytes} (hlength : b.length = 7) :
    ∃ call flags, b = call ++ [flags] ∧ call.length = 6 := by
  have hne : b ≠ [] := by
    rintro rfl
    cases hlength
  refine ⟨b.dropLast, b.getLast hne, (List.dropLast_concat_getLast hne).symm, ?_⟩
  rw [List.length_dropLast, hlength]

theorem ofBytes_bytes (f : Field) : ofBytes f.bytes = .ok f.address := by
  have hsplit : splitAt? 6 f.bytes = some (f.call, [f.flags]) :=
    splitAt?_eq_some_iff.2 ⟨rfl, f.length_call⟩
  have hcall : callText f.call ≠ [] := by
    intro hnil
    obtain ⟨octet, hmem, hnamed⟩ := f.named
    exact hnamed (callText_eq_nil_iff.1 hnil octet hmem)
  unfold ofBytes
  rw [hsplit]
  exact if_neg hcall

theorem ofBytes_of_blank {call : Bytes} (hcall : call.length = 6) (flags : UInt8)
    (hblank : ∀ octet ∈ call, isBlank (Char.ofUInt8 (octet >>> 1))) :
    ofBytes (call ++ [flags]) = .error (.emptyCallsign "") := by
  have hsplit : splitAt? 6 (call ++ [flags]) = some (call, [flags]) :=
    splitAt?_eq_some_iff.2 ⟨rfl, hcall⟩
  unfold ofBytes
  rw [hsplit]
  exact if_pos (callText_eq_nil_iff.2 hblank)

/-- Seven octets name a station, or there is white space where its call should be. -/
theorem field_or_blank {call : Bytes} (hlength : call.length = 6) (flags : UInt8) :
    (∃ f : Field, f.bytes = call ++ [flags]) ∨
      (∀ octet ∈ call, isBlank (Char.ofUInt8 (octet >>> 1))) ∧
        ofBytes (call ++ [flags]) = .error (.emptyCallsign "") := by
  by_cases hnamed : ∃ octet ∈ call, ¬ isBlank (Char.ofUInt8 (octet >>> 1))
  · exact .inl ⟨⟨call, flags, hlength, hnamed⟩, rfl⟩
  · have hblank : ∀ octet ∈ call, isBlank (Char.ofUInt8 (octet >>> 1)) := by
      intro octet hmem
      by_contra hoctet
      exact hnamed ⟨octet, hmem, hoctet⟩
    exact .inr ⟨hblank, ofBytes_of_blank hlength flags hblank⟩

end Address

namespace Frame

/-- All the ways in which an address is read off the front of what is left of a frame. -/
inductive AddressRead (frame : Bytes) : Bytes → Except PacketError (Address × Bytes) → Prop where
  | field (f : Field) (after : Bytes) : AddressRead frame (f.bytes ++ after) (.ok (f.address, after))
  | blank {call : Bytes} {flags : UInt8} {after : Bytes} :
    call.length = 6 → (∀ octet ∈ call, Address.isBlank (Char.ofUInt8 (octet >>> 1))) →
    AddressRead frame (call ++ flags :: after) (.error (.emptyCallsign ""))
  | truncated {rest : Bytes} :
    rest.length < 7 → AddressRead frame rest (.error (.truncated frame))

theorem readAddress_bytes (f : Field) (frame after : Bytes) :
    readAddress frame (f.bytes ++ after) = .ok (f.address, after) := by
  have hsplit : splitAt? 7 (f.bytes ++ after) = some (f.bytes, after) :=
    splitAt?_eq_some_iff.2 ⟨rfl, f.length_bytes⟩
  unfold readAddress
  simp only [hsplit, Address.ofBytes_bytes]
  rfl

theorem readAddress_short {frame rest : Bytes} (hshort : rest.length < 7) :
    readAddress frame rest = .error (.truncated frame) := by
  unfold readAddress
  rw [splitAt?_eq_none_iff.2 hshort]

/-- Reading an address ends in one of these ways, whatever is left of the frame. -/
theorem readAddress_reads (frame rest : Bytes) :
    AddressRead frame rest (readAddress frame rest) := by
  cases hsplit : splitAt? 7 rest with
  | none =>
    have hshort := splitAt?_eq_none_iff.1 hsplit
    rw [readAddress_short hshort]
    exact .truncated hshort
  | some parts =>
    obtain ⟨octets, after⟩ := parts
    obtain ⟨rfl, hlength⟩ := splitAt?_eq_some_iff.1 hsplit
    obtain ⟨call, flags, rfl, hcall⟩ := Address.exists_call_flags hlength
    rcases Address.field_or_blank hcall flags with ⟨f, hf⟩ | ⟨hblank, herror⟩
    · rw [← hf, readAddress_bytes]
      exact .field f after
    · have hread : readAddress frame (call ++ [flags] ++ after) = .error (.emptyCallsign "") := by
        unfold readAddress
        simp only [hsplit, herror]
        rfl
      rw [hread, List.append_assoc]
      exact .blank hcall hblank

theorem readAddress_eq_ok {frame rest after : Bytes} {a : Address}
    (hread : readAddress frame rest = .ok (a, after)) :
    ∃ f : Field, rest = f.bytes ++ after ∧ a = f.address := by
  have haddress := readAddress_reads frame rest
  rw [hread] at haddress
  cases haddress with
  | field f => exact ⟨f, rfl, rfl⟩

theorem readAddress_eq_error {frame rest : Bytes} {error : PacketError}
    (hread : readAddress frame rest = .error error) :
    error = .truncated frame ∨ error = .emptyCallsign "" := by
  have haddress := readAddress_reads frame rest
  rw [hread] at haddress
  cases haddress with
  | blank => exact .inr rfl
  | truncated => exact .inl rfl

/-- An address in a frame that is cut off is read if the cut is behind it. -/
theorem readAddress_take (f : Field) (frame after : Bytes) (k : Nat) :
    readAddress frame ((f.bytes ++ after).take k) =
      if k < 7 then .error (.truncated frame) else .ok (f.address, after.take (k - 7)) := by
  by_cases hk : k < 7
  · have hshort : ((f.bytes ++ after).take k).length < 7 :=
      Nat.lt_of_le_of_lt (List.length_take_le _ _) hk
    rw [if_pos hk, readAddress_short hshort]
  · have hcut : (f.bytes ++ after).take k = f.bytes ++ after.take (k - 7) := by
      rw [List.take_append, f.length_bytes, List.take_of_length_le (by rw [f.length_bytes]; omega)]
    rw [if_neg hk, hcut, readAddress_bytes]

end Frame

end Aprs.Ax25
