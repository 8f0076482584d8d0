import Aprs.Proofs.Decoder

namespace Aprs.Decoder

variable {α : Type}

/-- `read` and `write` undo each other. Each value in range has one text, of `width` characters that
are octets, and `IsShaped` tells these texts by their characters alone. -/
structure IsWriting (read : List Char → Option α) (width : Nat) (IsShaped : List Char → Prop)
    (InRange : α → Prop) (write : α → List Char) : Prop where
  read_iff (text : List Char) (value : α) :
    read text = some value ↔ InRange value ∧ write value = text
  exists_iff (text : List Char) : (∃ value, read text = some value) ↔ IsShaped text
  length_eq (text : List Char) : IsShaped text → text.length = width
  toNat_lt (text : List Char) : IsShaped text → ∀ c ∈ text, c.toNat < 256

/-- A decoder of values that are written with `width` characters each. What it reads is told by the
characters alone, and what it returns by its text. -/
structure ReadsText (decode : Decoder α) (width : Nat) (refusal : Bytes → DecodeError)
    (IsShaped : List Char → Prop) (InRange : α → Prop) (write : α → List Char) : Prop where
  exists_iff (b : Bytes) (cursor : Nat) : (∃ result, decode.runAt b cursor = .ok result) ↔
    cursor + width ≤ b.length ∧ IsShaped (Latin1.decode ((b.drop cursor).take width))
  ok_iff (b : Bytes) (cursor stop : Nat) (value : α) : decode.runAt b cursor = .ok (value, stop) ↔
    InRange value ∧ Latin1.encode (write value) = (b.drop cursor).take width ∧
      stop = cursor + width
  /-- A field is refused whole, and where fewer octets are left all of them are refused. -/
  error_iff (b : Bytes) (cursor : Nat) (error : DecodeError) :
    decode.runAt b cursor = .error error ↔
      ¬ (cursor + width ≤ b.length ∧ IsShaped (Latin1.decode ((b.drop cursor).take width))) ∧
        error = refusal ((b.drop cursor).take width)
  runAt_write (value : α) (rest : Bytes) : InRange value →
    decode.runAt (Latin1.encode (write value) ++ rest) 0 = .ok (value, (write value).length)

namespace IsWriting

variable {read : List Char → Option α} {width : Nat} {IsShaped : List Char → Prop}
  {InRange : α → Prop} {write : α → List Char}

theorem isShaped_write (hwriting : IsWriting read width IsShaped InRange write) {value : α}
    (hrange : InRange value) : IsShaped (write value) :=
  (hwriting.exists_iff _).1 ⟨value, (hwriting.read_iff _ _).2 ⟨hrange, rfl⟩⟩

theorem length_encode (hwriting : IsWriting read width IsShaped InRange write) {value : α}
    (hrange : InRange value) : (Latin1.encode (write value)).length = width := by
  rw [Latin1.encode, List.length_map, hwriting.length_eq _ (hwriting.isShaped_write hrange)]

theorem decode_encode (hwriting : IsWriting read width IsShaped InRange write) {value : α}
    (hrange : InRange value) : Latin1.decode (Latin1.encode (write value)) = write value :=
  Latin1.decode_encode (hwriting.toNat_lt _ (hwriting.isShaped_write hrange))

variable {refusal : Bytes → DecodeError} {b : Bytes}

theorem inRange_of_field (hwriting : IsWriting read width IsShaped InRange write) {rest : Bytes}
    {value : α} (hfield : field width refusal read b = .ok (value, rest)) : InRange value := by
  obtain ⟨_, hread, _⟩ := field_eq_ok_iff.1 hfield
  exact ((hwriting.read_iff _ _).1 hread).1

theorem exists_field_iff (hwriting : IsWriting read width IsShaped InRange write) :
    (∃ result, field width refusal read b = .ok result) ↔
      width ≤ b.length ∧ IsShaped (Latin1.decode (b.take width)) := by
  rw [← hwriting.exists_iff]
  constructor
  · rintro ⟨⟨value, rest⟩, hfield⟩
    obtain ⟨hwidth, hread, _⟩ := field_eq_ok_iff.1 hfield
    exact ⟨hwidth, value, hread⟩
  · rintro ⟨hwidth, value, hread⟩
    exact ⟨(value, b.drop width), field_eq_ok_iff.2 ⟨hwidth, hread, rfl⟩⟩

theorem field_error_iff (hwriting : IsWriting read width IsShaped InRange write)
    {error : DecodeError} :
    field width refusal read b = .error error ↔
      ¬ (width ≤ b.length ∧ IsShaped (Latin1.decode (b.take width))) ∧
        error = refusal (b.take width) := by
  rw [field_eq_error_iff, ← hwriting.exists_iff, Option.eq_none_iff_forall_ne_some]
  simp only [not_and, not_exists, ne_eq]

/-- A value is read exactly where its text stands. One octet at least keeps a cursor behind the end
from being taken for the end. -/
theorem runAt_ok_iff (hwriting : IsWriting read width IsShaped InRange write)
    (hpositive : 0 < width) {cursor stop : Nat} {value : α} :
    (field width refusal read).runAt b cursor = .ok (value, stop) ↔
      InRange value ∧ Latin1.encode (write value) = (b.drop cursor).take width ∧
        stop = cursor + width := by
  have hdrop := List.length_drop (i := cursor) (l := b)
  simp only [runAt_eq_ok_iff, field_eq_ok_iff, hwriting.read_iff]
  constructor
  · rintro ⟨_, ⟨hwidth, ⟨hrange, htext⟩, rfl⟩, rfl⟩
    refine ⟨hrange, by rw [htext, Latin1.encode_decode], ?_⟩
    rw [List.length_drop]
    omega
  · rintro ⟨hrange, hb, rfl⟩
    have hwidth : width ≤ (b.drop cursor).length := by
      have hlength := hwriting.length_encode hrange
      rw [hb, List.length_take] at hlength
      omega
    refine ⟨_, ⟨hwidth, ⟨hrange, by rw [← hb, hwriting.decode_encode hrange]⟩, rfl⟩, ?_⟩
    rw [List.length_drop]
    omega

/-- A decoder of a field does all this if reading and writing its text undo each other. -/
theorem field_readsText (hwriting : IsWriting read width IsShaped InRange write)
    (hpositive : 0 < width) (hrefusal : ∀ b, (refusal b).IsUnplaced) :
    (field width refusal read).ReadsText width refusal IsShaped InRange write := by
  have hroom (b : Bytes) (cursor : Nat) :
      cursor + width ≤ b.length ↔ width ≤ (b.drop cursor).length := by
    rw [List.length_drop]
    omega
  refine ⟨fun b cursor => ?_, fun b cursor stop value => hwriting.runAt_ok_iff hpositive,
    fun b cursor error => ?_, fun value rest hrange => ?_⟩
  · rw [hroom, exists_runAt_iff, hwriting.exists_field_iff]
  · rw [hroom, runAt_eq_error_iff_of_unplaced (field_unplaced hrefusal _),
      hwriting.field_error_iff]
  · have hlength := hwriting.length_encode hrange
    refine (hwriting.runAt_ok_iff hpositive).2 ⟨hrange, ?_, ?_⟩
    · rw [List.drop_zero, List.take_left' hlength]
    · rw [← hlength, Latin1.encode, List.length_map, Nat.zero_add]

end IsWriting

end Aprs.Decoder
