import Aprs.Proofs.Report
import Aprs.Proofs.Weather

namespace Aprs

theorem Timestamp.decode_unplaced (b : Bytes) : Unplaced (decode b) := by
  unfold decode
  exact Decoder.field_unplaced (fun _ => by trivial) b

theorem Timestamp.decodeMonthly_unplaced (b : Bytes) : Unplaced (decodeMonthly b) := by
  unfold decodeMonthly
  exact Decoder.field_unplaced (fun _ => by trivial) b

theorem Extension.decode_unplaced (b : Bytes) : Unplaced (decode b) := by
  unfold decode
  exact Decoder.field_unplaced (fun _ => by trivial) b

theorem Message.decode_unplaced (b : Bytes) : Unplaced (decode b) := by
  unfold decode
  split
  · exact .ok _
  · exact .error trivial

theorem SymbolTable.ofByte_unplaced (b : UInt8) : Unplaced (ofByte b) := by
  unfold ofByte
  split
  case h_3 =>
    split
    · exact .ok _
    · exact .error trivial
  all_goals exact .ok _

theorem SymbolTable.ofCompressedByte_unplaced (b : UInt8) : Unplaced (ofCompressedByte b) := by
  unfold ofCompressedByte
  split
  case h_3 =>
    split
    · exact .ok _
    split
    · exact .ok _
    · exact .error trivial
  all_goals exact .ok _

theorem Supplement.ofBytes_unplaced (c s t : UInt8) : Unplaced (ofBytes c s t) := by
  unfold ofBytes
  split
  · exact .ok _
  split
  · exact .ok _
  · exact .error trivial

namespace Position

theorem readSymbolCode_unplaced (block : Bytes) (code : UInt8) :
    Unplaced (readSymbolCode block code) := by
  unfold readSymbolCode
  split
  · exact .ok _
  · exact .error trivial

variable {R : Type} [Arithmetic R]

theorem ofText_unplaced (lat : Bytes) (table : UInt8) (lon : Bytes) (code : UInt8) :
    Unplaced (ofText (R := R) lat table lon code) := by
  unfold ofText
  refine .bind (.elim (by trivial) _) fun _ => ?_
  refine .bind (SymbolTable.ofByte_unplaced table) fun _ => ?_
  refine .bind (.elim (by trivial) _) fun _ => ?_
  exact .bind (readSymbolCode_unplaced _ code) fun _ => .ok _

theorem ofBase91_unplaced (table : UInt8) (lat lon : Bytes) (code c s t : UInt8) :
    Unplaced (ofBase91 (R := R) table lat lon code c s t) := by
  unfold ofBase91
  refine .bind (SymbolTable.ofCompressedByte_unplaced table) fun _ => ?_
  refine .bind (.elim (by trivial) _) fun _ => ?_
  refine .bind (.elim (by trivial) _) fun _ => ?_
  refine .bind (readSymbolCode_unplaced _ code) fun _ => ?_
  exact .bind (Supplement.ofBytes_unplaced c s t) fun _ => .ok _

theorem decodeUncompressed_unplaced (b : Bytes) : Unplaced (decodeUncompressed (R := R) b) :=
  decodeUncompressed_readsBlock.unplaced (fun _ => by trivial) (fun _ _ => ofText_unplaced _ _ _ _) b

theorem decodeCompressed_unplaced (b : Bytes) : Unplaced (decodeCompressed (R := R) b) :=
  decodeCompressed_readsBlock.unplaced (fun _ => by trivial) (fun _ _ => ofBase91_unplaced _ _ _ _ _ _ _) b

/-- Octets are told apart by the first of them, and only no octets have none. -/
theorem decode_unplaced {b : Bytes} (hb : b ≠ []) : Unplaced (decode (R := R) b) := by
  cases b with
  | nil => exact absurd rfl hb
  | cons first b =>
    simp only [decode]
    split
    · exact decodeUncompressed_unplaced _
    split
    · exact decodeCompressed_unplaced _
    · exact .error (by trivial)

/-- Only where there are no octets at all does a position tell of a place. -/
theorem decode_placed_iff {b : Bytes} {cursor length : Nat} :
    decode (R := R) b = .error (.cursorOutOfBounds cursor length) ↔
      b = [] ∧ cursor = 0 ∧ length = 0 := by
  constructor
  · intro herror
    by_cases hb : b = []
    · subst hb
      obtain ⟨rfl, rfl⟩ := DecodeError.cursorOutOfBounds.inj (Except.error.inj herror)
      exact ⟨rfl, rfl, rfl⟩
    · exact (decode_unplaced hb _ herror).elim
  · rintro ⟨rfl, rfl, rfl⟩
    rfl

/-- An extension is never the reason why there is no position. -/
theorem decodeWithExtension_error {b : Bytes} {error : DecodeError} :
    decodeWithExtension (R := R) b = .error error ↔ decode (R := R) b = .error error := by
  unfold decodeWithExtension
  exact bind_eq_error_iff_of_ok fun _ => ⟨_, rfl⟩

theorem decode_runAt_placed_iff {body : Bytes} {cursor place length : Nat} :
    (decode (R := R)).runAt body cursor = .error (.cursorOutOfBounds place length) ↔
      body.length ≤ cursor ∧ place = cursor ∧ length = body.length := by
  simp only [Decoder.runAt_placed_iff, decode_placed_iff, List.drop_eq_nil_iff]
  constructor
  · rintro ⟨_, _, ⟨hcursor, rfl, rfl⟩, rfl, rfl⟩
    exact ⟨hcursor, rfl, rfl⟩
  · rintro ⟨hcursor, rfl, rfl⟩
    exact ⟨0, 0, ⟨hcursor, rfl, rfl⟩, rfl, rfl⟩

theorem decodeWithExtension_runAt_placed_iff {body : Bytes} {cursor place length : Nat} :
    (decodeWithExtension (R := R)).runAt body cursor = .error (.cursorOutOfBounds place length) ↔
      body.length ≤ cursor ∧ place = cursor ∧ length = body.length := by
  rw [← decode_runAt_placed_iff (R := R)]
  simp only [Decoder.runAt_placed_iff, decodeWithExtension_error]

/-- The place of a position that is not there is where the octets in front of it end. -/
theorem decodeWithExtension_mapError_placed_iff {b : Bytes} {n cursor length : Nat} :
    (decodeWithExtension (R := R) (b.drop n)).mapError (·.locate n b.length) =
        .error (.cursorOutOfBounds cursor length) ↔
      b.length ≤ n ∧ cursor = n ∧ length = b.length := by
  rw [mapError_eq_error_iff]
  constructor
  · rintro ⟨cause, hcause, hlocate⟩
    obtain ⟨inner, innerLength, rfl, rfl, rfl⟩ :=
      DecodeError.locate_eq_cursorOutOfBounds_iff.1 hlocate
    obtain ⟨hnil, rfl, _⟩ := decode_placed_iff.1 (decodeWithExtension_error.1 hcause)
    exact ⟨List.drop_eq_nil_iff.1 hnil, rfl, rfl⟩
  · rintro ⟨hn, rfl, rfl⟩
    refine ⟨.cursorOutOfBounds 0 0, ?_, rfl⟩
    exact decodeWithExtension_error.2 (decode_placed_iff.2 ⟨List.drop_eq_nil_iff.2 hn, rfl, rfl⟩)

end Position

variable {R : Type} [Arithmetic R] {body : Bytes} {cursor place length : Nat}

/-- An object whose time is the last thing in its body has no position. -/
theorem Object.decode_placed_iff {b : Bytes} :
    decode (R := R) b = .error (.cursorOutOfBounds cursor length) ↔
      b.length = 17 ∧ (∃ t, Timestamp.decode (b.drop 10) = .ok (t, [])) ∧
        cursor = b.length ∧ length = b.length := by
  rw [decode_eq]
  cases hmark : (b[9]? : Option UInt8) with
  | none =>
    have hlength : b.length ≤ 9 := List.getElem?_eq_none_iff.1 hmark
    refine iff_of_false (fun h => by cases h) ?_
    omega
  | some mark =>
    cases htimestamp : Timestamp.decode (b.drop 10) with
    | error e =>
      have hunplaced := Timestamp.decode_unplaced _ _ htimestamp
      refine iff_of_false (fun h => hunplaced.ne _ _ (Except.error.inj h)) ?_
      rintro ⟨_, ⟨t, ht⟩, _⟩
      cases ht
    | ok parts =>
      obtain ⟨t, rest⟩ := parts
      obtain ⟨hroom, hrest⟩ := Timestamp.decode_takes htimestamp
      rw [List.drop_drop] at hrest
      have hseven : 7 ≤ b.length - 10 := List.length_drop ▸ hroom
      refine ((bind_eq_error_iff_of_ok fun _ => ⟨_, rfl⟩).trans
        Position.decodeWithExtension_mapError_placed_iff).trans ?_
      constructor
      · rintro ⟨hlength, rfl, rfl⟩
        have hnil : rest = [] := hrest.trans (List.drop_eq_nil_iff.2 hlength)
        exact ⟨by omega, ⟨t, by rw [hnil]⟩, by omega, rfl⟩
      · rintro ⟨hlength, _, rfl, rfl⟩
        exact ⟨by omega, hlength, rfl⟩

/-- An item whose name is the last thing in its body has no position. -/
theorem Item.decode_placed_iff {b : Bytes} :
    decode (R := R) b = .error (.cursorOutOfBounds cursor length) ↔
      (∃ n, nameLength? b = some n ∧ b.length = n + 1) ∧
        cursor = b.length ∧ length = b.length := by
  rw [decode_eq]
  cases hname : nameLength? b with
  | none =>
    refine iff_of_false (fun h => by cases h) ?_
    rintro ⟨⟨n, hn, _⟩, _⟩
    cases hn
  | some n =>
    obtain ⟨_, _, mark, hmark, _⟩ := nameLength?_eq_some hname
    obtain ⟨hn, _⟩ := List.getElem?_eq_some_iff.1 hmark
    refine ((bind_eq_error_iff_of_ok fun _ => ⟨_, rfl⟩).trans
      Position.decodeWithExtension_mapError_placed_iff).trans ?_
    constructor
    · rintro ⟨hlength, rfl, rfl⟩
      exact ⟨⟨n, rfl, by omega⟩, by omega, rfl⟩
    · rintro ⟨⟨_, ⟨⟩, hlength⟩, rfl, rfl⟩
      exact ⟨by omega, hlength, rfl⟩

theorem Object.decode_runAt_placed_iff :
    (decode (R := R)).runAt body cursor = .error (.cursorOutOfBounds place length) ↔
      cursor + 17 = body.length ∧
        (∃ t, Timestamp.decode.runAt body (cursor + 10) = .ok (t, body.length)) ∧
        place = body.length ∧ length = body.length := by
  simp only [Decoder.runAt_placed_iff, decode_placed_iff, List.length_drop, List.drop_drop]
  constructor
  · rintro ⟨_, _, ⟨hlength, ⟨t, htimestamp⟩, rfl, rfl⟩, rfl, rfl⟩
    refine ⟨by omega, ⟨t, ?_⟩, by omega, rfl⟩
    exact Decoder.runAt_eq_ok_iff.2 ⟨[], htimestamp, rfl⟩
  · rintro ⟨hlength, ⟨t, htimestamp⟩, rfl, rfl⟩
    obtain ⟨rest, htimestamp, hstop⟩ := Decoder.runAt_eq_ok_iff.1 htimestamp
    have hnil : rest = [] := List.length_eq_zero_iff.1 (by omega)
    rw [hnil] at htimestamp
    exact ⟨_, _, ⟨by omega, ⟨t, htimestamp⟩, rfl, rfl⟩, by omega, rfl⟩

theorem Item.decode_runAt_placed_iff :
    (decode (R := R)).runAt body cursor = .error (.cursorOutOfBounds place length) ↔
      (∃ n, nameLength? (body.drop cursor) = some n ∧ cursor + n + 1 = body.length) ∧
        place = body.length ∧ length = body.length := by
  simp only [Decoder.runAt_placed_iff, decode_placed_iff, List.length_drop]
  constructor
  · rintro ⟨_, _, ⟨⟨n, hname, hlength⟩, rfl, rfl⟩, rfl, rfl⟩
    exact ⟨⟨n, hname, by omega⟩, by omega, rfl⟩
  · rintro ⟨⟨n, hname, hlength⟩, rfl, rfl⟩
    exact ⟨_, _, ⟨⟨n, hname, by omega⟩, rfl, rfl⟩, by omega, rfl⟩

omit [Arithmetic R] in
theorem Weather.decodeAt_eq_error_iff {error : DecodeError} :
    Weather.decodeAt body cursor = .error error ↔
      body.length < cursor ∧ error = .cursorOutOfBounds cursor body.length :=
  Decoder.runWithin_eq_error_iff fun _ => ⟨_, rfl⟩

omit [Arithmetic R] in
theorem Altitude.decodeAt_eq_error_iff {error : DecodeError} :
    Altitude.decodeAt body cursor = .error error ↔
      body.length < cursor ∧ error = .cursorOutOfBounds cursor body.length :=
  Decoder.runWithin_eq_error_iff fun _ => ⟨_, rfl⟩

end Aprs
