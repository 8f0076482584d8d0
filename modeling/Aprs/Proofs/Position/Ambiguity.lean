import Aprs.Proofs.Coordinate.Area
import Aprs.Proofs.Position.Text

namespace Aprs.Position

open Arithmetic Coordinate

/-- Where the digits of a latitude stand in a position written out in degrees. -/
def latitudePlaces : List Nat := [0, 1, 2, 3, 5, 6]

/-- Where the digits of a longitude stand in a position written out in degrees. -/
def longitudePlaces : List Nat := [9, 10, 11, 12, 13, 15, 16]

/-- Octets with others written over them at the last of some places. -/
def overwrite (places : List Nat) (octets b : Bytes) : Bytes :=
  ((places.drop (places.length - octets.length)).zip octets).foldl
    (fun b (place, octet) => b.set place octet) b

/-- The octets of a position whose sender leaves the last digits out: spaces in the latitude, and
in the longitude what it is filled up with. -/
def blank (filler b : Bytes) : Bytes :=
  overwrite longitudePlaces filler
    (overwrite latitudePlaces (List.replicate filler.length 0x20) b)

/-- Digits are blank where octets are written over them, on both sides of the point. -/
theorem blank_withPoint {lat lon filler : List Char} (hlat : lat.length = 6)
    (hlon : lon.length = 7) (hfiller : filler.length ≤ 5) (latSide lonSide : Char)
    (table code : UInt8) :
    blank (Latin1.encode filler) (Latin1.encode (withPoint lat latSide) ++
        table :: (Latin1.encode (withPoint lon lonSide) ++ [code])) =
      Latin1.encode (withPoint (lat.take (lat.length - filler.length) ++
          List.replicate filler.length ' ') latSide) ++
        table :: (Latin1.encode (withPoint (lon.take (lon.length - filler.length) ++ filler)
          lonSide) ++ [code]) := by
  have hspace : ' '.toUInt8 = 0x20 := rfl
  match lat, hlat, lon, hlon with
  | [_, _, _, _, _, _], _, [_, _, _, _, _, _, _], _ =>
    match filler, hfiller with
    | [], _ | [_], _ | [_, _], _ | [_, _, _], _ | [_, _, _, _], _ | [_, _, _, _, _], _ =>
      simp [blank, overwrite, latitudePlaces, longitudePlaces, withPoint, Latin1.encode, hspace]

namespace TextBlock

/-- A block of which only some digits are told. -/
def conceal (block : TextBlock) (hexact : block.precision.blanks = 0) (precision : Precision)
    (ignored : Bytes) (hignored : ignored.length = precision.blanks) : TextBlock where
  precision := precision
  latitude := block.latitude.truncate hexact (by decide) precision
  symbolTable := block.symbolTable
  longitude := block.longitude.truncate hexact (by decide) precision
  ignored := ignored
  symbolCode := block.symbolCode
  hasIdentifier := block.hasIdentifier
  length_ignored := hignored
  graphic := block.graphic

/-- Leaving digits out overwrites their octets and no others. -/
theorem bytes_conceal (block : TextBlock) (hexact : block.precision.blanks = 0)
    {precision : Precision} {ignored : Bytes} (hignored : ignored.length = precision.blanks) :
    (block.conceal hexact precision ignored hignored).bytes = blank ignored block.bytes := by
  have hnone : block.ignored = [] :=
    List.length_eq_zero_iff.1 (block.length_ignored.trans hexact)
  have hnospace : List.replicate block.precision.blanks ' ' = [] := by rw [hexact]; rfl
  have hlat : block.latitudeText =
      withPoint block.latitude.digits (if block.latitude.positive then 'N' else 'S') := by
    rw [latitudeText, hnospace, Angle.text, List.append_nil]
  have hlon : block.longitudeText =
      withPoint block.longitude.digits (if block.longitude.positive then 'E' else 'W') := by
    rw [longitudeText, hnone, Angle.text, Latin1.decode, List.map_nil, List.append_nil]
  have hlatLength : block.latitude.digits.length = 6 := by
    have hlength := block.latitude.length_eq
    omega
  have hlonLength : block.longitude.digits.length = 7 := by
    have hlength := block.longitude.length_eq
    omega
  have hfiller : (Latin1.decode ignored).length = precision.blanks := by
    rw [Latin1.length_decode, hignored]
  have hmost : (Latin1.decode ignored).length ≤ 5 := by
    rw [hfiller]
    exact precision.blanks_le
  have hblank := blank_withPoint hlatLength hlonLength hmost
    (if block.latitude.positive then 'N' else 'S') (if block.longitude.positive then 'E' else 'W')
    block.symbolTable.toChar.toUInt8 block.symbolCode.toUInt8
  rw [Latin1.encode_decode, ← hlat, ← hlon, hfiller] at hblank
  exact hblank.symm

end TextBlock

section Ambiguity

variable {R : Type} {p : Position R}

theorem ambiguity_eq_none_iff : p.ambiguity = none ↔ p.precision.blanks = 0 := by
  unfold ambiguity
  split <;> simp [*]

theorem ambiguity_eq_some_iff {n : Nat} :
    p.ambiguity = some n ↔ p.precision.blanks = n ∧ 0 < n := by
  unfold ambiguity
  split <;> simp <;> omega

end Ambiguity

/-- A position that tells all of another one but its last digits, and the bounds of where it is. -/
structure Conceals (q p : Position Exact) (digits : Nat) : Prop where
  form : q.form = .uncompressed
  ambiguity : q.ambiguity = some digits
  symbolTable : q.symbolTable = p.symbolTable
  symbolCode : q.symbolCode = p.symbolCode
  latitude : Encloses q.latitudeBounds q.latitude.degrees p.latitude.degrees
    (q.precision.width : Exact).value
  longitude : Encloses q.longitudeBounds q.longitude.degrees p.longitude.degrees
    (q.precision.width : Exact).value

/-- Blanks for the last digits of a position lose nothing but these digits. From one to five of
them may be blank, and what stands in the longitude instead makes no difference. -/
theorem decode_blank {b filler : Bytes} {p : Position Exact} {stop : Nat}
    (hlength : b.length = 19) (hdecode : decode.runAt b 0 = .ok (p, stop))
    (hform : p.form = .uncompressed) (hexact : p.ambiguity = none) (hfirst : 1 ≤ filler.length)
    (hlast : filler.length ≤ 5) :
    ∃ q : Position Exact, decode.runAt (blank filler b) 0 = .ok (q, 19) ∧
      q.Conceals p filler.length := by
  obtain ⟨rest, hread, _⟩ := Decoder.runAt_eq_ok_iff.1 hdecode
  rw [List.drop_zero] at hread
  obtain ⟨block, hb, rfl⟩ : ∃ block : TextBlock, b = block.bytes ++ rest ∧ p = block.position := by
    cases b with
    | nil => cases hread
    | cons first b => exact (decode_digit_iff (isDigit_of_decode hread hform)).1 hread
  obtain rfl : rest = [] := by
    have hparts := congrArg List.length hb
    rw [List.length_append, block.length_bytes, hlength] at hparts
    exact List.length_eq_zero_iff.1 (by omega)
  rw [List.append_nil] at hb
  have hknown : block.precision.blanks = 0 := ambiguity_eq_none_iff.1 hexact
  obtain ⟨precision, hprecision⟩ := Precision.exists_blanks hlast
  refine ⟨(block.conceal hknown precision filler hprecision.symm).position, ?_, ?_⟩
  · rw [hb, ← block.bytes_conceal hknown hprecision.symm]
    exact TextBlock.runAt_eq _ (List.prefix_refl _)
  · constructor
    case form => rfl
    case ambiguity => exact ambiguity_eq_some_iff.2 ⟨hprecision, hfirst⟩
    case symbolTable => rfl
    case symbolCode => rfl
    case latitude => exact block.latitude.encloses_truncate hknown (by decide) precision
    case longitude => exact block.longitude.encloses_truncate hknown (by decide) precision

/-- What is known of a position may be zero in the south and in the west. Its sign is left then, and
the bounds extend to where the position is. -/
theorem decode_blank_zero :
    let b := Latin1.ascii "0000.50S/00000.75W-"
    let filler : Bytes := [0x20, 0x39, 0xFF, 0x00]
    ∃ p q : Position Exact, decode.runAt b 0 = .ok (p, 19) ∧
      decode.runAt (blank filler b) 0 = .ok (q, 19) ∧ q.Conceals p 4 ∧
      p.latitude.degrees.value = -1 / 120 ∧ q.latitude.degrees = .ofValue 0 true ∧
      q.latitudeBounds.1.value = -1 := by
  intro b filler
  have hread : ((decode (R := Exact)).runAt b 0).toOption.any fun (p, stop) =>
      p.form = .uncompressed ∧ p.ambiguity = none ∧ p.latitude.degrees.value = -1 / 120 ∧
        stop = 19 := by decide +kernel
  have hzero : ((decode (R := Exact)).runAt (blank filler b) 0).toOption.any fun (q, _) =>
      q.latitude.degrees = .ofValue 0 true ∧ q.latitudeBounds.1.value = -1 := by decide +kernel
  obtain ⟨⟨p, stop⟩, hrun, hparts⟩ := (Option.any_eq_true _ _).1 hread
  obtain ⟨hform, hexact, hlat, rfl⟩ := of_decide_eq_true hparts
  have hrun := toOption_eq_some_iff.1 hrun
  have hfiller : filler.length = 4 := rfl
  obtain ⟨q, hq, hconceals⟩ :=
    decode_blank (by rfl) hrun hform hexact (by omega : 1 ≤ filler.length) (by omega)
  rw [toOption_eq_some_iff.2 hq] at hzero
  exact ⟨p, q, hrun, hq, hconceals, hlat, of_decide_eq_true hzero⟩

end Aprs.Position
