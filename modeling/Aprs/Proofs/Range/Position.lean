import Aprs.Proofs.Base91
import Aprs.Proofs.Position.Block
import Aprs.Proofs.Range.Field

namespace Aprs

variable {R : Type} [Arithmetic R]

namespace Latitude

theorem isWithin_of_ofDegrees? {x : R} {latitude : Latitude R}
    (hread : ofDegrees? x = some latitude) : Coordinate.isWithin 90 latitude.degrees := by
  simp only [ofDegrees?, Option.ite_none_right_eq_some, Option.some.injEq] at hread
  obtain ⟨hwithin, rfl⟩ := hread
  exact hwithin

theorem isWithin_of_ofText? {text : List Char} {latitude : Latitude R} {precision : Precision}
    (hread : ofText? text = some (latitude, precision)) :
    Coordinate.isWithin 90 latitude.degrees := by
  unfold ofText? at hread
  split at hread
  case h_1 =>
    simp only [bind, Option.bind_eq_some_iff, Option.some.injEq, Prod.mk.injEq] at hread
    obtain ⟨_, _, _, _, _, _, _, hparts, rfl, _⟩ := hread
    exact isWithin_of_ofDegrees? hparts
  case h_2 => cases hread

theorem isWithin_of_ofBase91? {b : Bytes} {latitude : Latitude R}
    (hread : ofBase91? b = some latitude) : Coordinate.isWithin 90 latitude.degrees := by
  obtain ⟨_, _, hdegrees⟩ := Option.bind_eq_some_iff.1 hread
  exact isWithin_of_ofDegrees? hdegrees

end Latitude

namespace Longitude

theorem isWithin_of_ofDegrees? {x : R} {longitude : Longitude R}
    (hread : ofDegrees? x = some longitude) : Coordinate.isWithin 180 longitude.degrees := by
  simp only [ofDegrees?, Option.ite_none_right_eq_some, Option.some.injEq] at hread
  obtain ⟨hwithin, rfl⟩ := hread
  exact hwithin

theorem isWithin_of_ofText? {precision : Precision} {text : List Char} {longitude : Longitude R}
    (hread : ofText? precision text = some longitude) :
    Coordinate.isWithin 180 longitude.degrees := by
  unfold ofText? at hread
  split at hread
  case h_1 =>
    simp only [bind, Option.bind_eq_some_iff] at hread
    obtain ⟨_, _, _, _, hparts⟩ := hread
    exact isWithin_of_ofDegrees? hparts
  case h_2 => cases hread

theorem isWithin_of_ofBase91? {b : Bytes} {longitude : Longitude R}
    (hread : ofBase91? b = some longitude) : Coordinate.isWithin 180 longitude.degrees := by
  obtain ⟨_, _, hdegrees⟩ := Option.bind_eq_some_iff.1 hread
  exact isWithin_of_ofDegrees? hdegrees

end Longitude

/-- The largest first digit announces a range, so courses stop one step before it. -/
theorem Supplement.course_of_ofBytes {c s t : UInt8} {type : CompressionType} {degrees : Nat}
    {knots : Rat} (hread : ofBytes c s t = .ok (some (courseSpeed degrees knots, type))) :
    4 ∣ degrees ∧ degrees ≤ 356 := by
  unfold ofBytes at hread
  split at hread
  case isTrue => cases hread
  case isFalse =>
    split at hread
    case h_1 first second bits hfirst _ _ =>
      obtain ⟨hdigit, _⟩ := Base91.digit?_eq_some_iff.1 hfirst
      simp only [Except.ok.injEq, Option.some.injEq, Prod.mk.injEq] at hread
      obtain ⟨hmeaning, _⟩ := hread
      unfold ofDigits at hmeaning
      split at hmeaning
      case isTrue => cases hmeaning
      case isFalse =>
        split at hmeaning
        case isTrue => cases hmeaning
        case isFalse hrange =>
          cases hmeaning
          exact ⟨Nat.dvd_mul_right 4 first, by omega⟩
    case h_2 => cases hread

namespace Position

/-- What is true of every position that is read: it could be written again, an altitude has six
digits, and one that was sent in digits of base 91 has their precision and one of their
courses. -/
structure InRange (p : Position R) : Prop extends p.IsWritable where
  altitude : ∀ feet ∈ p.altitude, feet ≤ 999999
  precision : p.isCompressed → p.precision = .hundredthMinute
  course : ∀ degrees knots, p.supplement? = some (.courseSpeed degrees knots) →
    4 ∣ degrees ∧ degrees ≤ 356

theorem IsText.inRange {p : Position R} {lat lon : Bytes} {table code : UInt8}
    (hp : p.IsText lat table lon code) : p.InRange where
  latitude := Latitude.isWithin_of_ofText? hp.latitude
  longitude := Longitude.isWithin_of_ofText? hp.longitude
  symbolTable := SymbolTable.hasIdentifier_of_ofByte hp.symbolTable
  symbolCode := hp.graphic
  altitude := by simp [hp.altitude]
  precision := by simp [isCompressed, hp.form]
  course := by simp [supplement?, hp.form]

/-- A compressed position is in range, as every coordinate was checked and all digits are below
91. -/
theorem IsBase91.inRange {p : Position R} {lat lon : Bytes} {table code c s t : UInt8}
    (hp : p.IsBase91 table lat lon code c s t) : p.InRange where
  latitude := Latitude.isWithin_of_ofBase91? hp.latitude
  longitude := Longitude.isWithin_of_ofBase91? hp.longitude
  symbolTable := (SymbolTable.ofCompressedByte_eq_ok_iff.1 hp.symbolTable).1
  symbolCode := hp.graphic
  altitude := by simp [hp.altitude]
  precision := fun _ => hp.precision
  course := by
    obtain ⟨supplement, hread, hform⟩ := hp.form
    intro degrees knots hcourse
    unfold supplement? at hcourse
    rw [hform] at hcourse
    cases supplement with
    | none => cases hcourse
    | some parts =>
      obtain ⟨supplement, type⟩ := parts
      cases hcourse
      exact Supplement.course_of_ofBytes hread

theorem inRange_of_decode {b rest : Bytes} {p : Position R} (hdecode : decode b = .ok (p, rest)) :
    p.InRange := by
  rcases decode_ok hdecode with ⟨_, _, _, _, hp⟩ | ⟨_, _, _, _, _, _, _, _, _, _, hp⟩
  · exact hp.inRange
  · exact hp.inRange

/-- The altitude that a comment states does not change the rest of a position. -/
theorem InRange.withAltitude {p : Position R} (hp : p.InRange) (comment : Bytes) :
    { p with altitude := Altitude.scan comment }.InRange :=
  { hp with altitude := fun _ hscan => Altitude.le_of_scan hscan }

omit [Arithmetic R] in
/-- Only a position written out in degrees is followed by an extension. -/
theorem readExtension_eq_some {p : Position R} {b rest : Bytes} {extension : Extension}
    (hread : p.readExtension b = (some extension, rest)) :
    p.isCompressed = false ∧ extension.InRange := by
  unfold readExtension at hread
  split at hread
  case isTrue => cases hread
  case isFalse hform =>
    refine ⟨Bool.eq_false_iff.2 hform, ?_⟩
    split at hread
    case h_1 hdecode =>
      cases hread
      exact Extension.inRange_of_decode hdecode
    case h_2 => cases hread

end Position

end Aprs
