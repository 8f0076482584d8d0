import Aprs.Proofs.Symbol
import Aprs.Proofs.Width

namespace Aprs.Position

variable {R : Type}

/-- The characters of ASCII that print, without the space. -/
def IsGraphic (c : Char) : Prop := 0x21 ≤ c.toNat ∧ c.toNat ≤ 0x7E

instance : DecidablePred IsGraphic := fun c =>
  inferInstanceAs (Decidable (0x21 ≤ c.toNat ∧ c.toNat ≤ 0x7E))

theorem IsGraphic.ofUInt8_toUInt8 {c : Char} (hc : IsGraphic c) : Char.ofUInt8 c.toUInt8 = c := by
  obtain ⟨_, hlast⟩ := hc
  exact Latin1.ofUInt8_toUInt8 (by omega)

/-- A symbol code is read as its own character, and only if that is a graphic one. -/
theorem readSymbolCode_eq_ok_iff {block : Bytes} {code : UInt8} {c : Char} :
    readSymbolCode block code = .ok c ↔ IsGraphic c ∧ c = Char.ofUInt8 code := by
  have hgraphic : 0x21 ≤ code ∧ code ≤ 0x7E ↔ IsGraphic (Char.ofUInt8 code) := Iff.rfl
  unfold readSymbolCode
  split
  case isTrue hcode =>
    rw [Except.ok.injEq]
    constructor
    · rintro rfl
      exact ⟨hgraphic.1 hcode, rfl⟩
    · rintro ⟨_, rfl⟩
      rfl
  case isFalse hcode =>
    refine iff_of_false (by simp) ?_
    rintro ⟨hc, rfl⟩
    exact hcode (hgraphic.2 hc)

variable [Arithmetic R]

/-- A position that has a compressed form. -/
structure IsWritable (p : Position R) : Prop where
  latitude : Coordinate.isWithin 90 p.latitude.degrees
  longitude : Coordinate.isWithin 180 p.longitude.degrees
  symbolTable : p.symbolTable.HasIdentifier
  symbolCode : IsGraphic p.symbolCode

/-- A position says what its nineteen octets say, part by part. -/
structure IsText (p : Position R) (lat : Bytes) (table : UInt8) (lon : Bytes) (code : UInt8) :
    Prop where
  latitude : Latitude.ofText? (Latin1.decode lat) = some (p.latitude, p.precision)
  symbolTable : SymbolTable.ofByte table = .ok p.symbolTable
  longitude : Longitude.ofText? p.precision (Latin1.decode lon) = some p.longitude
  graphic : IsGraphic p.symbolCode
  symbolCode : p.symbolCode = Char.ofUInt8 code
  altitude : p.altitude = none
  form : p.form = .uncompressed

/-- Reading the parts of a position in degrees is the same as the position saying what they
say. -/
theorem ofText_eq_ok_iff {lat lon : Bytes} {table code : UInt8} {p : Position R} :
    ofText lat table lon code = .ok p ↔ p.IsText lat table lon code := by
  unfold ofText
  simp only [bind_eq_ok_iff, pure, Except.pure, Except.ok.injEq, elim_error_eq_ok_iff,
    readSymbolCode_eq_ok_iff]
  constructor
  · rintro ⟨⟨latitude, precision⟩, hlat, symbolTable, htable, longitude, hlon, code,
      ⟨hgraphic, hcode⟩, rfl⟩
    exact ⟨hlat, htable, hlon, hgraphic, hcode, rfl, rfl⟩
  · rintro ⟨hlat, htable, hlon, hgraphic, hcode, haltitude, hform⟩
    obtain ⟨latitude, longitude, precision, symbolTable, symbolCode, altitude, form⟩ := p
    subst haltitude hform
    exact ⟨_, hlat, symbolTable, htable, longitude, hlon, symbolCode, ⟨hgraphic, hcode⟩, rfl⟩

/-- A block that is read consists of the octets that its position says. -/
theorem ofTextBlock_ok {block : Bytes} {hblock : block.length = 19} {p : Position R}
    (hread : ofTextBlock block hblock = .ok p) :
    ∃ lat table lon code, lat.length = 8 ∧ lon.length = 9 ∧
      block = lat ++ table :: (lon ++ [code]) ∧ p.IsText lat table lon code := by
  have hparts : block.take 8 ++ block[8] :: (block.drop 9).take 9 ++ [block[18]] = block :=
    text_parts (by omega) (by omega)
  rw [List.append_assoc, List.cons_append] at hparts
  refine ⟨_, _, _, _, ?_, ?_, hparts.symm, ofText_eq_ok_iff.1 hread⟩
  · rw [List.length_take]
    omega
  · rw [List.length_take, List.length_drop]
    omega

/-- Nineteen octets are taken off, whatever follows them. -/
theorem decodeUncompressed_append {lat lon : Bytes} (hlat : lat.length = 8) (hlon : lon.length = 9)
    (table code : UInt8) (rest : Bytes) :
    decodeUncompressed (R := R) (lat ++ table :: (lon ++ code :: rest)) =
      (ofText lat table lon code).map (·, rest) := by
  match lat, hlat, lon, hlon with
  | [_, _, _, _, _, _, _, _], _, [_, _, _, _, _, _, _, _, _], _ =>
    unfold decodeUncompressed
    rw [dif_pos (by simp)]
    rfl

/-- A compressed position says what its thirteen octets say, part by part. -/
structure IsBase91 (p : Position R) (table : UInt8) (lat lon : Bytes) (code c s t : UInt8) :
    Prop where
  symbolTable : SymbolTable.ofCompressedByte table = .ok p.symbolTable
  latitude : Latitude.ofBase91? lat = some p.latitude
  longitude : Longitude.ofBase91? lon = some p.longitude
  graphic : IsGraphic p.symbolCode
  symbolCode : p.symbolCode = Char.ofUInt8 code
  precision : p.precision = .hundredthMinute
  altitude : p.altitude = none
  form : ∃ supplement, Supplement.ofBytes c s t = .ok supplement ∧ p.form = .compressed supplement

/-- Reading the parts of a compressed position is the same as the position saying what they
say. -/
theorem ofBase91_eq_ok_iff {lat lon : Bytes} {table code c s t : UInt8} {p : Position R} :
    ofBase91 table lat lon code c s t = .ok p ↔ p.IsBase91 table lat lon code c s t := by
  unfold ofBase91
  simp only [bind_eq_ok_iff, pure, Except.pure, Except.ok.injEq, elim_error_eq_ok_iff,
    readSymbolCode_eq_ok_iff]
  constructor
  · rintro ⟨symbolTable, htable, latitude, hlat, longitude, hlon, code, ⟨hgraphic, hcode⟩,
      supplement, hsupplement, rfl⟩
    exact ⟨htable, hlat, hlon, hgraphic, hcode, rfl, rfl, supplement, hsupplement, rfl⟩
  · rintro ⟨htable, hlat, hlon, hgraphic, hcode, hprecision, haltitude, supplement, hsupplement,
      hform⟩
    obtain ⟨latitude, longitude, precision, symbolTable, symbolCode, altitude, form⟩ := p
    subst hprecision haltitude hform
    exact ⟨symbolTable, htable, latitude, hlat, longitude, hlon, symbolCode, ⟨hgraphic, hcode⟩,
      supplement, hsupplement, rfl⟩

/-- A compressed block that is read consists of the octets that its position says. -/
theorem ofBase91Block_ok {block : Bytes} {hblock : block.length = 13} {p : Position R}
    (hread : ofBase91Block block hblock = .ok p) :
    ∃ table lat lon code c s t, lat.length = 4 ∧ lon.length = 4 ∧
      block = table :: (lat ++ (lon ++ [code, c, s, t])) ∧ p.IsBase91 table lat lon code c s t := by
  have hparts : block[0] :: (block.drop 1).take 4 ++ (block.drop 5).take 4 ++
      [block[9], block[10], block[11], block[12]] = block := base91_parts (by omega) (by omega)
  rw [List.cons_append, List.cons_append, List.append_assoc] at hparts
  refine ⟨_, _, _, _, _, _, _, ?_, ?_, hparts.symm, ofBase91_eq_ok_iff.1 hread⟩
  · rw [List.length_take, List.length_drop]
    omega
  · rw [List.length_take, List.length_drop]
    omega

/-- Thirteen octets are taken off, whatever follows them. -/
theorem decodeCompressed_append {lat lon : Bytes} (hlat : lat.length = 4) (hlon : lon.length = 4)
    (table code c s t : UInt8) (rest : Bytes) :
    decodeCompressed (R := R) (table :: (lat ++ (lon ++ code :: c :: s :: t :: rest))) =
      (ofBase91 table lat lon code c s t).map (·, rest) := by
  match lat, hlat, lon, hlon with
  | [_, _, _, _], _, [_, _, _, _], _ =>
    unfold decodeCompressed
    rw [dif_pos (by simp)]
    rfl

/-- An octet that names a table and is no digit begins a compressed position. -/
theorem decode_eq_decodeCompressed {first : UInt8} {table : SymbolTable}
    (hread : SymbolTable.ofCompressedByte first = .ok table)
    (hdigit : (Char.ofUInt8 first).isDigit = false) (rest : Bytes) :
    decode (R := R) (first :: rest) = decodeCompressed (first :: rest) := by
  have hok : (SymbolTable.ofCompressedByte first).isOk = true := by
    rw [hread]
    rfl
  rw [decode, if_neg (by simp [hdigit]), if_pos hok]

theorem decodeUncompressed_ok {b rest : Bytes} {p : Position R}
    (hdecode : decodeUncompressed b = .ok (p, rest)) :
    ∃ lat table lon code, lat.length = 8 ∧ lon.length = 9 ∧
      b = lat ++ table :: (lon ++ code :: rest) ∧ p.IsText lat table lon code := by
  rw [decodeUncompressed_readsBlock] at hdecode
  split at hdecode
  case isFalse => cases hdecode
  case isTrue =>
    obtain ⟨_, hread, heq⟩ := map_eq_ok_iff.1 hdecode
    obtain ⟨rfl, rfl⟩ := Prod.mk.inj heq
    obtain ⟨lat, table, lon, code, hlat, hlon, hblock, hp⟩ := ofTextBlock_ok hread
    refine ⟨lat, table, lon, code, hlat, hlon, ?_, hp⟩
    have hwhole := List.take_append_drop 19 b
    rw [hblock] at hwhole
    simpa using hwhole.symm

theorem decodeCompressed_ok {b rest : Bytes} {p : Position R}
    (hdecode : decodeCompressed b = .ok (p, rest)) :
    ∃ table lat lon code c s t, lat.length = 4 ∧ lon.length = 4 ∧
      b = table :: (lat ++ (lon ++ code :: c :: s :: t :: rest)) ∧
      p.IsBase91 table lat lon code c s t := by
  rw [decodeCompressed_readsBlock] at hdecode
  split at hdecode
  case isFalse => cases hdecode
  case isTrue =>
    obtain ⟨_, hread, heq⟩ := map_eq_ok_iff.1 hdecode
    obtain ⟨rfl, rfl⟩ := Prod.mk.inj heq
    obtain ⟨table, lat, lon, code, c, s, t, hlat, hlon, hblock, hp⟩ := ofBase91Block_ok hread
    refine ⟨table, lat, lon, code, c, s, t, hlat, hlon, ?_, hp⟩
    have hwhole := List.take_append_drop 13 b
    rw [hblock] at hwhole
    simpa using hwhole.symm

/-- What a position that was decoded was read from. -/
theorem decode_ok {b rest : Bytes} {p : Position R} (hdecode : decode b = .ok (p, rest)) :
    (∃ lat table lon code, p.IsText lat table lon code) ∨
    ∃ table lat lon code c s t, lat.length = 4 ∧ lon.length = 4 ∧
      b = table :: (lat ++ (lon ++ code :: c :: s :: t :: rest)) ∧
      p.IsBase91 table lat lon code c s t := by
  cases b with
  | nil => cases hdecode
  | cons first b =>
    simp only [decode] at hdecode
    split at hdecode
    case isTrue =>
      obtain ⟨lat, table, lon, code, _, _, _, hp⟩ := decodeUncompressed_ok hdecode
      exact .inl ⟨lat, table, lon, code, hp⟩
    case isFalse =>
      split at hdecode
      case isFalse => cases hdecode
      case isTrue => exact .inr (decodeCompressed_ok hdecode)

/-- A position that is not compressed begins with a digit. -/
theorem isDigit_of_decode {first : UInt8} {b rest : Bytes} {p : Position R}
    (hdecode : decode (first :: b) = .ok (p, rest)) (hform : p.form = .uncompressed) :
    (Char.ofUInt8 first).isDigit := by
  refine Decidable.byContradiction fun hfirst => ?_
  rw [decode, if_neg hfirst] at hdecode
  split at hdecode
  case isFalse => cases hdecode
  case isTrue =>
    obtain ⟨_, _, _, _, _, _, _, _, _, _, hp⟩ := decodeCompressed_ok hdecode
    obtain ⟨_, _, hcompressed⟩ := hp.form
    rw [hform] at hcompressed
    cases hcompressed

end Aprs.Position
