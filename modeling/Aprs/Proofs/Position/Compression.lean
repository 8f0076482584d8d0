import Aprs.Proofs.Coordinate
import Aprs.Proofs.Position.Block
import Aprs.Proofs.Utf8.WellFormed

namespace Aprs.Position

/-- A character that prints is one octet. -/
theorem IsGraphic.utf8EncodeChar_eq {c : Char} (hc : IsGraphic c) :
    String.utf8EncodeChar c = [c.toUInt8] := by
  have hchar := hc.ofUInt8_toUInt8
  have hsmall : c.toUInt8 < 0x80 := by
    obtain ⟨_, hlast⟩ := hc
    rw [← hchar] at hlast
    exact Nat.lt_succ_of_le (Nat.le_succ_of_le hlast)
  rw [← Utf8.utf8EncodeChar_ofUInt8 hsmall, hchar]

section Layout

variable {R : Type} [Arithmetic R] {p : Position R}

theorem compress_eq (hcode : IsGraphic p.symbolCode) :
    p.compress = p.symbolTable.compressedByte :: (p.latitude.toBase91 ++
      (p.longitude.toBase91 ++ p.symbolCode.toUInt8 :: Latin1.ascii " sT")) := by
  unfold compress
  rw [hcode.utf8EncodeChar_eq]
  simp

theorem length_compress (hcode : IsGraphic p.symbolCode) : p.compress.length = 13 := by
  rw [compress_eq hcode, List.length_cons, List.length_append, List.length_append,
    p.latitude.length_toBase91, p.longitude.length_toBase91]
  rfl

/-- The identifier of a compressed position is never taken for the first digit of a latitude. -/
theorem decode_compressedByte {table : SymbolTable} (htable : table.HasIdentifier) (rest : Bytes) :
    decode (R := R) (table.compressedByte :: rest) =
      decodeCompressed (table.compressedByte :: rest) := by
  obtain ⟨hread, hdigit⟩ := SymbolTable.ofCompressedByte_compressedByte htable
  exact decode_eq_decodeCompressed hread hdigit rest

/-- What is read back of a compressed position, if its digits are coordinates. -/
theorem decode_compress {latitude : Latitude R} {longitude : Longitude R}
    (htable : p.symbolTable.HasIdentifier) (hcode : IsGraphic p.symbolCode)
    (hlat : Latitude.ofBase91? p.latitude.toBase91 = some latitude)
    (hlon : Longitude.ofBase91? p.longitude.toBase91 = some longitude) :
    decode.runAt p.compress 0 = .ok ({
      latitude, longitude, precision := .hundredthMinute, symbolTable := p.symbolTable,
      symbolCode := p.symbolCode, altitude := none, form := .compressed none }, 13) := by
  have hparts : ofBase91 p.symbolTable.compressedByte p.latitude.toBase91 p.longitude.toBase91
      p.symbolCode.toUInt8 0x20 0x73 0x54 = .ok {
        latitude, longitude, precision := .hundredthMinute, symbolTable := p.symbolTable,
        symbolCode := p.symbolCode, altitude := none, form := .compressed none } :=
    ofBase91_eq_ok_iff.2 {
      symbolTable := (SymbolTable.ofCompressedByte_compressedByte htable).1
      latitude := hlat
      longitude := hlon
      graphic := hcode
      symbolCode := hcode.ofUInt8_toUInt8.symm
      precision := rfl
      altitude := rfl
      form := ⟨none, rfl, rfl⟩ }
  refine Decoder.runAt_eq_ok_iff.2 ⟨[], ?_, by rw [length_compress hcode]; rfl⟩
  have hsuffix : Latin1.ascii " sT" = [0x20, 0x73, 0x54] := rfl
  rw [List.drop_zero, compress_eq hcode, decode_compressedByte htable, hsuffix,
    decodeCompressed_append p.latitude.length_toBase91 p.longitude.length_toBase91, hparts]
  rfl

end Layout

/-- The position that a compressed form gives back: the coordinates are at most half a step
away, and what the form has no room for is lost. -/
structure IsNearest (p found : Position Exact) : Prop where
  latitude : |found.latitude.degrees.value - p.latitude.degrees.value| ≤ 1 / (2 * 380926)
  longitude : |found.longitude.degrees.value - p.longitude.degrees.value| ≤ 1 / (2 * 190463)
  symbolTable : found.symbolTable = p.symbolTable
  symbolCode : found.symbolCode = p.symbolCode
  precision : found.precision = .hundredthMinute
  altitude : found.altitude = none
  form : found.form = .compressed none

/-- Every position that has a compressed form is read back from it, from the poles to the date
line. Neither coordinate needs more digits than there are, and an overlay is never taken for a
position written out in degrees. -/
theorem compress_readsBack {p : Position Exact} (hp : p.IsWritable) :
    p.compress.length = 13 ∧
      (∃ found, decode.runAt p.compress 0 = .ok (found, 13) ∧ p.IsNearest found) ∧
      p.latitude.units < 91 ^ 4 ∧ p.longitude.units < 91 ^ 4 ∧
      ∃ first, p.compress.head? = some first ∧ (Char.ofUInt8 first).isDigit = false := by
  obtain ⟨hlatRoom, latitude, hlat, hlatNear⟩ := Latitude.ofBase91?_toBase91 hp.latitude
  obtain ⟨hlonRoom, longitude, hlon, hlonNear⟩ := Longitude.ofBase91?_toBase91 hp.longitude
  refine ⟨length_compress hp.symbolCode,
    ⟨_, decode_compress hp.symbolTable hp.symbolCode hlat hlon, ?_⟩, hlatRoom, hlonRoom,
    p.symbolTable.compressedByte, ?_, ?_⟩
  · exact ⟨hlatNear, hlonNear, rfl, rfl, rfl, rfl, rfl⟩
  · rw [compress_eq hp.symbolCode]
    rfl
  · exact (SymbolTable.ofCompressedByte_compressedByte hp.symbolTable).2

/-- A pole on the date line is at the far end of both coordinates. What was said of the place in
other forms is not kept. -/
theorem compress_readsBack_pole :
    let p : Position Exact := {
      latitude := ⟨.ofValue (-90) false⟩, longitude := ⟨.ofValue 180 false⟩,
      precision := .tenDegrees, symbolTable := .overlay '7', symbolCode := '~',
      altitude := some 9000, form := .uncompressed }
    p.IsWritable ∧ p.compress = Latin1.ascii "h\x7b\x7b!!\x7b\x7b!!~ sT" ∧
      ∃ found, decode.runAt p.compress 0 = .ok (found, 13) ∧ p.IsNearest found := by
  intro p
  have hp : p.IsWritable := ⟨by decide, by decide, by decide, by decide⟩
  obtain ⟨_, hfound, _⟩ := compress_readsBack hp
  exact ⟨hp, by decide +kernel, hfound⟩

theorem IsBase91.compress_eq {p : Position Exact} {lat lon : Bytes} {table code c s t : UInt8}
    (hlat : lat.length = 4) (hlon : lon.length = 4) (hp : p.IsBase91 table lat lon code c s t) :
    p.compress = table :: (lat ++ (lon ++ code :: Latin1.ascii " sT")) := by
  rw [Position.compress_eq hp.graphic, hp.symbolCode, Latin1.toUInt8_ofUInt8,
    (SymbolTable.ofCompressedByte_eq_ok_iff.1 hp.symbolTable).2,
    Latitude.toBase91_of_ofBase91? hlat hp.latitude,
    Longitude.toBase91_of_ofBase91? hlon hp.longitude]

/-- A compressed position is written with the ten octets that it was read from. -/
theorem IsBase91.compress_eq_take {p : Position Exact} {lat lon rest : Bytes}
    {table code c s t : UInt8} (hlat : lat.length = 4) (hlon : lon.length = 4)
    (hp : p.IsBase91 table lat lon code c s t) :
    p.compress =
      (table :: (lat ++ (lon ++ code :: rest))).take 10 ++ Latin1.ascii " sT" := by
  have hfront (rest : Bytes) : table :: (lat ++ (lon ++ code :: rest)) =
      (table :: (lat ++ (lon ++ [code]))) ++ rest := by simp
  have hten : (table :: (lat ++ (lon ++ [code]))).length = 10 := by simp [hlat, hlon]
  rw [hp.compress_eq hlat hlon, hfront, hfront rest, List.take_left' hten]

/-- Only the supplement of a compressed position is lost when it is written and read again. -/
theorem IsBase91.decode_compress {p : Position Exact} {lat lon : Bytes} {table code c s t : UInt8}
    (hlat : lat.length = 4) (hlon : lon.length = 4) (hp : p.IsBase91 table lat lon code c s t) :
    decode.runAt p.compress 0 = .ok ({ p with form := .compressed none }, 13) := by
  have htable := (SymbolTable.ofCompressedByte_eq_ok_iff.1 hp.symbolTable).1
  have hlatitude : Latitude.ofBase91? p.latitude.toBase91 = some p.latitude := by
    rw [Latitude.toBase91_of_ofBase91? hlat hp.latitude, hp.latitude]
  have hlongitude : Longitude.ofBase91? p.longitude.toBase91 = some p.longitude := by
    rw [Longitude.toBase91_of_ofBase91? hlon hp.longitude, hp.longitude]
  rw [hp.precision, hp.altitude]
  exact Position.decode_compress htable hp.graphic hlatitude hlongitude

/-- A compressed position is written with the ten octets that it was read from, and is the same
when it is read again, but for its supplement. So no two ways to write a table, a latitude or a
longitude are read alike. -/
theorem compress_restores :
    (∀ {b : Bytes} {cursor stop : Nat} {p : Position Exact},
      decode.runAt b cursor = .ok (p, stop) → p.isCompressed →
        stop = cursor + 13 ∧ stop ≤ b.length ∧
        p.compress = (b.drop cursor).take 10 ++ Latin1.ascii " sT" ∧
        ∃ again, decode.runAt p.compress 0 = .ok (again, 13) ∧
          again = { p with form := .compressed none } ∧ again.compress = p.compress) ∧
    (∀ {a b : UInt8} {table : SymbolTable},
      SymbolTable.ofCompressedByte a = .ok table → SymbolTable.ofCompressedByte b = .ok table →
        a = b) ∧
    (∀ {a b : Bytes} {latitude : Latitude Exact}, a.length = 4 → b.length = 4 →
      Latitude.ofBase91? a = some latitude → Latitude.ofBase91? b = some latitude → a = b) ∧
    (∀ {a b : Bytes} {longitude : Longitude Exact}, a.length = 4 → b.length = 4 →
      Longitude.ofBase91? a = some longitude → Longitude.ofBase91? b = some longitude → a = b) := by
  refine ⟨?position, ?table, ?latitude, ?longitude⟩
  case position =>
    intro b cursor stop p hrun hform
    obtain ⟨hstop, hlength, hdecode⟩ := decode_takes.runAt_ok p.width_pos hrun
    rcases decode_ok hdecode with ⟨_, _, _, _, htext⟩ | ⟨_, _, _, _, _, _, _, hlat, hlon, hb, hp⟩
    · simp [isCompressed, htext.form] at hform
    · obtain ⟨supplement, _, hsupplement⟩ := hp.form
      have hwidth : p.width = 13 := by
        rw [width, hsupplement]
        rfl
      rw [hwidth] at hstop
      rw [hb]
      exact ⟨hstop, hlength, hp.compress_eq_take hlat hlon, _, hp.decode_compress hlat hlon, rfl,
        rfl⟩
  case table =>
    intro a b table ha hb
    rw [← (SymbolTable.ofCompressedByte_eq_ok_iff.1 ha).2,
      (SymbolTable.ofCompressedByte_eq_ok_iff.1 hb).2]
  case latitude =>
    intro a b latitude hlengthA hlengthB ha hb
    rw [← Latitude.toBase91_of_ofBase91? hlengthA ha, Latitude.toBase91_of_ofBase91? hlengthB hb]
  case longitude =>
    intro a b longitude hlengthA hlengthB ha hb
    rw [← Longitude.toBase91_of_ofBase91? hlengthA ha, Longitude.toBase91_of_ofBase91? hlengthB hb]

/-- A digit over a symbol comes back as the letter that it was sent as. -/
theorem compress_restores_overlay :
    let b := Latin1.ascii "@j5L!!<*e7>7P[x"
    ∃ p : Position Exact, decode.runAt b 1 = .ok (p, 14) ∧ p.isCompressed ∧
      p.symbolTable = .overlay '9' ∧ p.compress = Latin1.ascii "j5L!!<*e7> sT" := by
  intro b
  have hread : ((decode (R := Exact)).runAt b 1).toOption.any fun (p, stop) =>
      p.isCompressed ∧ p.symbolTable = .overlay '9' ∧ stop = 14 := by decide +kernel
  obtain ⟨⟨p, stop⟩, hrun, hparts⟩ := (Option.any_eq_true _ _).1 hread
  obtain ⟨hform, htable, rfl⟩ := of_decide_eq_true hparts
  have hrun := toOption_eq_some_iff.1 hrun
  obtain ⟨_, _, hcompress, _⟩ := compress_restores.1 hrun hform
  exact ⟨p, hrun, hform, htable, hcompress⟩

end Aprs.Position
