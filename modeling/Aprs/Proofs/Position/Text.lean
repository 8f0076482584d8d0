import Aprs.Proofs.Coordinate.Angle
import Aprs.Proofs.Position.Block

namespace Aprs.Position

/-- What nineteen octets say of a position, part by part. The digits that the sender left out are
blank in the latitude, and in the longitude whatever stands in their places is ignored. -/
structure TextBlock where
  precision : Precision
  latitude : Angle 6 precision.blanks 90
  symbolTable : SymbolTable
  longitude : Angle 7 precision.blanks 180
  ignored : Bytes
  symbolCode : Char
  hasIdentifier : symbolTable.HasIdentifier
  length_ignored : ignored.length = precision.blanks
  graphic : IsGraphic symbolCode

namespace TextBlock

/-- The text of the latitude, with a blank for each digit that was left out. -/
def latitudeText (block : TextBlock) : List Char :=
  block.latitude.text (List.replicate block.precision.blanks ' ') 'N' 'S'

/-- The text of the longitude, with the ignored octets in place of the digits that were left
out. -/
def longitudeText (block : TextBlock) : List Char :=
  block.longitude.text (Latin1.decode block.ignored) 'E' 'W'

/-- The octets of a block. The table stands between the coordinates and the code behind them. -/
def bytes (block : TextBlock) : Bytes :=
  Latin1.encode block.latitudeText ++ block.symbolTable.toChar.toUInt8 ::
    (Latin1.encode block.longitudeText ++ [block.symbolCode.toUInt8])

/-- The position that a block names. Nothing of it depends on what is ignored. -/
def position (block : TextBlock) : Position Exact where
  latitude := ⟨block.latitude.toExact⟩
  longitude := ⟨block.longitude.toExact⟩
  precision := block.precision
  symbolTable := block.symbolTable
  symbolCode := block.symbolCode
  altitude := none
  form := .uncompressed

/-- The same block with other octets where nothing counts. -/
def withIgnored (block : TextBlock) (ignored : Bytes)
    (hignored : ignored.length = block.precision.blanks) : TextBlock :=
  { block with ignored, length_ignored := hignored }

variable (block : TextBlock)

theorem decode_latitudeText :
    Latin1.decode (Latin1.encode block.latitudeText) = block.latitudeText := by
  refine Latin1.decode_encode (block.latitude.toNat_lt_of_mem_text ?_ (by decide) (by decide))
  intro c hc
  rw [List.eq_of_mem_replicate hc]
  decide

theorem decode_longitudeText :
    Latin1.decode (Latin1.encode block.longitudeText) = block.longitudeText :=
  Latin1.decode_encode (block.longitude.toNat_lt_of_mem_text
    (fun _ => Latin1.toNat_lt_of_mem_decode) (by decide) (by decide))

theorem length_latitudeText : (Latin1.encode block.latitudeText).length = 8 := by
  rw [Latin1.encode, List.length_map]
  exact block.latitude.length_text List.length_replicate (by decide) _ _

theorem length_longitudeText : (Latin1.encode block.longitudeText).length = 9 := by
  rw [Latin1.encode, List.length_map]
  refine block.longitude.length_text ?_ (by decide) _ _
  rw [Latin1.length_decode, block.length_ignored]

theorem length_bytes : block.bytes.length = 19 := by
  simp [bytes, block.length_latitudeText, block.length_longitudeText]

/-- A latitude has a digit in front also if all others are blank. -/
theorem head?_bytes : ∃ first ∈ block.bytes.head?, (Char.ofUInt8 first).isDigit := by
  obtain ⟨c, hc, hdigit⟩ := block.latitude.head?_text
    (Nat.lt_of_le_of_lt block.precision.blanks_le (by decide))
    (List.length_replicate (a := ' ')) (by decide) 'N' 'S'
  refine ⟨c.toUInt8, ?_, ?_⟩
  · rw [bytes, List.head?_append, Latin1.encode, List.head?_map, latitudeText, hc]
    rfl
  · rw [Latin1.ofUInt8_toUInt8 (Latin1.toNat_lt_of_isDigit hdigit)]
    exact hdigit

/-- The position of a block says what the octets of the block say. -/
theorem isText : block.position.IsText (Latin1.encode block.latitudeText)
    block.symbolTable.toChar.toUInt8 (Latin1.encode block.longitudeText)
    block.symbolCode.toUInt8 where
  latitude := by
    rw [decode_latitudeText]
    exact Latitude.ofText?_eq_some_iff.2 ⟨block.latitude, rfl, rfl⟩
  symbolTable := SymbolTable.ofByte_eq_ok_iff.2
    ⟨block.hasIdentifier, Latin1.ofUInt8_toUInt8 block.hasIdentifier.toNat_lt⟩
  longitude := by
    rw [decode_longitudeText]
    refine Longitude.ofText?_eq_some_iff.2 ⟨block.longitude, Latin1.decode block.ignored, ?_, rfl, rfl⟩
    rw [Latin1.length_decode, block.length_ignored]
    rfl
  graphic := block.graphic
  symbolCode := block.graphic.ofUInt8_toUInt8.symm
  altitude := rfl
  form := rfl

end TextBlock

/-- What was read as a position is a block with its octets. -/
theorem IsText.exists_block {p : Position Exact} {lat lon : Bytes} {table code : UInt8}
    (hp : p.IsText lat table lon code) :
    ∃ block : TextBlock, block.bytes = lat ++ table :: (lon ++ [code]) ∧ block.position = p := by
  obtain ⟨latitude, hlat, hlatitude⟩ := Latitude.ofText?_eq_some_iff.1 hp.latitude
  obtain ⟨longitude, ignored, hignored, hlon, hlongitude⟩ :=
    Longitude.ofText?_eq_some_iff.1 hp.longitude
  obtain ⟨hidentifier, htable⟩ := SymbolTable.ofByte_eq_ok_iff.1 hp.symbolTable
  have hcode : p.symbolCode.toUInt8 = code := by rw [hp.symbolCode, Latin1.toUInt8_ofUInt8]
  have hoctets : Latin1.decode (Latin1.encode ignored) = ignored := by
    refine Latin1.decode_encode fun c hc => Latin1.toNat_lt_of_mem_decode (b := lon) ?_
    rw [hlon]
    exact Coordinate.mem_withPoint_iff.2 (.inl (List.mem_append_right _ hc))
  refine ⟨{
    precision := p.precision, latitude, symbolTable := p.symbolTable, longitude,
    ignored := Latin1.encode ignored, symbolCode := p.symbolCode, hasIdentifier := hidentifier,
    length_ignored := ?_, graphic := hp.graphic }, ?_, ?_⟩
  · rw [Latin1.encode, List.length_map, hignored]
  · rw [TextBlock.bytes, TextBlock.latitudeText, TextBlock.longitudeText, hoctets, ← hlat, ← hlon,
      Latin1.encode_decode, Latin1.encode_decode, ← htable, Latin1.toUInt8_ofUInt8, hcode]
  · rw [TextBlock.position, ← hlatitude, ← hlongitude, ← hp.altitude, ← hp.form]

/-- A digit begins a position exactly if what follows it are the octets of a block. -/
theorem decode_digit_iff {first : UInt8} (hfirst : (Char.ofUInt8 first).isDigit) {b rest : Bytes}
    {p : Position Exact} :
    decode (first :: b) = .ok (p, rest) ↔
      ∃ block : TextBlock, first :: b = block.bytes ++ rest ∧ p = block.position := by
  rw [decode, if_pos hfirst]
  constructor
  · intro hdecode
    obtain ⟨lat, table, lon, code, _, _, hb, hp⟩ := decodeUncompressed_ok hdecode
    obtain ⟨block, hbytes, rfl⟩ := hp.exists_block
    exact ⟨block, by rw [hb, hbytes]; simp, rfl⟩
  · rintro ⟨block, hb, rfl⟩
    have hparts : block.bytes ++ rest = Latin1.encode block.latitudeText ++
        block.symbolTable.toChar.toUInt8 ::
          (Latin1.encode block.longitudeText ++ block.symbolCode.toUInt8 :: rest) := by
      simp [TextBlock.bytes]
    rw [hb, hparts,
      decodeUncompressed_append block.length_latitudeText block.length_longitudeText,
      ofText_eq_ok_iff.2 block.isText]
    rfl

/-- The octets of a block are a position, whatever follows them. -/
theorem TextBlock.decode_bytes (block : TextBlock) (rest : Bytes) :
    decode (block.bytes ++ rest) = .ok (block.position, rest) := by
  obtain ⟨first, hfirst, hdigit⟩ := block.head?_bytes
  obtain ⟨more, hbytes⟩ := List.head?_eq_some_iff.1 hfirst
  rw [hbytes, List.cons_append]
  exact (decode_digit_iff hdigit).2 ⟨block, by rw [hbytes, List.cons_append], rfl⟩

/-- The octets of a block are a position wherever they stand in a body. -/
theorem TextBlock.runAt_eq (block : TextBlock) {b : Bytes} {cursor : Nat}
    (hbytes : block.bytes <+: b.drop cursor) :
    decode.runAt b cursor = .ok (block.position, cursor + 19) := by
  obtain ⟨rest, hrest⟩ := hbytes
  refine Decoder.runAt_eq_ok_iff.2 ⟨rest, by rw [← hrest, block.decode_bytes], ?_⟩
  have hlength := congrArg List.length hrest
  rw [List.length_append, block.length_bytes, List.length_drop] at hlength
  omega

/-- Where a digit stands, a position is read exactly if the nineteen octets from there on are
those of a block, and it is the position that the block names. The octets that a block ignores
may be any. -/
theorem decode_text_iff {b : Bytes} {cursor : Nat} {first : UInt8}
    (hfirst : b[cursor]? = some first) (hdigit : (Char.ofUInt8 first).isDigit) :
    (∀ {p : Position Exact} {stop : Nat}, decode.runAt b cursor = .ok (p, stop) ↔
      ∃ block : TextBlock, block.bytes <+: b.drop cursor ∧ p = block.position ∧
        stop = cursor + 19) ∧
    ∀ {block : TextBlock} {ignored : Bytes} (hignored : ignored.length = block.precision.blanks),
      block.bytes <+: b.drop cursor →
        (decode (R := Exact)).runAt (b.take cursor ++
          ((block.withIgnored ignored hignored).bytes ++ b.drop (cursor + 19))) cursor =
        decode.runAt b cursor := by
  obtain ⟨hcursor, hget⟩ := List.getElem?_eq_some_iff.1 hfirst
  constructor
  · intro p stop
    constructor
    · intro hrun
      obtain ⟨rest, hdecode, hstop⟩ := Decoder.runAt_eq_ok_iff.1 hrun
      rw [List.drop_eq_getElem_cons hcursor, hget, decode_digit_iff hdigit] at hdecode
      obtain ⟨block, hblock, rfl⟩ := hdecode
      rw [← hget, ← List.drop_eq_getElem_cons] at hblock
      have hprefix : block.bytes <+: b.drop cursor := ⟨rest, hblock.symm⟩
      rw [block.runAt_eq hprefix, Except.ok.injEq, Prod.mk.injEq] at hrun
      exact ⟨block, hprefix, rfl, hrun.2.symm⟩
    · rintro ⟨block, hprefix, rfl, rfl⟩
      exact block.runAt_eq hprefix
  · intro block ignored hignored hprefix
    rw [block.runAt_eq hprefix]
    refine (block.withIgnored ignored hignored).runAt_eq ⟨b.drop (cursor + 19), ?_⟩
    rw [List.drop_left' (List.length_take_of_le hcursor.le)]

/-- Octets that are not even characters are ignored where the latitude has its blanks. -/
theorem decode_text_iff_ignored :
    let b := Latin1.ascii "=4903.  N/07201." ++ [0xFF, 0x00] ++ Latin1.ascii "W-Test"
    ∃ block : TextBlock, block.ignored = [0xFF, 0x00] ∧
      decode.runAt b 1 = .ok (block.position, 20) ∧ block.position.ambiguity = some 2 ∧
      block.position.latitude.degrees.value = 49 + 3 / 60 ∧
      block.position.longitude.degrees.value = -(72 + 1 / 60) := by
  intro b
  let block : TextBlock := {
    precision := .oneMinute
    latitude := ⟨"4903".toList, true, List.all_eq_true.1 rfl, rfl, by decide, by decide⟩
    symbolTable := .primary
    longitude := ⟨"07201".toList, false, List.all_eq_true.1 rfl, rfl, by decide, by decide⟩
    ignored := [0xFF, 0x00]
    symbolCode := '-'
    hasIdentifier := trivial
    length_ignored := rfl
    graphic := by decide }
  have hprefix : block.bytes <+: b.drop 1 := by decide +kernel
  refine ⟨block, rfl, ?_, by decide, by decide +kernel, by decide +kernel⟩
  exact (decode_text_iff (by rfl : b[1]? = some 0x34) (by decide)).1.2 ⟨block, hprefix, rfl, rfl⟩

end Aprs.Position
