import Aprs.Proofs.Coordinate
import Aprs.Proofs.Position.Block

namespace Aprs

open Arithmetic

/-- Digits that count no further than a coordinate goes, from pole to pole or once around. -/
def Base91.IsCoordinate (x : Bytes) : Prop := (∀ b ∈ x, IsDigit b) ∧ value x ≤ 68566680

instance : DecidablePred Base91.IsCoordinate := fun x =>
  inferInstanceAs (Decidable ((∀ b ∈ x, Base91.IsDigit b) ∧ Base91.value x ≤ 68566680))

theorem Base91.exists_decode?_iff {α : Type} {x : Bytes} {a : α} {f : Nat → α} :
    (∃ n, decode? x = some n ∧ n ≤ 68566680 ∧ a = f n) ↔ IsCoordinate x ∧ a = f (value x) := by
  simp only [decode?_eq_some_iff_value]
  constructor
  · intro ⟨n, ⟨hdigits, hn, _⟩, hlimit, ha⟩
    rw [hn] at hlimit ha
    exact ⟨⟨hdigits, hlimit⟩, ha⟩
  · intro ⟨⟨hdigits, hlimit⟩, ha⟩
    exact ⟨_, ⟨hdigits, rfl, by omega⟩, hlimit, ha⟩

/-- A latitude counts down from the north pole, and the equator has no sign. -/
theorem Latitude.ofBase91?_eq (x : Bytes) :
    (ofBase91? x : Option (Latitude Exact)) =
      if Base91.IsCoordinate x then some ⟨.ofValue (90 - Base91.value x / 380926) false⟩
      else none := by
  have hdegrees : (whole 90 - whole (Base91.value x) / whole 380926 : Exact) =
      .ofValue (90 - Base91.value x / 380926) false :=
    Exact.sub_eq_ofValue (Exact.negative_whole 90) _
  apply Option.ext
  intro latitude
  rw [ofBase91?_eq_some_iff, Base91.exists_decode?_iff, hdegrees, Option.ite_none_right_eq_some,
    Option.some.injEq, eq_comm (a := latitude)]

/-- A longitude counts up from the date line, and the prime meridian has no sign. -/
theorem Longitude.ofBase91?_eq (x : Bytes) :
    (ofBase91? x : Option (Longitude Exact)) =
      if Base91.IsCoordinate x then some ⟨.ofValue (Base91.value x / 190463 - 180) false⟩
      else none := by
  have hdegrees : (whole (Base91.value x) / whole 190463 - whole 180 : Exact) =
      .ofValue (Base91.value x / 190463 - 180) false :=
    Exact.sub_eq_ofValue (Exact.negative_div (Exact.negative_whole _) (Exact.negative_whole _)) _
  apply Option.ext
  intro longitude
  rw [ofBase91?_eq_some_iff, Base91.exists_decode?_iff, hdegrees, Option.ite_none_right_eq_some,
    Option.some.injEq, eq_comm (a := longitude)]

theorem CompressionType.ofBits_source_eq_gga_iff {n : Nat} :
    (ofBits n).source = .gga ↔ n / 8 % 4 = 2 := by
  simp only [ofBits]
  split
  case h_1 hsource => simp [hsource]
  case h_2 hsource => simp [hsource]
  case h_3 hsource => simp [hsource]
  case h_4 hgga => exact iff_of_false (by decide) hgga

namespace Position

/-- The thirteen octets of a compressed position, by their places. -/
structure Base91Block where
  table : UInt8
  latitude : Bytes
  longitude : Bytes
  code : UInt8
  c : UInt8
  s : UInt8
  t : UInt8
  length_latitude : latitude.length = 4
  length_longitude : longitude.length = 4

namespace Base91Block

variable (block : Base91Block)

/-- The octets of a block, in the order in which they are sent. -/
def bytes : Bytes :=
  block.table :: (block.latitude ++ (block.longitude ++ [block.code, block.c, block.s, block.t]))

theorem length_bytes : block.bytes.length = 13 := by
  rw [bytes, List.length_cons, List.length_append, List.length_append, block.length_latitude,
    block.length_longitude]
  rfl

/-- The last three octets mean nothing behind a space, and otherwise they are digits. -/
def HasSupplement : Prop :=
  block.c = 0x20 ∨ (Base91.IsDigit block.c ∧ Base91.IsDigit block.s ∧ Base91.IsDigit block.t)

/-- What the last three octets say. Bits 3 and 4 of the last one are looked at before the first
one is. -/
def supplement : Option (Supplement × CompressionType) :=
  let c := block.c.toNat - 0x21
  let s := block.s.toNat - 0x21
  let t := block.t.toNat - 0x21
  if block.c = 0x20 then none
  else if t / 8 % 4 = 2 then some (.altitude (Supplement.feet (91 * c + s)), .ofBits t)
  else if block.c = 0x7B then some (.radioRange (Supplement.miles s), .ofBits t)
  else some (.courseSpeed (4 * c) (Supplement.knots s), .ofBits t)

/-- The position that the octets name in a table. -/
def position (table : SymbolTable) : Position Exact where
  latitude := ⟨.ofValue (90 - Base91.value block.latitude / 380926) false⟩
  longitude := ⟨.ofValue (Base91.value block.longitude / 190463 - 180) false⟩
  precision := .hundredthMinute
  symbolTable := table
  symbolCode := Char.ofUInt8 block.code
  altitude := none
  form := .compressed block.supplement

/-- Octets that name a position in a table. -/
structure IsReadable : Prop where
  latitude : Base91.IsCoordinate block.latitude
  longitude : Base91.IsCoordinate block.longitude
  graphic : IsGraphic (Char.ofUInt8 block.code)
  supplement : block.HasSupplement

/-- Octets that do not, with the error for the first place that is wrong. -/
inductive Refuses : DecodeError → Prop
  | latitude (hlat : ¬ Base91.IsCoordinate block.latitude) : Refuses (.latitude block.latitude)
  | longitude (hlat : Base91.IsCoordinate block.latitude)
      (hlon : ¬ Base91.IsCoordinate block.longitude) : Refuses (.longitude block.longitude)
  | symbolCode (hlat : Base91.IsCoordinate block.latitude)
      (hlon : Base91.IsCoordinate block.longitude) (hcode : ¬ IsGraphic (Char.ofUInt8 block.code)) :
      Refuses (.position block.bytes)
  | supplement (hlat : Base91.IsCoordinate block.latitude)
      (hlon : Base91.IsCoordinate block.longitude) (hcode : IsGraphic (Char.ofUInt8 block.code))
      (hsupplement : ¬ block.HasSupplement) : Refuses (.courseSpeed block.c block.s)

theorem isReadable_or_refuses : block.IsReadable ∨ ∃ error, block.Refuses error := by
  by_cases hlat : Base91.IsCoordinate block.latitude
  case neg => exact .inr ⟨_, .latitude hlat⟩
  by_cases hlon : Base91.IsCoordinate block.longitude
  case neg => exact .inr ⟨_, .longitude hlat hlon⟩
  by_cases hcode : IsGraphic (Char.ofUInt8 block.code)
  case neg => exact .inr ⟨_, .symbolCode hlat hlon hcode⟩
  by_cases hsupplement : block.HasSupplement
  case neg => exact .inr ⟨_, .supplement hlat hlon hcode hsupplement⟩
  exact .inl ⟨hlat, hlon, hcode, hsupplement⟩

variable {block}

/-- The last three octets are read as what they say, if they are digits or say nothing. -/
theorem ofBytes_of_hasSupplement (hsupplement : block.HasSupplement) :
    Supplement.ofBytes block.c block.s block.t = .ok block.supplement := by
  unfold Supplement.ofBytes supplement
  by_cases hspace : block.c = 0x20
  case pos => rw [if_pos hspace, if_pos hspace]
  case neg =>
    obtain ⟨hc, hs, ht⟩ := hsupplement.resolve_left hspace
    have hrange : block.c.toNat - 0x21 = 90 ↔ block.c = 0x7B := by
      have hlast : block.c = 0x7B ↔ block.c.toNat = 123 := UInt8.toNat_inj.symm
      obtain ⟨hlow, hhigh⟩ := hc
      rw [hlast]
      omega
    rw [if_neg hspace, if_neg hspace, Base91.digit?_eq_some_iff_isDigit.2 ⟨hc, rfl⟩,
      Base91.digit?_eq_some_iff_isDigit.2 ⟨hs, rfl⟩, Base91.digit?_eq_some_iff_isDigit.2 ⟨ht, rfl⟩]
    simp only [Supplement.ofDigits, CompressionType.ofBits_source_eq_gga_iff, hrange]
    split
    case isTrue => rfl
    case isFalse => split <;> rfl

theorem ofBytes_of_not_hasSupplement (hsupplement : ¬ block.HasSupplement) :
    Supplement.ofBytes block.c block.s block.t = .error (.courseSpeed block.c block.s) := by
  obtain ⟨hspace, hdigits⟩ := not_or.1 hsupplement
  unfold Supplement.ofBytes
  rw [if_neg hspace]
  split
  case h_1 hc hs ht =>
    rw [Base91.digit?_eq_some_iff_isDigit] at hc hs ht
    exact absurd ⟨hc.1, hs.1, ht.1⟩ hdigits
  case h_2 => rfl

section Read

variable {table : SymbolTable} (hname : SymbolTable.CompressedName block.table table)

include hname

/-- A readable block is the position that it names. -/
theorem ofBase91_of_isReadable (hreadable : block.IsReadable) :
    ofBase91 block.table block.latitude block.longitude block.code block.c block.s block.t =
      .ok (block.position table) := by
  rw [ofBase91_eq_ok_iff]
  constructor
  case symbolTable => exact hname.ofCompressedByte_eq.1
  case latitude => rw [Latitude.ofBase91?_eq, if_pos hreadable.latitude]; rfl
  case longitude => rw [Longitude.ofBase91?_eq, if_pos hreadable.longitude]; rfl
  case graphic => exact hreadable.graphic
  case symbolCode => rfl
  case precision => rfl
  case altitude => rfl
  case form => exact ⟨_, ofBytes_of_hasSupplement hreadable.supplement, rfl⟩

/-- Each refused block has the error of the first of its parts that is wrong. -/
theorem ofBase91_of_refuses {error : DecodeError} (hrefuses : block.Refuses error) :
    ofBase91 (R := Exact) block.table block.latitude block.longitude block.code block.c block.s
      block.t = .error error := by
  rw [ofBase91, hname.ofCompressedByte_eq.1, ok_bind, Latitude.ofBase91?_eq, Longitude.ofBase91?_eq]
  cases hrefuses with
  | latitude hlat =>
    rw [if_neg hlat]
    rfl
  | longitude hlat hlon =>
    rw [if_pos hlat, if_neg hlon]
    rfl
  | symbolCode hlat hlon hcode =>
    have hread (octets : Bytes) : readSymbolCode octets block.code = .error (.position octets) :=
      if_neg hcode
    rw [if_pos hlat, if_pos hlon, hread]
    simp only [bytes, List.cons_append, List.append_assoc]
    rfl
  | supplement hlat hlon hcode hsupplement =>
    rw [if_pos hlat, if_pos hlon, readSymbolCode_eq_ok_iff.2 ⟨hcode, rfl⟩,
      ofBytes_of_not_hasSupplement hsupplement]
    rfl

/-- Thirteen octets are decoded, whatever follows them. -/
theorem decode_bytes_append (rest : Bytes) :
    decode (R := Exact) (block.bytes ++ rest) =
      (ofBase91 block.table block.latitude block.longitude block.code block.c block.s block.t).map
        (·, rest) := by
  obtain ⟨hread, hdigit⟩ := hname.ofCompressedByte_eq
  rw [← decodeCompressed_append block.length_latitude block.length_longitude,
    ← decode_eq_decodeCompressed hread hdigit]
  simp only [bytes, List.cons_append, List.append_assoc, List.nil_append]

theorem runAt_of_isReadable {b : Bytes} {cursor : Nat} (hblock : block.bytes <+: b.drop cursor)
    (hreadable : block.IsReadable) : decode.runAt b cursor = .ok (block.position table, cursor + 13) := by
  obtain ⟨rest, hrest⟩ := hblock
  refine Decoder.runAt_eq_ok_iff.2 ⟨rest, ?_, ?_⟩
  · rw [← hrest, decode_bytes_append hname, ofBase91_of_isReadable hname hreadable]
    rfl
  · have hlength := congrArg List.length hrest
    rw [List.length_append, block.length_bytes, List.length_drop] at hlength
    omega

theorem runAt_of_refuses {b : Bytes} {cursor : Nat} (hblock : block.bytes <+: b.drop cursor)
    {error : DecodeError} (hrefuses : block.Refuses error) :
    (decode (R := Exact)).runAt b cursor = .error error := by
  obtain ⟨rest, hrest⟩ := hblock
  refine Decoder.runAt_eq_error_iff.2 ⟨error, ?_, ?_⟩
  · rw [← hrest, decode_bytes_append hname, ofBase91_of_refuses hname hrefuses]
    rfl
  · cases hrefuses <;> rfl

end Read

/-- Thirteen octets are always the octets of some block. -/
theorem exists_bytes_append {b : Bytes} (hlength : 13 ≤ b.length) :
    ∃ block : Base91Block, ∃ rest, b = block.bytes ++ rest := by
  have htake : (b.take 13).length = 13 := List.length_take_of_le hlength
  have hlast : 12 < (b.take 13).length := by omega
  have hparts := base91_parts hlast (Nat.le_of_eq htake)
  let block : Base91Block := {
    table := (b.take 13)[0]
    latitude := ((b.take 13).drop 1).take 4
    longitude := ((b.take 13).drop 5).take 4
    code := (b.take 13)[9]
    c := (b.take 13)[10]
    s := (b.take 13)[11]
    t := (b.take 13)[12]
    length_latitude := by rw [List.length_take, List.length_drop]; omega
    length_longitude := by rw [List.length_take, List.length_drop]; omega }
  have hbytes : block.bytes = b.take 13 := by
    rw [bytes, ← hparts]
    simp only [block, List.cons_append, List.append_assoc]
  exact ⟨block, b.drop 13, by rw [hbytes, List.take_append_drop]⟩

end Base91Block

/-- What becomes of the octets from a cursor on at which a table is named. -/
inductive Base91Outcome (b : Bytes) (cursor : Nat) (table : SymbolTable) :
    Except DecodeError (Position Exact × Nat) → Prop
  | short (hshort : b.length < cursor + 13) :
      Base91Outcome b cursor table (.error (.position (b.drop cursor)))
  | refused {block : Base91Block} {error : DecodeError} (hblock : block.bytes <+: b.drop cursor)
      (hrefuses : block.Refuses error) : Base91Outcome b cursor table (.error error)
  | read {block : Base91Block} (hblock : block.bytes <+: b.drop cursor)
      (hreadable : block.IsReadable) :
      Base91Outcome b cursor table (.ok (block.position table, cursor + 13))

section Cursor

variable {b : Bytes} {cursor : Nat} {first : UInt8} {table : SymbolTable}

/-- Every place of a body has one of these results. -/
theorem Base91Outcome.exists_result (b : Bytes) (cursor : Nat) (table : SymbolTable) :
    ∃ result, Base91Outcome b cursor table result := by
  by_cases hlength : cursor + 13 ≤ b.length
  case neg => exact ⟨_, .short (by omega)⟩
  have hroom : 13 ≤ (b.drop cursor).length := by
    rw [List.length_drop]
    omega
  obtain ⟨block, rest, hrest⟩ := Base91Block.exists_bytes_append hroom
  have hblock : block.bytes <+: b.drop cursor := ⟨rest, hrest.symm⟩
  cases block.isReadable_or_refuses with
  | inl hreadable => exact ⟨_, .read hblock hreadable⟩
  | inr hrefuses =>
    obtain ⟨error, herror⟩ := hrefuses
    exact ⟨_, .refused hblock herror⟩

/-- The name of a table with too few octets behind it is refused with all that is there. -/
theorem runAt_of_short (hfirst : b[cursor]? = some first)
    (hname : SymbolTable.CompressedName first table) (hshort : b.length < cursor + 13) :
    (decode (R := Exact)).runAt b cursor = .error (.position (b.drop cursor)) := by
  obtain ⟨hcursor, hget⟩ := List.getElem?_eq_some_iff.1 hfirst
  obtain ⟨hread, hdigit⟩ := hname.ofCompressedByte_eq
  have hdrop : b.drop cursor = first :: b.drop (cursor + 1) := by
    rw [List.drop_eq_getElem_cons hcursor, hget]
  have hroom : ¬ 13 ≤ (b.drop cursor).length := by
    rw [List.length_drop]
    omega
  refine Decoder.runAt_eq_error_iff.2 ⟨.position (b.drop cursor), ?_, rfl⟩
  rw [hdrop] at hroom ⊢
  rw [decode_eq_decodeCompressed hread hdigit, decodeCompressed, dif_neg hroom]

/-- Where a table of compressed positions is named, a position is read exactly if thirteen octets
are there, their coordinates count no further than a coordinate goes, the symbol code prints and
the last three octets are digits or follow a space. Otherwise the error is that of the first of
these that fails. -/
theorem decode_base91_iff (hfirst : b[cursor]? = some first)
    (hname : SymbolTable.CompressedName first table)
    {result : Except DecodeError (Position Exact × Nat)} :
    decode.runAt b cursor = result ↔ Base91Outcome b cursor table result := by
  have hruns {actual} (houtcome : Base91Outcome b cursor table actual) :
      decode.runAt b cursor = actual := by
    have hnamed {block : Base91Block} (hblock : block.bytes <+: b.drop cursor) :
        SymbolTable.CompressedName block.table table := by
      obtain ⟨hcursor, hget⟩ := List.getElem?_eq_some_iff.1 hfirst
      rw [List.drop_eq_getElem_cons hcursor, hget] at hblock
      rw [(List.cons_prefix_cons.1 hblock).1]
      exact hname
    cases houtcome with
    | short hshort => exact runAt_of_short hfirst hname hshort
    | refused hblock hrefuses => exact Base91Block.runAt_of_refuses (hnamed hblock) hblock hrefuses
    | read hblock hreadable =>
      exact Base91Block.runAt_of_isReadable (hnamed hblock) hblock hreadable
  -- There always is an outcome, so a result that was run into can only be that one.
  constructor
  · intro hrun
    obtain ⟨actual, houtcome⟩ := Base91Outcome.exists_result b cursor table
    rw [← hrun, hruns houtcome]
    exact houtcome
  · exact hruns

end Cursor

/-- An overlay with a digit in front of a range, and a latitude that is past the south pole by
digits alone. -/
theorem decode_base91_iff_range :
    (∃ p : Position Exact, decode.runAt (Latin1.ascii "=a5L!!<*e7>\x7b?!x") 1 = .ok (p, 14) ∧
      p.symbolTable = .overlay '0' ∧ p.latitude.degrees.value = 99 / 2 ∧
      p.supplement? = some (.radioRange (Supplement.miles 30))) ∧
    (decode (R := Exact)).runAt (Latin1.ascii "=/\x7b\x7b\x7b\x7b\x7b\x7b\x7b\x7b> sT") 1 =
      .error (.latitude (Latin1.ascii "\x7b\x7b\x7b\x7b")) := by
  let range : Base91Block :=
    ⟨0x61, Latin1.ascii "5L!!", Latin1.ascii "<*e7", 0x3E, 0x7B, 0x3F, 0x21, rfl, rfl⟩
  let past : Bytes := Latin1.ascii "\x7b\x7b\x7b\x7b"
  let pole : Base91Block := ⟨0x2F, past, past, 0x3E, 0x20, 0x73, 0x54, rfl, rfl⟩
  have hreadable : range.IsReadable :=
    ⟨by decide +kernel, by decide +kernel, by decide, .inr (by decide)⟩
  have hrange : range.bytes <+: (Latin1.ascii "=a5L!!<*e7>\x7b?!x").drop 1 :=
    ⟨Latin1.ascii "x", rfl⟩
  have hpole : pole.bytes <+: (Latin1.ascii "=/\x7b\x7b\x7b\x7b\x7b\x7b\x7b\x7b> sT").drop 1 :=
    ⟨[], rfl⟩
  have hlat : ¬ Base91.IsCoordinate past := by decide +kernel
  have hname : SymbolTable.CompressedName 0x61 (.overlay '0') := .digit (by decide) (by decide)
  constructor
  · refine ⟨range.position (.overlay '0'), ?_, rfl, by decide +kernel, by decide +kernel⟩
    exact (decode_base91_iff rfl hname).2 (.read hrange hreadable)
  · exact (decode_base91_iff rfl .primary).2 (.refused hpole (.latitude hlat))

end Position

end Aprs
