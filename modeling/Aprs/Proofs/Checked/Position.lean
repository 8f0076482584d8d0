import Aprs.Proofs.Checked.Field

namespace Aprs

open Checked

variable {R : Type} [Arithmetic R]

namespace Latitude

/-- Reads `ddmm.hhN`, with the point and the side looked at before the digits. -/
def parse (b : Bytes) : Checked (Latitude R × Precision) := do
  let text := Latin1.decode b
  let point ← index text 4
  let side ← index text 7
  let d₁ ← index text 0
  let d₂ ← index text 1
  let m₁ ← index text 2
  let m₂ ← index text 3
  let h₁ ← index text 5
  let h₂ ← index text 6
  orThrow (.latitude b) (ofText? [d₁, d₂, m₁, m₂, point, h₁, h₂, side])

theorem parse_eq {b : Bytes} (hb : b.length = 8) :
    parse b = orThrow (.latitude b) (ofText? (R := R) (Latin1.decode b)) := by
  unfold parse
  have htext := Latin1.length_decode b
  rw [hb] at htext
  match Latin1.decode b, htext with
  | [_, _, _, _, _, _, _, _], _ => rfl

end Latitude

namespace Longitude

/-- Reads `dddmm.hhE`. The digits are put side by side first, and then as many of them as the
latitude left blank become zeros. -/
def parse (precision : Precision) (b : Bytes) : Checked (Longitude R) := do
  let text := Latin1.decode b
  let point ← index text 5
  let side ← index text 8
  let digits := (← slice text 0 5) ++ (← slice text 6 8)
  let keep ← retreat 7 precision.blanks
  let blanks ← tail digits keep
  let digits := digits.take keep ++ blanks.map fun _ => '0'
  let degrees ← slice digits 0 3
  let minutes ← slice digits 3 5
  let hundredths ← slice digits 5 7
  orThrow (.longitude b)
    (ofText? precision (degrees ++ minutes ++ point :: hundredths ++ [side]))

/-- Making the blank digits zeros changes nothing in what is read. -/
theorem ofText?_blanks (precision : Precision) (d₁ d₂ d₃ m₁ m₂ point h₁ h₂ side : Char) :
    let places := [d₁, d₂, d₃, m₁, m₂, h₁, h₂]
    let digits := places.take (7 - precision.blanks) ++
      (places.drop (7 - precision.blanks)).map fun _ => '0'
    ofText? (R := R) precision ((digits.take 3).drop 0 ++ (digits.take 5).drop 3 ++
        point :: (digits.take 7).drop 5 ++ [side]) =
      ofText? precision [d₁, d₂, d₃, m₁, m₂, point, h₁, h₂, side] := by
  by_cases hpoint : point = '.'
  · subst hpoint
    cases precision <;> rfl
  · unfold ofText?
    cases precision <;> simp [Precision.blanks, hpoint]

/-- Nine octets have all the places of a longitude that are looked at, and no more digits count
for nothing than there are. -/
theorem parse_eq (precision : Precision) {b : Bytes} (hb : b.length = 9) :
    parse precision b = orThrow (.longitude b) (ofText? (R := R) precision (Latin1.decode b)) := by
  have hblanks : precision.blanks ≤ 7 := by cases precision <;> decide
  unfold parse
  have htext := Latin1.length_decode b
  rw [hb] at htext
  match Latin1.decode b, htext with
  | [d₁, d₂, d₃, m₁, m₂, point, h₁, h₂, side], _ =>
    have hpoint : index [d₁, d₂, d₃, m₁, m₂, point, h₁, h₂, side] 5 = done (.ok point) := rfl
    have hside : index [d₁, d₂, d₃, m₁, m₂, point, h₁, h₂, side] 8 = done (.ok side) := rfl
    have hwhole : slice [d₁, d₂, d₃, m₁, m₂, point, h₁, h₂, side] 0 5 =
      done (.ok [d₁, d₂, d₃, m₁, m₂]) := rfl
    have hpart : slice [d₁, d₂, d₃, m₁, m₂, point, h₁, h₂, side] 6 8 = done (.ok [h₁, h₂]) := rfl
    have hplaces : [d₁, d₂, d₃, m₁, m₂] ++ [h₁, h₂] = [d₁, d₂, d₃, m₁, m₂, h₁, h₂] := rfl
    have hkeep : 7 - precision.blanks ≤ [d₁, d₂, d₃, m₁, m₂, h₁, h₂].length := Nat.sub_le _ _
    simp only [hpoint, hside, hwhole, hpart, hplaces, retreat_eq hblanks, tail_eq hkeep,
      done_ok_bind]
    have hdigits : ([d₁, d₂, d₃, m₁, m₂, h₁, h₂].take (7 - precision.blanks) ++
        ([d₁, d₂, d₃, m₁, m₂, h₁, h₂].drop (7 - precision.blanks)).map fun _ => '0').length = 7 := by
      rw [List.length_append, List.length_map, ← List.length_append, List.take_append_drop]
      rfl
    rw [slice_eq (by omega) (by omega), done_ok_bind, slice_eq (by omega) (by omega), done_ok_bind,
      slice_eq (by omega) (by omega), done_ok_bind]
    exact congrArg (orThrow _) (ofText?_blanks precision d₁ d₂ d₃ m₁ m₂ point h₁ h₂ side)

end Longitude

namespace Position

/-- Reads a position written out in degrees by the places of its parts. -/
def parseText (block : Bytes) : Checked (Position R) := do
  let lat ← slice block 0 8
  let (latitude, precision) ← Latitude.parse lat
  let symbolTable ← done (SymbolTable.ofByte (← index block 8))
  let lon ← slice block 9 18
  let longitude ← Longitude.parse precision lon
  let symbolCode ← done (readSymbolCode block (← index block 18))
  return { latitude, longitude, precision, symbolTable, symbolCode, altitude := none,
           form := .uncompressed }

/-- Reads a compressed position by the places of its parts. -/
def parseBase91 (block : Bytes) : Checked (Position R) := do
  let symbolTable ← done (SymbolTable.ofCompressedByte (← index block 0))
  let lat ← slice block 1 5
  let latitude ← orThrow (.latitude lat) (Latitude.ofBase91? lat)
  let lon ← slice block 5 9
  let longitude ← orThrow (.longitude lon) (Longitude.ofBase91? lon)
  let symbolCode ← done (readSymbolCode block (← index block 9))
  let supplement ← done (Supplement.ofBytes (← index block 10) (← index block 11)
    (← index block 12))
  return { latitude, longitude, precision := default, symbolTable, symbolCode, altitude := none,
           form := .compressed supplement }

/-- A block of nineteen octets has all the places that are looked at. -/
theorem parseText_eq {block : Bytes} (hblock : block.length = 19) :
    parseText block = done (ofTextBlock (R := R) block hblock) := by
  have hlat : slice block 0 8 = done (.ok (block.take 8)) := slice_eq (by omega) (by omega)
  have hlon : slice block 9 18 = done (.ok ((block.drop 9).take 9)) := by
    rw [slice_eq (by omega) (by omega), List.drop_take]
  unfold parseText ofTextBlock ofText
  simp only [hlat, hlon, index_eq (show 8 < block.length by omega),
    index_eq (show 18 < block.length by omega), done_ok_bind]
  rw [Latitude.parse_eq (List.length_take_of_le (by omega)), text_parts (by omega) (by omega)]
  cases Latitude.ofText? (R := R) (Latin1.decode (block.take 8)) with
  | none => rfl
  | some parts =>
    obtain ⟨latitude, precision⟩ := parts
    simp only [orThrow_some, done_ok_bind, Option.elim_some, ok_bind]
    rw [Longitude.parse_eq precision (by rw [List.length_take, List.length_drop]; omega)]
    cases SymbolTable.ofByte block[8] with
    | error e => rfl
    | ok symbolTable =>
      cases Longitude.ofText? (R := R) precision (Latin1.decode ((block.drop 9).take 9)) with
      | none => rfl
      | some longitude => cases readSymbolCode block block[18] <;> rfl

/-- A block of thirteen octets has all the places that are looked at. -/
theorem parseBase91_eq {block : Bytes} (hblock : block.length = 13) :
    parseBase91 block = done (ofBase91Block (R := R) block hblock) := by
  have hlat : slice block 1 5 = done (.ok ((block.drop 1).take 4)) := by
    rw [slice_eq (by omega) (by omega), List.drop_take]
  have hlon : slice block 5 9 = done (.ok ((block.drop 5).take 4)) := by
    rw [slice_eq (by omega) (by omega), List.drop_take]
  unfold parseBase91 ofBase91Block ofBase91
  simp only [hlat, hlon, index_eq (show 0 < block.length by omega),
    index_eq (show 9 < block.length by omega), index_eq (show 10 < block.length by omega),
    index_eq (show 11 < block.length by omega), index_eq (show 12 < block.length by omega),
    done_ok_bind]
  rw [base91_parts (by omega) (by omega)]
  cases SymbolTable.ofCompressedByte block[0] with
  | error e => rfl
  | ok symbolTable =>
    cases Latitude.ofBase91? (R := R) ((block.drop 1).take 4) with
    | none => rfl
    | some latitude =>
      cases Longitude.ofBase91? (R := R) ((block.drop 5).take 4) with
      | none => rfl
      | some longitude =>
        cases readSymbolCode block block[9] with
        | error e => rfl
        | ok symbolCode => cases Supplement.ofBytes block[10] block[11] block[12] <;> rfl

/-- A block at a cursor that is known to be in the body. -/
def checkedBlockAt (width : Nat) (parse : Bytes → Checked (Position R)) (b : Bytes)
    (cursor : Nat) : Checked (Position R × Nat) := do
  let rest ← tail b cursor
  let block ← orThrow (.position rest) (slice? rest 0 width)
  let stop ← advance cursor width
  let p ← parse block
  return (p, stop)

/-- How the machine decodes a position. The octet at the cursor is looked at before a block is cut
out. -/
def checkedAt (b : Bytes) (cursor : Nat) : Checked (Position R × Nat) :=
  match (b[cursor]? : Option UInt8) with
  | none => throw (.cursorOutOfBounds cursor b.length)
  | some first =>
    if (Char.ofUInt8 first).isDigit then checkedBlockAt 19 parseText b cursor
    else if (SymbolTable.ofCompressedByte first).isOk then checkedBlockAt 13 parseBase91 b cursor
    else do throw (.positionFormat (← tail b cursor))

/-- Octets that are no extension are left where they are. -/
def checkedExtensionAt (p : Position R) (b : Bytes) (cursor : Nat) :
    Checked (Option Extension × Nat) :=
  if p.isCompressed then return (none, cursor)
  else
    tryCatch (do
      let (extension, stop) ← Extension.checkedAt b cursor
      return (some extension, stop)) fun _ => return (none, cursor)

/-- How the machine decodes a position and the extension behind it. -/
def checkedWithExtensionAt (b : Bytes) (cursor : Nat) :
    Checked ((Position R × Option Extension) × Nat) := do
  let (p, cursor) ← checkedAt b cursor
  let (extension, cursor) ← checkedExtensionAt p b cursor
  return ((p, extension), cursor)

omit [Arithmetic R] in
theorem checkedBlockAt_eq (width : Nat) (parse : Bytes → Checked (Position R)) {b : Bytes}
    {cursor : Nat} (hcursor : cursor ≤ b.length) :
    checkedBlockAt width parse b cursor = fieldAt width .position parse b cursor := by
  unfold checkedBlockAt fieldAt field
  rw [tail_eq hcursor, done_ok_bind]
  simp only [tail?_getD]

/-- The machine decodes a position without a trap, as it finds the octet at the cursor before it
cuts out a block. -/
theorem checkedAt_eq {b : Bytes} (hlength : b.length < 2 ^ 63) (cursor : Nat) :
    checkedAt b cursor = done ((decode (R := R)).runAt b cursor) := by
  unfold checkedAt
  cases hfirst : (b[cursor]? : Option UInt8) with
  | none =>
    unfold Decoder.runAt
    rw [List.drop_of_length_le (List.getElem?_eq_none_iff.1 hfirst)]
    rfl
  | some first =>
    obtain ⟨hcursor, hget⟩ := List.getElem?_eq_some_iff.1 hfirst
    have hrest : b.drop cursor = first :: b.drop (cursor + 1) := by
      rw [List.drop_eq_getElem_cons hcursor, hget]
    by_cases hdigit : (Char.ofUInt8 first).isDigit
    · have hdecode : decode (R := R) (b.drop cursor) = decodeUncompressed (b.drop cursor) := by
        rw [hrest, decode, if_pos hdigit]
      simp only [if_pos hdigit]
      rw [checkedBlockAt_eq _ _ (Nat.le_of_lt hcursor), Decoder.runAt_congr hdecode]
      exact fieldAt_eq hlength (by decide) decodeUncompressed_readsBlock
        decodeUncompressed_unplaced (fun _ => parseText_eq) cursor
    by_cases htable : (SymbolTable.ofCompressedByte first).isOk
    · have hdecode : decode (R := R) (b.drop cursor) = decodeCompressed (b.drop cursor) := by
        rw [hrest, decode, if_neg hdigit, if_pos htable]
      simp only [if_neg hdigit, if_pos htable]
      rw [checkedBlockAt_eq _ _ (Nat.le_of_lt hcursor), Decoder.runAt_congr hdecode]
      exact fieldAt_eq hlength (by decide) decodeCompressed_readsBlock
        decodeCompressed_unplaced (fun _ => parseBase91_eq) cursor
    · have hdecode : decode (R := R) (b.drop cursor) = .error (.positionFormat (b.drop cursor)) := by
        rw [hrest, decode, if_neg hdigit, if_neg htable]
      simp only [if_neg hdigit, if_neg htable]
      unfold Decoder.runAt
      rw [hdecode, tail_eq (Nat.le_of_lt hcursor)]
      rfl

omit [Arithmetic R] in
theorem checkedExtensionAt_eq (p : Position R) {b : Bytes} (hlength : b.length < 2 ^ 63)
    (cursor : Nat) : checkedExtensionAt p b cursor = done (.ok (p.extensionAt b cursor)) := by
  unfold checkedExtensionAt extensionAt
  rw [Extension.checkedAt_eq hlength]
  split
  · rfl
  · cases Extension.decode.runAt b cursor with
    | error e => rfl
    | ok parts => rfl

theorem checkedWithExtensionAt_eq {b : Bytes} (hlength : b.length < 2 ^ 63) (cursor : Nat) :
    checkedWithExtensionAt b cursor = done ((decodeWithExtension (R := R)).runAt b cursor) := by
  unfold checkedWithExtensionAt
  rw [checkedAt_eq hlength, decodeWithExtension_runAt]
  cases (decode (R := R)).runAt b cursor with
  | error e => rfl
  | ok parts =>
    obtain ⟨p, stop⟩ := parts
    simp only [done_ok_bind, ok_bind, checkedExtensionAt_eq p hlength]
    rfl

end Position

end Aprs
