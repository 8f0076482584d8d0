import Aprs.Position.Decode
import Aprs.Timestamp
import Aprs.Proofs.Decoder
import Aprs.Proofs.Except

namespace Aprs

theorem Timestamp.decode_takes : Timestamp.decode.Takes fun _ => 7 :=
  Decoder.field_takes _ _ _

theorem Timestamp.decodeMonthly_takes : Timestamp.decodeMonthly.Takes fun _ => 8 :=
  Decoder.field_takes _ _ _

theorem Extension.decode_takes : Extension.decode.Takes fun _ => 7 :=
  Decoder.field_takes _ _ _

/-- The octets of an extension, if there is one. -/
def Extension.width (extension : Option Extension) : Nat := if extension.isSome then 7 else 0

/-- The octets of a position in one of its forms, without an extension behind it. -/
def Form.width : Form → Nat
  | .uncompressed => 19
  | .compressed _ => 13

variable {R : Type}

namespace Position

/-- The octets of a position, which its form alone decides. -/
def width (p : Position R) : Nat := p.form.width

theorem width_pos (p : Position R) : 0 < p.width := by
  unfold width
  cases p.form <;> simp [Form.width]

@[simp] theorem width_withAltitude (p : Position R) (altitude : Option Nat) :
    { p with altitude }.width = p.width := rfl

theorem width_eq (p : Position R) : p.width = if p.isCompressed then 13 else 19 := by
  unfold width isCompressed
  cases p.form <;> rfl

/-- What follows a position loses its first seven octets exactly if they are an extension. -/
theorem readExtension_snd (p : Position R) (b : Bytes) :
    Extension.width (p.readExtension b).1 ≤ b.length ∧
      (p.readExtension b).2 = b.drop (Extension.width (p.readExtension b).1) := by
  unfold readExtension
  split
  · exact ⟨Nat.zero_le _, rfl⟩
  · cases hextension : Extension.decode b with
    | error _ => exact ⟨Nat.zero_le _, rfl⟩
    | ok result => exact Extension.decode_takes hextension

/-- A position at a cursor in a body leaves the cursor in the body, behind its extension. -/
theorem extensionAt_snd (p : Position R) {body : Bytes} {cursor : Nat}
    (hcursor : cursor ≤ body.length) :
    (p.extensionAt body cursor).2 = cursor + Extension.width (p.extensionAt body cursor).1 ∧
      (p.extensionAt body cursor).2 ≤ body.length := by
  unfold extensionAt
  split
  · exact ⟨rfl, hcursor⟩
  · cases hextension : Extension.decode.runAt body cursor with
    | error _ => exact ⟨rfl, hcursor⟩
    | ok parts =>
      obtain ⟨hstop, hlength, _⟩ := Extension.decode_takes.runAt_ok (by decide) hextension
      exact ⟨hstop, hlength⟩

variable [Arithmetic R]

theorem ofText_form {lat lon : Bytes} {table code : UInt8} {p : Position R}
    (htext : ofText lat table lon code = .ok p) : p.form = .uncompressed := by
  unfold ofText at htext
  simp only [bind_eq_ok_iff, pure, Except.pure, Except.ok.injEq] at htext
  obtain ⟨_, _, _, _, _, _, _, _, rfl⟩ := htext
  rfl

theorem ofBase91_form {lat lon : Bytes} {table code c s t : UInt8} {p : Position R}
    (hdigits : ofBase91 table lat lon code c s t = .ok p) :
    ∃ supplement, p.form = .compressed supplement := by
  unfold ofBase91 at hdigits
  simp only [bind_eq_ok_iff, pure, Except.pure, Except.ok.injEq] at hdigits
  obtain ⟨_, _, _, _, _, _, _, _, supplement, _, rfl⟩ := hdigits
  exact ⟨supplement, rfl⟩

/-- Reads a whole block of nineteen octets. -/
def ofTextBlock (block : Bytes) (hblock : block.length = 19) : Except DecodeError (Position R) :=
  ofText (block.take 8) block[8] ((block.drop 9).take 9) block[18]

/-- Reads a whole block of thirteen octets. -/
def ofBase91Block (block : Bytes) (hblock : block.length = 13) : Except DecodeError (Position R) :=
  ofBase91 block[0] ((block.drop 1).take 4) ((block.drop 5).take 4) block[9] block[10] block[11]
    block[12]

theorem text_parts {block : Bytes} (hlast : 18 < block.length) (hend : block.length ≤ 19) :
    block.take 8 ++ block[8] :: (block.drop 9).take 9 ++ [block[18]] = block := by
  have hcode : block.drop 18 = [block[18]] := by
    rw [List.drop_eq_getElem_cons (by omega), List.drop_of_length_le (by omega)]
  have hlon : (block.drop 9).take 9 ++ [block[18]] = block.drop 9 := by
    rw [← hcode, ← List.drop_drop (i := 9) (j := 9), List.take_append_drop]
  rw [List.append_assoc, List.cons_append, hlon, ← List.drop_eq_getElem_cons, List.take_append_drop]

theorem base91_parts {block : Bytes} (hlast : 12 < block.length) (hend : block.length ≤ 13) :
    block[0] :: (block.drop 1).take 4 ++ (block.drop 5).take 4 ++
      [block[9], block[10], block[11], block[12]] = block := by
  have hcodes : block.drop 9 = [block[9], block[10], block[11], block[12]] := by
    rw [List.drop_eq_getElem_cons (by omega), List.drop_eq_getElem_cons (by omega),
      List.drop_eq_getElem_cons (by omega), List.drop_eq_getElem_cons (by omega),
      List.drop_of_length_le (by omega)]
  have hlon : (block.drop 5).take 4 ++ block.drop 9 = block.drop 5 := by
    rw [← List.drop_drop (i := 4) (j := 5), List.take_append_drop]
  have hlat : (block.drop 1).take 4 ++ block.drop 5 = block.drop 1 := by
    rw [← List.drop_drop (i := 4) (j := 1), List.take_append_drop]
  rw [← hcodes, List.append_assoc, List.cons_append, hlon, hlat, ← List.drop_eq_getElem_cons,
    List.drop_zero]

theorem decodeUncompressed_readsBlock :
    (decodeUncompressed (R := R)).ReadsBlock 19 .position ofTextBlock := by
  intro b
  unfold decodeUncompressed ofTextBlock
  by_cases hwidth : 19 ≤ b.length
  · rw [dif_pos hwidth, dif_pos hwidth]
    simp only [List.take_take, List.drop_take, List.getElem_take]
    rfl
  · rw [dif_neg hwidth, dif_neg hwidth]

theorem decodeCompressed_readsBlock :
    (decodeCompressed (R := R)).ReadsBlock 13 .position ofBase91Block := by
  intro b
  unfold decodeCompressed ofBase91Block
  by_cases hwidth : 13 ≤ b.length
  · rw [dif_pos hwidth, dif_pos hwidth]
    simp only [List.take_take, List.drop_take, List.getElem_take]
    rfl
  · rw [dif_neg hwidth, dif_neg hwidth]

theorem decodeUncompressed_takes : (decodeUncompressed (R := R)).Takes width := by
  refine decodeUncompressed_readsBlock.takes ?_
  intro _ _ p htext
  rw [width, ofText_form htext]
  rfl

theorem decodeCompressed_takes : (decodeCompressed (R := R)).Takes width := by
  refine decodeCompressed_readsBlock.takes ?_
  intro _ _ p hdigits
  obtain ⟨supplement, hform⟩ := ofBase91_form hdigits
  rw [width, hform]
  rfl

/-- A position takes nineteen octets or thirteen, as its form says. -/
theorem decode_takes : (decode (R := R)).Takes width := by
  intro b p rest hdecode
  cases b with
  | nil => cases hdecode
  | cons first b =>
    simp only [decode] at hdecode
    split at hdecode
    · exact decodeUncompressed_takes hdecode
    · split at hdecode
      · exact decodeCompressed_takes hdecode
      · cases hdecode

theorem decodeWithExtension_ok {b rest : Bytes} {p : Position R} {extension : Option Extension}
    (hdecode : decodeWithExtension b = .ok ((p, extension), rest)) :
    decode b = .ok (p, b.drop p.width) ∧ p.readExtension (b.drop p.width) = (extension, rest) := by
  unfold decodeWithExtension at hdecode
  obtain ⟨⟨actual, after⟩, hposition, heq⟩ := bind_eq_ok_iff.1 hdecode
  obtain ⟨_, hafter⟩ := decode_takes hposition
  simp only [pure, Except.pure, Except.ok.injEq, Prod.mk.injEq] at heq
  obtain ⟨⟨rfl, hextension⟩, hrest⟩ := heq
  rw [← hafter]
  exact ⟨hposition, Prod.ext hextension hrest⟩

theorem decodeWithExtension_takes :
    (decodeWithExtension (R := R)).Takes fun (p, extension) => p.width + Extension.width extension := by
  intro b ⟨p, extension⟩ rest hdecode
  obtain ⟨hposition, hextension⟩ := decodeWithExtension_ok hdecode
  obtain ⟨hwidth, _⟩ := decode_takes hposition
  obtain ⟨hroom, hrest⟩ := p.readExtension_snd (b.drop p.width)
  rw [hextension, List.length_drop] at hroom
  rw [hextension, List.drop_drop] at hrest
  exact ⟨by dsimp only at hroom ⊢; omega, hrest⟩

/-- A position that was read at a cursor leaves the cursor behind it and in the body. -/
theorem decodeWithExtension_runAt_ok {body : Bytes} {cursor stop : Nat} {p : Position R}
    {extension : Option Extension}
    (hrun : decodeWithExtension.runAt body cursor = .ok ((p, extension), stop)) :
    stop ≤ body.length ∧
      decodeWithExtension (body.drop cursor) = .ok ((p, extension), body.drop stop) :=
  (decodeWithExtension_takes.runAt_ok (Nat.add_pos_left p.width_pos _) hrun).2

omit [Arithmetic R] in
/-- Looking for an extension at a cursor in the body is looking for it in what stands there. -/
theorem extensionAt_eq (p : Position R) {body : Bytes} {cursor : Nat}
    (hcursor : cursor ≤ body.length) :
    p.extensionAt body cursor =
      ((p.readExtension (body.drop cursor)).1,
        body.length - (p.readExtension (body.drop cursor)).2.length) := by
  have hstay : cursor = body.length - (body.drop cursor).length := by
    rw [List.length_drop]
    omega
  unfold extensionAt readExtension Decoder.runAt
  split
  · exact Prod.ext rfl hstay
  · cases Extension.decode (body.drop cursor) with
    | error e => exact Prod.ext rfl hstay
    | ok parts => rfl

/-- A position with its extension is read as the two are, one after the other. -/
theorem decodeWithExtension_runAt (body : Bytes) (cursor : Nat) :
    (decodeWithExtension (R := R)).runAt body cursor = do
      let (p, cursor) ← decode.runAt body cursor
      let (extension, cursor) := p.extensionAt body cursor
      return ((p, extension), cursor) := by
  cases hposition : (decode (R := R)).runAt body cursor with
  | error e =>
    obtain ⟨cause, hcause, rfl⟩ := Decoder.runAt_eq_error_iff.1 hposition
    unfold Decoder.runAt decodeWithExtension
    rw [hcause]
    rfl
  | ok parts =>
    obtain ⟨p, stop⟩ := parts
    obtain ⟨_, hstop, hdecode⟩ := decode_takes.runAt_ok p.width_pos hposition
    unfold Decoder.runAt decodeWithExtension
    rw [hdecode, ok_bind, ok_bind]
    simp only [p.extensionAt_eq hstop]
    rfl

end Position

end Aprs
