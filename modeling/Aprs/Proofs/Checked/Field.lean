import Aprs.Proofs.Checked.Basic
import Aprs.Proofs.Place

namespace Aprs

open Checked

namespace Checked

/-- The octets of a field of a fixed width, which are refused with all that is there if they
are too few. -/
def field (width : Nat) (refusal : Bytes → DecodeError) (b : Bytes) (cursor : Nat) :
    Checked Bytes :=
  let rest := (tail? b cursor).getD []
  orThrow (refusal rest) (slice? rest 0 width)

/-- Parses a field of a fixed width. The cursor is moved behind it before the field is looked
at. -/
def fieldAt {α : Type} (width : Nat) (refusal : Bytes → DecodeError) (parse : Bytes → Checked α)
    (b : Bytes) (cursor : Nat) : Checked (α × Nat) := do
  let text ← field width refusal b cursor
  let stop ← advance cursor width
  let value ← parse text
  return (value, stop)

theorem field_eq (width : Nat) (refusal : Bytes → DecodeError) (b : Bytes) (cursor : Nat) :
    field width refusal b cursor = orThrow (refusal (b.drop cursor))
      (if width ≤ (b.drop cursor).length then some ((b.drop cursor).take width) else none) := by
  unfold field
  simp only [tail?_getD, slice?_zero]

/-- A field is decoded without a trap if it is parsed without one. A cursor behind a field that is
there is a place in the body, so moving it cannot overflow. -/
theorem fieldAt_eq {α : Type} {decode : Decoder α} {width : Nat} {refusal : Bytes → DecodeError}
    {read : (block : Bytes) → block.length = width → Except DecodeError α}
    {parse : Bytes → Checked α} {b : Bytes} (hlength : b.length < 2 ^ 63) (hpositive : 0 < width)
    (hdecode : decode.ReadsBlock width refusal read) (hunplaced : ∀ b, Unplaced (decode b))
    (hparse : ∀ block hblock, parse block = done (read block hblock)) (cursor : Nat) :
    fieldAt width refusal parse b cursor = done (decode.runAt b cursor) := by
  have hrest := List.length_drop (i := cursor) (l := b)
  have hcases := hdecode (b.drop cursor)
  unfold fieldAt Decoder.runAt
  rw [field_eq]
  by_cases hwidth : width ≤ (b.drop cursor).length
  · have hstop : b.length - ((b.drop cursor).drop width).length = cursor + width := by
      rw [List.length_drop]
      omega
    rw [dif_pos hwidth] at hcases
    rw [if_pos hwidth, orThrow_some, done_ok_bind, advance_eq (by omega), done_ok_bind,
      hparse _ (List.length_take_of_le hwidth)]
    cases hread : read ((b.drop cursor).take width) (List.length_take_of_le hwidth) with
    | error error =>
      rw [hread] at hcases
      simp only [hcases, Except.map, done_error_bind, (hunplaced _ _ hcases).locate_eq]
    | ok value =>
      rw [hread] at hcases
      simp only [hcases, Except.map, done_ok_bind, hstop]
      rfl
  · rw [dif_neg hwidth] at hcases
    rw [if_neg hwidth, orThrow_none, done_error_bind]
    simp only [hcases, (hunplaced _ _ hcases).locate_eq]

end Checked

namespace Timestamp

/-- Reads a time by the places of its digits and of its mark. -/
def parse (field : Bytes) : Checked Timestamp := do
  let text := Latin1.decode field
  let first ← orThrow (.timestamp field) (Decimal.ofText? (← slice text 0 2))
  let second ← orThrow (.timestamp field) (Decimal.ofText? (← slice text 2 4))
  let third ← orThrow (.timestamp field) (Decimal.ofText? (← slice text 4 6))
  match ← index text 6 with
  | 'z' => return zulu first second third
  | 'h' => return clock first second third
  | '/' => return localTime first second third
  | _ => throw (.timestamp field)

/-- The pairs of digits are not found by their places here, but one after the other. -/
def parseMonthly (field : Bytes) : Checked Timestamp :=
  orThrow (.timestamp field) (ofMonthlyText? (Latin1.decode field))

/-- How the machine decodes a time at a cursor. -/
def checkedAt : Bytes → Nat → Checked (Timestamp × Nat) := fieldAt 7 .timestamp parse

/-- How the machine decodes a time with a month at a cursor. -/
def checkedMonthlyAt : Bytes → Nat → Checked (Timestamp × Nat) :=
  fieldAt 8 .timestamp parseMonthly

/-- Seven octets have all the places of a time that are looked at. -/
theorem parse_eq {field : Bytes} (hfield : field.length = 7) :
    parse field = orThrow (.timestamp field) (ofText? (Latin1.decode field)) := by
  unfold parse
  have htext := Latin1.length_decode field
  rw [hfield] at htext
  match Latin1.decode field, htext with
  | [a, b, c, d, e, f, mark], _ =>
    have hfirst : slice [a, b, c, d, e, f, mark] 0 2 = done (.ok [a, b]) := rfl
    have hsecond : slice [a, b, c, d, e, f, mark] 2 4 = done (.ok [c, d]) := rfl
    have hthird : slice [a, b, c, d, e, f, mark] 4 6 = done (.ok [e, f]) := rfl
    have hmark : index [a, b, c, d, e, f, mark] 6 = done (.ok mark) := rfl
    simp only [hfirst, hsecond, hthird, hmark, done_ok_bind, ofText?]
    cases Decimal.ofText? [a, b] with
    | none => rfl
    | some first =>
      cases Decimal.ofText? [c, d] with
      | none => rfl
      | some second =>
        cases Decimal.ofText? [e, f] with
        | none => rfl
        | some third =>
          simp only [orThrow_some, done_ok_bind, Option.bind_eq_bind, Option.bind_some]
          split
          case h_4 => simp [*, throw_eq]
          all_goals rfl

theorem checkedAt_eq {b : Bytes} (hlength : b.length < 2 ^ 63) (cursor : Nat) :
    checkedAt b cursor = done (decode.runAt b cursor) :=
  fieldAt_eq hlength (by decide) (Decoder.field_readsBlock _ _ _) decode_unplaced
    (fun _ => parse_eq) cursor

theorem checkedMonthlyAt_eq {b : Bytes} (hlength : b.length < 2 ^ 63) (cursor : Nat) :
    checkedMonthlyAt b cursor = done (decodeMonthly.runAt b cursor) :=
  fieldAt_eq hlength (by decide) (Decoder.field_readsBlock _ _ _) decodeMonthly_unplaced
    (fun _ _ => rfl) cursor

end Timestamp

namespace Extension

/-- Reads the four codes of a power or signal report by their places. -/
def parseCodes? (text : List Char) : Checked (Option (Nat × Nat × Nat × Directivity)) := do
  let lead ← index text 0
  let height ← index text 1
  let gain ← index text 2
  let directivity ← index text 3
  return readCodes? lead height gain directivity

/-- Reads an extension by the places of its letters, its slashes and its digits. -/
def parse (field : Bytes) : Checked Extension := do
  let text := Latin1.decode field
  let refuse {α : Type} (value : Option α) : Checked α := orThrow (.extension field) value
  let start ← slice text 0 3
  if start = ['R', 'N', 'G'] then
    return radioRange (← refuse (Decimal.ofText? (← tail text 3)))
  else if start = ['P', 'H', 'G'] then do
    let (lead, feet, gain, directivity) ← refuse (← parseCodes? (← tail text 3))
    return power (lead * lead) feet gain directivity
  else if start = ['D', 'F', 'S'] then do
    let (lead, feet, gain, directivity) ← refuse (← parseCodes? (← tail text 3))
    return signal lead feet gain directivity
  else if (← index start 0) = 'T' ∧ (← index text 3) = '/' ∧ (← index text 4) = 'C' then do
    let kind ← refuse (Decimal.ofText? (← slice text 1 3))
    let color ← refuse (Decimal.ofText? (← tail text 5))
    return area kind color
  else if (← index text 3) = '/' then do
    let degrees ← refuse (Decimal.ofText? (← slice text 0 3))
    let knots ← refuse (Decimal.ofText? (← tail text 4))
    return directionSpeed degrees knots
  else
    throw (.extension field)

/-- The letters at the front are looked at before the slash. -/
theorem ofText?_eq (a b c d e f g : Char) :
    ofText? [a, b, c, d, e, f, g] =
      if [a, b, c] = ['R', 'N', 'G'] then (Decimal.ofText? [d, e, f, g]).map radioRange
      else if [a, b, c] = ['P', 'H', 'G'] then
        (readCodes? d e f g).map fun (lead, feet, gain, directivity) =>
          power (lead * lead) feet gain directivity
      else if [a, b, c] = ['D', 'F', 'S'] then
        (readCodes? d e f g).map fun (lead, feet, gain, directivity) =>
          signal lead feet gain directivity
      else if a = 'T' ∧ d = '/' ∧ e = 'C' then do
        some (area (← Decimal.ofText? [b, c]) (← Decimal.ofText? [f, g]))
      else if d = '/' then do
        some (directionSpeed (← Decimal.ofText? [a, b, c]) (← Decimal.ofText? [e, f, g]))
      else none := by
  unfold ofText?
  split
  case h_5 => grind
  case h_6 hrange hpower hsignal _ hplain =>
    have hslash : d ≠ '/' := fun h => hplain _ _ _ _ _ _ (by rw [h])
    rw [if_neg, if_neg, if_neg, if_neg (fun h => hslash h.2.1), if_neg hslash]
    · exact fun h => hsignal d e f g (congrArg (· ++ [d, e, f, g]) h)
    · exact fun h => hpower d e f g (congrArg (· ++ [d, e, f, g]) h)
    · exact fun h => hrange d e f g (congrArg (· ++ [d, e, f, g]) h)
  all_goals simp_all

/-- Seven octets have all the places of an extension that are looked at. -/
theorem parse_eq {field : Bytes} (hfield : field.length = 7) :
    parse field = orThrow (.extension field) (ofText? (Latin1.decode field)) := by
  unfold parse
  have htext := Latin1.length_decode field
  rw [hfield] at htext
  match Latin1.decode field, htext with
  | [a, b, c, d, e, f, g], _ =>
    have hstart : slice [a, b, c, d, e, f, g] 0 3 = done (.ok [a, b, c]) := rfl
    have hbehind : tail [a, b, c, d, e, f, g] 3 = done (.ok [d, e, f, g]) := rfl
    have hcodes : parseCodes? [d, e, f, g] = done (.ok (readCodes? d e f g)) := rfl
    have hletter : index [a, b, c] 0 = done (.ok a) := rfl
    have hslash : index [a, b, c, d, e, f, g] 3 = done (.ok d) := rfl
    have hnext : index [a, b, c, d, e, f, g] 4 = done (.ok e) := rfl
    have hkind : slice [a, b, c, d, e, f, g] 1 3 = done (.ok [b, c]) := rfl
    have hcolor : tail [a, b, c, d, e, f, g] 5 = done (.ok [f, g]) := rfl
    have hspeed : tail [a, b, c, d, e, f, g] 4 = done (.ok [e, f, g]) := rfl
    simp only [hstart, hbehind, hcodes, hletter, hslash, hnext, hkind, hcolor, hspeed,
      done_ok_bind, ofText?_eq]
    split
    · cases Decimal.ofText? [d, e, f, g] <;> rfl
    split
    · cases readCodes? d e f g <;> rfl
    split
    · cases readCodes? d e f g <;> rfl
    split
    · cases Decimal.ofText? [b, c] with
      | none => rfl
      | some kind => cases Decimal.ofText? [f, g] <;> rfl
    split
    · cases Decimal.ofText? [a, b, c] with
      | none => rfl
      | some degrees => cases Decimal.ofText? [e, f, g] <;> rfl
    · rfl

/-- How the machine decodes an extension at a cursor. -/
def checkedAt : Bytes → Nat → Checked (Extension × Nat) := fieldAt 7 .extension parse

theorem checkedAt_eq {b : Bytes} (hlength : b.length < 2 ^ 63) (cursor : Nat) :
    checkedAt b cursor = done (decode.runAt b cursor) :=
  fieldAt_eq hlength (by decide) (Decoder.field_readsBlock _ _ _) decode_unplaced
    (fun _ => parse_eq) cursor

end Extension

namespace Message

/-- The octets in front of the first colon, and all octets if there is none. -/
def refuse (rest : Bytes) : Checked (Message × Nat) := do
  let stop := (rest.findIdx? (· = 0x3A)).getD rest.length
  throw (.addressee (← slice rest 0 stop))

/-- How the machine decodes a message, which runs from a cursor to the end of the body. -/
def checkedAt (b : Bytes) (cursor : Nat) : Checked (Message × Nat) := do
  let rest := (tail? b cursor).getD []
  match slice? rest 0 9 with
  | none => refuse rest
  | some addressee =>
    if rest[9]? = some 0x3A then do
      let addressee ← trim addressee
      let body ← tail rest 10
      return (ofParts addressee body, b.length)
    else refuse rest

theorem refuse_eq (rest : Bytes) :
    refuse rest = done (.error (.addressee (rest.takeWhile (· ≠ 0x3A)))) := by
  have hstop : (rest.findIdx? (· = 0x3A)).getD rest.length = rest.findIdx (· = 0x3A) :=
    List.findIdx_eq_getD_findIdx?.symm
  have htake : rest.takeWhile (· ≠ 0x3A) = rest.take (rest.findIdx (· = 0x3A)) := by
    rw [List.takeWhile_eq_take_findIdx_not]
    simp
  unfold refuse
  simp only [hstop]
  rw [slice_eq (Nat.zero_le _) List.findIdx_le_length, htake]
  rfl

/-- A message has no place in it but its end, which is the end of the body. -/
theorem checkedAt_eq (b : Bytes) (cursor : Nat) :
    checkedAt b cursor = done (decode.runAt b cursor) := by
  unfold checkedAt Decoder.runAt
  simp only [tail?_getD, slice?_zero, refuse_eq, decode_eq]
  by_cases hcolon : (b.drop cursor)[9]? = some 0x3A
  · obtain ⟨hnine, _⟩ := List.getElem?_eq_some_iff.1 hcolon
    rw [if_pos (by omega)]
    simp only [if_pos hcolon]
    rw [trim_eq, done_ok_bind, tail_eq (by omega)]
    rfl
  · simp only [if_neg hcolon]
    split <;> rfl

end Message

end Aprs
