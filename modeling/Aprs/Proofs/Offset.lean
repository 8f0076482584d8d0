import Aprs.Proofs.Reader

namespace Aprs

/-- An error as it is told of a body that has `n` more octets in front. Only a place and the
length it lies beyond are told of the whole body. -/
def DecodeError.shift (n : Nat) : DecodeError → DecodeError
  | cursorOutOfBounds cursor length => cursorOutOfBounds (n + cursor) (n + length)
  | error => error

theorem DecodeError.shift_locate (error : DecodeError) (n start length : Nat) :
    (error.locate start length).shift n = error.locate (n + start) (n + length) := by
  cases error <;> simp [locate, shift, Nat.add_assoc]

namespace Decoder

variable {α : Type} {decode : Decoder α}

/-- What a decoder returns if its body has `n` more octets in front. -/
def shift (n : Nat) : Except DecodeError (α × Nat) → Except DecodeError (α × Nat)
  | .error error => .error (error.shift n)
  | .ok (value, stop) => .ok (value, n + stop)

theorem Takes.leavesSuffix {width : α → Nat} (htakes : decode.Takes width) :
    decode.LeavesSuffix := by
  intro b value rest hdecode
  obtain ⟨_, rfl⟩ := htakes hdecode
  exact List.drop_suffix _ _

/-- The cursor behind a value is counted back from the end of the body. That it moves with
the octets in front rests on the decoder leaving no more than it was given. -/
theorem LeavesSuffix.runAt_append (hsuffix : decode.LeavesSuffix) (p q : Bytes) (cursor : Nat) :
    decode.runAt (p ++ q) (p.length + cursor) = shift p.length (decode.runAt q cursor) := by
  have hrest : (p ++ q).drop (p.length + cursor) = q.drop cursor := List.drop_length_add_append ..
  have hlength : (p ++ q).length = p.length + q.length := List.length_append
  unfold runAt
  rw [hrest, hlength]
  cases hdecode : decode (q.drop cursor) with
  | error error => exact congrArg Except.error (error.shift_locate ..).symm
  | ok parts =>
    obtain ⟨value, rest⟩ := parts
    have hle : rest.length ≤ q.length :=
      ((hsuffix hdecode).trans (List.drop_suffix _ _)).length_le
    have hstop : p.length + q.length - rest.length = p.length + (q.length - rest.length) :=
      Nat.add_sub_assoc hle _
    exact congrArg (fun stop => Except.ok (value, stop)) hstop

/-- A cursor is past the end of a body exactly if it still is with more octets in front. -/
theorem LeavesSuffix.runWithin_append (hsuffix : decode.LeavesSuffix) (p q : Bytes)
    (cursor : Nat) :
    decode.runWithin (p ++ q) (p.length + cursor) = shift p.length (decode.runWithin q cursor) := by
  have hlength : (p ++ q).length = p.length + q.length := List.length_append
  unfold runWithin
  by_cases hcursor : cursor ≤ q.length
  · rw [if_pos (by omega), if_pos hcursor]
    exact hsuffix.runAt_append p q cursor
  · rw [if_neg (by omega), if_neg hcursor, hlength]
    rfl

end Decoder

theorem Message.decode_leavesSuffix : decode.LeavesSuffix := by
  intro b m rest hdecode
  obtain ⟨_, rfl⟩ := decode_ok hdecode
  exact List.nil_suffix

theorem Altitude.decode_leavesSuffix : decode.LeavesSuffix := by
  intro b altitude rest hdecode
  obtain ⟨_, rfl⟩ := Prod.mk.inj (Except.ok.inj hdecode)
  exact List.suffix_refl _

namespace Reader

open Checked Decoder

variable {R : Type} [Arithmetic R]

/-- Octets in front of a body move the places that a decoder tells, and nothing else. -/
theorem decodeAt_append (r : Reader) (p q : Bytes) (cursor : Nat) :
    r.decodeAt (R := R) (p ++ q) (p.length + cursor) = shift p.length (r.decodeAt q cursor) := by
  cases r with
  | timestamp => exact Timestamp.decode_takes.leavesSuffix.runAt_append p q cursor
  | monthly => exact Timestamp.decodeMonthly_takes.leavesSuffix.runAt_append p q cursor
  | extension => exact Extension.decode_takes.leavesSuffix.runAt_append p q cursor
  | position => exact Position.decode_takes.leavesSuffix.runAt_append p q cursor
  | positionWithExtension =>
    exact Position.decodeWithExtension_takes.leavesSuffix.runAt_append p q cursor
  | weather => exact Weather.decode_leavesSuffix.runWithin_append p q cursor
  | message => exact Message.decode_leavesSuffix.runAt_append p q cursor
  | object => exact Object.decode_takes.leavesSuffix.runAt_append p q cursor
  | item => exact Item.decode_takes.leavesSuffix.runAt_append p q cursor
  | altitude => exact Altitude.decode_leavesSuffix.runWithin_append p q cursor

/-- What stands in front of a cursor counts for its length and for nothing else. A machine
that finds its octets by their places in the whole body finds the same ones, and neither run
takes it out of the body. -/
theorem front_irrelevant (r : Reader) (p q : Bytes) (cursor : Nat) :
    r.decodeAt (R := R) (p ++ q) (p.length + cursor) = shift p.length (r.decodeAt q cursor) ∧
    ((p ++ q).length < 2 ^ 63 → ∃ result,
      r.checkedAt (R := R) q cursor = done result ∧
      r.checkedAt (R := R) (p ++ q) (p.length + cursor) = done (shift p.length result)) := by
  refine ⟨r.decodeAt_append p q cursor, fun hlength => ⟨r.decodeAt q cursor, ?_, ?_⟩⟩
  · have hq : q.length < 2 ^ 63 := by
      rw [List.length_append] at hlength
      omega
    exact checkedAt_eq hq r cursor
  · rw [checkedAt_eq hlength, decodeAt_append]

/-- The position of an item is looked for behind its name, and told of by its place in the
whole body if it is not there. -/
theorem front_irrelevant_item :
    let p := Latin1.ascii "!!_"
    let q := Latin1.ascii ")AID!"
    (p ++ q).length < 2 ^ 63 ∧
      item.decodeAt (R := Exact) q 1 = .error (.cursorOutOfBounds 5 5) ∧
      item.decodeAt (R := Exact) (p ++ q) 4 = .error (.cursorOutOfBounds 8 8) ∧
      ∃ result, item.checkedAt (R := Exact) q 1 = done result ∧
        item.checkedAt (R := Exact) (p ++ q) 4 = done (shift 3 result) := by
  intro p q
  have hlength : (p ++ q).length < 2 ^ 63 := by decide
  have hq : item.decodeAt (R := Exact) q 1 = .error (.cursorOutOfBounds 5 5) := rfl
  obtain ⟨hwhole, hmachine⟩ := item.front_irrelevant (R := Exact) p q 1
  exact ⟨hlength, hq, hwhole.trans (congrArg _ hq), hmachine hlength⟩

end Reader

end Aprs
