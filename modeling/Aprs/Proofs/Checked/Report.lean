import Aprs.Proofs.Checked.Position

namespace Aprs

open Checked

namespace Altitude

/-- How the machine looks for an altitude in a comment, which leaves the cursor at the comment. -/
def checkedAt (b : Bytes) (cursor : Nat) : Checked (Option Nat × Nat) := do
  let rest ← orThrow (.cursorOutOfBounds cursor b.length) (tail? b cursor)
  return (scan rest, cursor)

theorem checkedAt_eq (b : Bytes) (cursor : Nat) : checkedAt b cursor = done (decodeAt b cursor) := by
  unfold checkedAt tail?
  by_cases hcursor : cursor ≤ b.length
  · rw [slice?_eq hcursor (Nat.le_refl _), List.take_length, decodeAt_eq hcursor]
    rfl
  · unfold slice? decodeAt Decoder.runWithin
    rw [if_neg (fun h => hcursor h.1), if_neg hcursor]
    rfl

end Altitude

variable {R : Type} [Arithmetic R]

/-- A value that is made of a position, its extension and what is behind them, read at a cursor. -/
theorem Position.runAt_of_decode {α : Type} {decode : Decoder α} {body : Bytes} {cursor n : Nat}
    {make : (Position R × Option Extension) × Bytes → α}
    (hdecode : decode (body.drop cursor) = do
      let parts ← (decodeWithExtension (body.drop (cursor + n))).mapError
        (·.locate n (body.drop cursor).length)
      return (make parts, parts.2)) :
    decode.runAt body cursor = do
      let (parts, stop) ← decodeWithExtension.runAt body (cursor + n)
      return (make (parts, body.drop stop), stop) := by
  cases hposition : (decodeWithExtension (R := R)).runAt body (cursor + n) with
  | error e =>
    obtain ⟨inner, hinner, rfl⟩ :=
      Decoder.mapError_locate_of_runAt (body.drop cursor).length hposition
    rw [hinner, error_bind] at hdecode
    unfold Decoder.runAt
    rw [hdecode]
    rfl
  | ok parts =>
    obtain ⟨⟨position, extension⟩, stop⟩ := parts
    obtain ⟨hstop, hafter⟩ := decodeWithExtension_runAt_ok hposition
    rw [hafter, ok_mapError, ok_bind] at hdecode
    unfold Decoder.runAt
    rw [hdecode, ok_bind]
    simp only [pure, Except.pure, List.length_drop, Nat.sub_sub_self hstop]

namespace Object

/-- An object in a body, told by the cursors of its parts. -/
theorem decode_runAt (body : Bytes) (cursor : Nat) :
    (decode (R := R)).runAt body cursor =
      match (body[cursor + 9]? : Option UInt8) with
      | none => .error (.objectName ((body.drop cursor).take 9))
      | some mark => do
        let (timestamp, stop) ← Timestamp.decode.runAt body (cursor + 10)
        let ((position, extension), stop) ← Position.decodeWithExtension.runAt body stop
        return ({
          name := trimSpaces ((body.drop cursor).take 9)
          live := mark = 0x2A
          timestamp := some timestamp
          position := some { position with altitude := Altitude.scan (body.drop stop) }
          extension
          comment := body.drop stop
          fault := none }, stop) := by
  have hdecode := decode_eq (R := R) (body.drop cursor)
  rw [List.getElem?_drop] at hdecode
  simp only [List.drop_drop] at hdecode
  cases hmark : (body[cursor + 9]? : Option UInt8) with
  | none =>
    rw [hmark] at hdecode
    unfold Decoder.runAt
    rw [hdecode]
    rfl
  | some mark =>
    rw [hmark] at hdecode
    cases htimestamp : Timestamp.decode.runAt body (cursor + 10) with
    | error e =>
      obtain ⟨cause, hcause, rfl⟩ := Decoder.runAt_eq_error_iff.1 htimestamp
      have hunplaced := Timestamp.decode_unplaced _ _ hcause
      rw [hcause] at hdecode
      unfold Decoder.runAt
      rw [hdecode]
      simp only [error_bind, hunplaced.locate_eq]
    | ok parts =>
      obtain ⟨timestamp, stop⟩ := parts
      obtain ⟨rfl, _, htime⟩ := Timestamp.decode_takes.runAt_ok (by decide) htimestamp
      rw [htime] at hdecode
      exact Position.runAt_of_decode hdecode

/-- How the machine decodes an object. The octet behind the name is found by its place in the
body. -/
def checkedAt (b : Bytes) (cursor : Nat) : Checked (Object R × Nat) := do
  let rest := (tail? b cursor).getD []
  let name ← orThrow (.objectName rest) (slice? rest 0 9)
  let stop ← advance cursor 9
  match (b[stop]? : Option UInt8) with
  | none => throw (.objectName name)
  | some mark =>
    let start ← advance stop 1
    let (timestamp, cursor) ← Timestamp.checkedAt b start
    let ((position, extension), cursor) ← Position.checkedWithExtensionAt b cursor
    let (altitude, cursor) ← Altitude.checkedAt b cursor
    let name ← trim name
    let comment ← tail b cursor
    return ({
      name
      live := mark = 0x2A
      timestamp := some timestamp
      position := some { position with altitude }
      extension
      comment
      fault := none }, cursor)

/-- The machine decodes an object without a trap, as the octet behind its name is looked up and
not assumed. -/
theorem checkedAt_eq {b : Bytes} (hlength : b.length < 2 ^ 63) (cursor : Nat) :
    checkedAt b cursor = done ((decode (R := R)).runAt b cursor) := by
  have hrest := List.length_drop (i := cursor) (l := b)
  rw [decode_runAt]
  unfold checkedAt
  simp only [tail?_getD, slice?_zero]
  by_cases hname : 9 ≤ (b.drop cursor).length
  · rw [if_pos hname, orThrow_some, done_ok_bind, advance_eq (by omega), done_ok_bind]
    cases hmark : (b[cursor + 9]? : Option UInt8) with
    | none => rfl
    | some mark =>
      obtain ⟨hnine, _⟩ := List.getElem?_eq_some_iff.1 hmark
      simp only
      rw [advance_eq (by omega), done_ok_bind, Timestamp.checkedAt_eq hlength]
      cases Timestamp.decode.runAt b (cursor + 9 + 1) with
      | error e => rfl
      | ok parts =>
        obtain ⟨timestamp, stop⟩ := parts
        simp only [done_ok_bind, ok_bind]
        rw [Position.checkedWithExtensionAt_eq hlength]
        cases hposition : (Position.decodeWithExtension (R := R)).runAt b stop with
        | error e => rfl
        | ok parts =>
          obtain ⟨⟨position, extension⟩, stop⟩ := parts
          obtain ⟨hstop, _⟩ := Position.decodeWithExtension_runAt_ok hposition
          simp only [done_ok_bind, ok_bind, Altitude.checkedAt_eq, Altitude.decodeAt_eq hstop,
            trim_eq, tail_eq hstop]
          rfl
  · have hnone : b[cursor + 9]? = none := List.getElem?_eq_none_iff.2 (by omega)
    rw [if_neg hname, hnone, List.take_of_length_le (by omega)]
    rfl

end Object

namespace Item

/-- An item in a body, told by the cursors of its parts. -/
theorem decode_runAt (body : Bytes) (cursor : Nat) :
    (decode (R := R)).runAt body cursor =
      match nameLength? (body.drop cursor) with
      | none => .error (.itemName ((body.drop cursor).take 10))
      | some n => do
        let ((position, extension), stop) ←
          Position.decodeWithExtension.runAt body (cursor + (n + 1))
        return ({
          name := (body.drop cursor).take n
          live := (body.drop cursor)[n]? = some 0x21
          position := { position with altitude := Altitude.scan (body.drop stop) }
          extension
          comment := body.drop stop }, stop) := by
  have hdecode := decode_eq (R := R) (body.drop cursor)
  simp only [List.drop_drop] at hdecode
  cases hname : nameLength? (body.drop cursor) with
  | none =>
    rw [hname] at hdecode
    unfold Decoder.runAt
    rw [hdecode]
    rfl
  | some n =>
    rw [hname] at hdecode
    exact Position.runAt_of_decode hdecode

/-- How the machine decodes an item. The octet behind the name is found by the length of the
name. -/
def checkedAt (b : Bytes) (cursor : Nat) : Checked (Item R × Nat) := do
  let rest := (tail? b cursor).getD []
  match nameLength? rest with
  | none => throw (.itemName (← slice rest 0 (min rest.length 10)))
  | some n =>
    let name ← slice rest 0 n
    let mark ← index rest n
    let start ← advance (← advance cursor n) 1
    let ((position, extension), cursor) ← Position.checkedWithExtensionAt b start
    let (altitude, cursor) ← Altitude.checkedAt b cursor
    let comment ← tail b cursor
    return ({
      name
      live := mark = 0x21
      position := { position with altitude }
      extension
      comment }, cursor)

/-- The machine decodes an item without a trap, as the end of its name is a place in the body. -/
theorem checkedAt_eq {b : Bytes} (hlength : b.length < 2 ^ 63) (cursor : Nat) :
    checkedAt b cursor = done ((decode (R := R)).runAt b cursor) := by
  have hrest := List.length_drop (i := cursor) (l := b)
  rw [decode_runAt]
  unfold checkedAt
  simp only [tail?_getD]
  cases hname : nameLength? (b.drop cursor) with
  | none =>
    simp only
    rw [slice_eq (Nat.zero_le _) (Nat.min_le_left _ _), Nat.min_comm,
      ← List.take_eq_take_min]
    rfl
  | some n =>
    obtain ⟨_, _, mark, hmark, _⟩ := nameLength?_eq_some hname
    obtain ⟨hn, _⟩ := List.getElem?_eq_some_iff.1 hmark
    simp only
    rw [slice_eq (Nat.zero_le _) (Nat.le_of_lt hn), done_ok_bind, index_eq_of_getElem? hmark,
      done_ok_bind, advance_eq (by omega), done_ok_bind, advance_eq (by omega), done_ok_bind,
      Position.checkedWithExtensionAt_eq hlength, Nat.add_assoc, hmark]
    cases hposition : (Position.decodeWithExtension (R := R)).runAt b (cursor + (n + 1)) with
    | error e => rfl
    | ok parts =>
      obtain ⟨⟨position, extension⟩, stop⟩ := parts
      obtain ⟨hstop, _⟩ := Position.decodeWithExtension_runAt_ok hposition
      simp only [done_ok_bind, ok_bind, Altitude.checkedAt_eq, Altitude.decodeAt_eq hstop,
        tail_eq hstop, Option.some.injEq]
      rfl

end Item

end Aprs
