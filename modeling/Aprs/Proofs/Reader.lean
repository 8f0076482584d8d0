import Aprs.Coordinate.Exact
import Aprs.Proofs.Checked.Report
import Aprs.Proofs.Checked.Weather

namespace Aprs

/-- The decoders that are started at a cursor of a body. -/
inductive Reader where
  | timestamp
  | monthly
  | extension
  | position
  | positionWithExtension
  | weather
  | message
  | object
  | item
  | altitude
  deriving DecidableEq, Repr

namespace Reader

open Checked

/-- What a decoder returns besides a cursor. -/
def Value (R : Type) : Reader → Type
  | timestamp | monthly => Timestamp
  | extension => Extension
  | position => Position R
  | positionWithExtension => Position R × Option Extension
  | weather => Weather
  | message => Message
  | object => Object R
  | item => Item R
  | altitude => Option Nat

/-- A weather report may be empty, and an altitude stays a part of its comment. -/
def consumes : Reader → Bool
  | weather | altitude => false
  | _ => true

variable {R : Type} [Arithmetic R]

/-- What the decoders do at a cursor of a body. -/
def decodeAt : (r : Reader) → Bytes → Nat → Except DecodeError (r.Value R × Nat)
  | timestamp => Timestamp.decode.runAt
  | monthly => Timestamp.decodeMonthly.runAt
  | extension => Extension.decode.runAt
  | position => Position.decode.runAt
  | positionWithExtension => Position.decodeWithExtension.runAt
  | weather => Weather.decodeAt
  | message => Message.decode.runAt
  | object => Object.decode.runAt
  | item => Item.decode.runAt
  | altitude => Altitude.decodeAt

/-- The same decoders as a machine of 64 bits runs them. -/
def checkedAt : (r : Reader) → Bytes → Nat → Checked (r.Value R × Nat)
  | timestamp => Timestamp.checkedAt
  | monthly => Timestamp.checkedMonthlyAt
  | extension => Extension.checkedAt
  | position => Position.checkedAt
  | positionWithExtension => Position.checkedWithExtensionAt
  | weather => Weather.checkedAt
  | message => Message.checkedAt
  | object => Object.checkedAt
  | item => Item.checkedAt
  | altitude => Altitude.checkedAt

/-- Where a decoder finds that there is nothing to decode. An object or an item looks for its
position behind the octets in front of it. -/
def OutOfBounds : Reader → Bytes → Nat → Nat → Prop
  | weather, b, cursor, place | altitude, b, cursor, place => b.length < cursor ∧ place = cursor
  | position, b, cursor, place | positionWithExtension, b, cursor, place =>
    b.length ≤ cursor ∧ place = cursor
  | object, b, cursor, place =>
    cursor + 17 = b.length ∧
      (∃ t, Timestamp.decode.runAt b (cursor + 10) = .ok (t, b.length)) ∧ place = b.length
  | item, b, cursor, place =>
    (∃ n, Item.nameLength? (b.drop cursor) = some n ∧ cursor + n + 1 = b.length) ∧
      place = b.length
  | timestamp, _, _, _ | monthly, _, _, _ | extension, _, _, _ | message, _, _, _ => False

/-- The cursors after each of the decoders, of which each is started where the one before
ended. One that fails leaves the cursor where it is, and a trap ends it all. -/
def run (R : Type) [Arithmetic R] (b : Bytes) : List Reader → Nat → Except Trap (List Nat)
  | [], _ => .ok []
  | r :: readers, cursor => do
    let result ← (r.checkedAt (R := R) b cursor).run
    let cursor := result.toOption.elim cursor Prod.snd
    let cursors ← run R b readers cursor
    return cursor :: cursors

variable {b : Bytes} {cursor stop : Nat}

/-- On a body that fits the memory, the machine decodes as if it had no bounds. -/
theorem checkedAt_eq (hlength : b.length < 2 ^ 63) (r : Reader) (cursor : Nat) :
    r.checkedAt (R := R) b cursor = done (r.decodeAt b cursor) := by
  cases r with
  | timestamp => exact Timestamp.checkedAt_eq hlength cursor
  | monthly => exact Timestamp.checkedMonthlyAt_eq hlength cursor
  | extension => exact Extension.checkedAt_eq hlength cursor
  | position => exact Position.checkedAt_eq hlength cursor
  | positionWithExtension => exact Position.checkedWithExtensionAt_eq hlength cursor
  | weather => exact Weather.checkedAt_eq hlength cursor
  | message => exact Message.checkedAt_eq b cursor
  | object => exact Object.checkedAt_eq hlength cursor
  | item => exact Item.checkedAt_eq hlength cursor
  | altitude => exact Altitude.checkedAt_eq b cursor

/-- A decoder that takes octets moves the cursor, and no decoder moves it back or past the
end of the body. -/
theorem decodeAt_bounds {r : Reader} {value : r.Value R}
    (hrun : r.decodeAt b cursor = .ok (value, stop)) :
    cursor ≤ stop ∧ stop ≤ b.length ∧ (r.consumes → cursor < stop) := by
  have hforward (h : cursor < stop ∧ stop ≤ b.length) :
      cursor ≤ stop ∧ stop ≤ b.length ∧ (r.consumes → cursor < stop) :=
    ⟨Nat.le_of_lt h.1, h.2, fun _ => h.1⟩
  cases r with
  | timestamp => exact hforward (Timestamp.decode_takes.runAt_bounds (fun _ => by decide) hrun)
  | monthly => exact hforward (Timestamp.decodeMonthly_takes.runAt_bounds (fun _ => by decide) hrun)
  | extension => exact hforward (Extension.decode_takes.runAt_bounds (fun _ => by decide) hrun)
  | position => exact hforward (Position.decode_takes.runAt_bounds Position.width_pos hrun)
  | positionWithExtension =>
    refine hforward (Position.decodeWithExtension_takes.runAt_bounds ?_ hrun)
    exact fun (p, _) => Nat.add_pos_left p.width_pos _
  | message =>
    obtain ⟨hstart, rfl⟩ := Message.decode_runAt_bounds hrun
    exact hforward ⟨hstart, Nat.le_refl _⟩
  | object => exact hforward (Object.decode_takes.runAt_bounds Object.width_pos hrun)
  | item => exact hforward (Item.decode_takes.runAt_bounds Item.width_pos hrun)
  | weather =>
    obtain ⟨hstart, hstop⟩ := Weather.decodeAt_bounds hrun
    exact ⟨hstart, hstop, fun h => by cases h⟩
  | altitude =>
    obtain ⟨hcursor, _⟩ := Decoder.runWithin_eq_ok_iff.1 hrun
    obtain ⟨_, rfl⟩ := Prod.mk.inj (Except.ok.inj ((Altitude.decodeAt_eq hcursor).symm.trans hrun))
    exact ⟨Nat.le_refl _, hcursor, fun h => by cases h⟩

/-- A decoder tells of a cursor out of bounds exactly where there is nothing for it to decode. -/
theorem decodeAt_outOfBounds_iff (r : Reader) {place length : Nat} :
    r.decodeAt (R := R) b cursor = .error (.cursorOutOfBounds place length) ↔
      r.OutOfBounds b cursor place ∧ length = b.length := by
  have hnever {result : Except DecodeError (r.Value R × Nat)} (hunplaced : Unplaced result) :
      result = .error (.cursorOutOfBounds place length) ↔ False ∧ length = b.length :=
    iff_of_false (fun h => hunplaced _ h) And.left
  cases r with
  | timestamp => exact hnever (Decoder.runAt_unplaced (Timestamp.decode_unplaced _))
  | monthly => exact hnever (Decoder.runAt_unplaced (Timestamp.decodeMonthly_unplaced _))
  | extension => exact hnever (Decoder.runAt_unplaced (Extension.decode_unplaced _))
  | message => exact hnever (Decoder.runAt_unplaced (Message.decode_unplaced _))
  | position => exact Position.decode_runAt_placed_iff.trans and_assoc.symm
  | positionWithExtension =>
    exact Position.decodeWithExtension_runAt_placed_iff.trans and_assoc.symm
  | object =>
    refine Object.decode_runAt_placed_iff.trans ?_
    simp only [OutOfBounds, and_assoc]
  | item => exact Item.decode_runAt_placed_iff.trans and_assoc.symm
  | weather =>
    refine Weather.decodeAt_eq_error_iff.trans ?_
    simp only [OutOfBounds, DecodeError.cursorOutOfBounds.injEq, and_assoc]
  | altitude =>
    refine Altitude.decodeAt_eq_error_iff.trans ?_
    simp only [OutOfBounds, DecodeError.cursorOutOfBounds.injEq, and_assoc]

/-- Where one decoder leaves the cursor. -/
theorem run_cons (hlength : b.length < 2 ^ 63) (r : Reader) (readers : List Reader) (cursor : Nat) :
    ∃ next, cursor ≤ next ∧ next ≤ max cursor b.length ∧
      run R b (r :: readers) cursor = (run R b readers next).map (next :: ·) := by
  have hrun : run R b (r :: readers) cursor =
      (run R b readers ((r.decodeAt (R := R) b cursor).toOption.elim cursor Prod.snd)).map
        (((r.decodeAt (R := R) b cursor).toOption.elim cursor Prod.snd) :: ·) := by
    rw [run, checkedAt_eq hlength]
    rfl
  cases hdecode : r.decodeAt (R := R) b cursor with
  | error e =>
    rw [hdecode] at hrun
    exact ⟨cursor, Nat.le_refl _, Nat.le_max_left _ _, hrun⟩
  | ok parts =>
    obtain ⟨value, stop⟩ := parts
    obtain ⟨hstart, hstop, _⟩ := decodeAt_bounds hdecode
    rw [hdecode] at hrun
    exact ⟨stop, hstart, Nat.le_trans hstop (Nat.le_max_right _ _), hrun⟩

/-- Each started where the one before ended, decoders never go back, and none passes the end of
the body unless it was started behind it. -/
theorem run_ok (hlength : b.length < 2 ^ 63) (readers : List Reader) (cursor : Nat) :
    ∃ cursors, run R b readers cursor = .ok cursors ∧ cursors.length = readers.length ∧
      (cursor :: cursors).Pairwise (· ≤ ·) ∧ ∀ c ∈ cursors, c ≤ max cursor b.length := by
  induction readers generalizing cursor with
  | nil => exact ⟨[], rfl, rfl, by simp, by simp⟩
  | cons r readers ih =>
    obtain ⟨next, hforward, hnext, hrun⟩ := run_cons (R := R) hlength r readers cursor
    obtain ⟨cursors, hok, hcount, hsorted, hbound⟩ := ih next
    rw [hok] at hrun
    have hlater := (List.pairwise_cons.1 hsorted).1
    refine ⟨next :: cursors, hrun, by simp [hcount], ?_, ?_⟩
    · refine List.pairwise_cons.2 ⟨?_, hsorted⟩
      intro c hc
      rcases List.mem_cons.1 hc with rfl | hc
      · exact hforward
      · exact Nat.le_trans hforward (hlater c hc)
    · intro c hc
      rcases List.mem_cons.1 hc with rfl | hc
      · exact hnext
      · have hle := hbound c hc
        omega

/-- What the decoders of a body have in common on a machine of 64 bits. -/
structure CursorSafe (R : Type) [Arithmetic R] (b : Bytes) : Prop where
  /-- Each decoder returns a value or an error from every cursor, the same as without limits. -/
  total (r : Reader) (cursor : Nat) : cursor < 2 ^ 64 →
    r.checkedAt (R := R) b cursor = done (r.decodeAt b cursor)
  bounds (r : Reader) (cursor stop : Nat) (value : r.Value R) :
    r.decodeAt b cursor = .ok (value, stop) →
      cursor ≤ stop ∧ stop ≤ b.length ∧ (r.consumes → cursor < stop)
  outOfBounds_iff (r : Reader) (cursor place length : Nat) :
    r.decodeAt (R := R) b cursor = .error (.cursorOutOfBounds place length) ↔
      r.OutOfBounds b cursor place ∧ length = b.length
  /-- In a chain of decoders the cursor is moved forward or stays, and not past the end. -/
  chain (readers : List Reader) (cursor : Nat) : cursor < 2 ^ 64 →
    ∃ cursors, run R b readers cursor = .ok cursors ∧ cursors.length = readers.length ∧
      (cursor :: cursors).Pairwise (· ≤ ·) ∧ ∀ c ∈ cursors, c ≤ max cursor b.length

/-- No body that fits the memory makes a decoder leave it. -/
theorem cursorSafe_of_length_lt (hlength : b.length < 2 ^ 63) : CursorSafe R b where
  total r cursor _ := checkedAt_eq hlength r cursor
  bounds _ _ _ _ := decodeAt_bounds
  outOfBounds_iff r _ _ _ := r.decodeAt_outOfBounds_iff
  chain readers cursor _ := run_ok hlength readers cursor

/-- A body with an item in it fits the memory, and so no decoder leaves it from any cursor. -/
theorem cursorSafe_item :
    (Latin1.ascii ")AID #2!4903.50N/07201.75WA").length < 2 ^ 63 ∧
      CursorSafe Exact (Latin1.ascii ")AID #2!4903.50N/07201.75WA") :=
  ⟨by decide, cursorSafe_of_length_lt (by decide)⟩

/-- A position that is not there is told of with an extension as it is without. -/
theorem positionWithExtension_outOfBounds :
    positionWithExtension ∉ [altitude, weather, position, object, item] ∧
      positionWithExtension.decodeAt (R := Exact) [] 0 = .error (.cursorOutOfBounds 0 0) :=
  ⟨by decide, rfl⟩

end Reader

end Aprs
