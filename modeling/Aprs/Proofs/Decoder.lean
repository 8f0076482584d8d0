import Aprs.Decoder
import Aprs.Proofs.Except

namespace Aprs

/-- Telling an error of a part to a part and then to the whole is telling it to the whole. -/
theorem DecodeError.locate_locate (error : DecodeError) (inner outer length whole : Nat) :
    (error.locate inner length).locate outer whole = error.locate (outer + inner) whole := by
  cases error <;> simp [DecodeError.locate, Nat.add_assoc]

/-- An error that holds the octets that were refused and does not tell of a place. -/
def DecodeError.IsUnplaced : DecodeError → Prop
  | .cursorOutOfBounds _ _ => False
  | _ => True

theorem DecodeError.IsUnplaced.ne {error : DecodeError} (herror : error.IsUnplaced)
    (cursor length : Nat) : error ≠ .cursorOutOfBounds cursor length := by
  rintro rfl
  exact herror

theorem DecodeError.IsUnplaced.locate_eq {error : DecodeError} (herror : error.IsUnplaced)
    (start length : Nat) : error.locate start length = error := by
  cases error with
  | cursorOutOfBounds => exact herror.elim
  | _ => rfl

theorem DecodeError.locate_eq_cursorOutOfBounds_iff {error : DecodeError}
    {start whole cursor length : Nat} :
    error.locate start whole = .cursorOutOfBounds cursor length ↔
      ∃ inner innerLength, error = .cursorOutOfBounds inner innerLength ∧
        cursor = start + inner ∧ length = whole := by
  cases error with
  | cursorOutOfBounds inner innerLength => simp [locate, eq_comm]
  | _ => simp [locate]

/-- A result is no error that tells of a place. -/
def Unplaced {α : Type} (result : Except DecodeError α) : Prop :=
  ∀ error, result = .error error → error.IsUnplaced

theorem Unplaced.ok {α : Type} (value : α) : Unplaced (.ok value) := by
  intro error herror
  cases herror

theorem Unplaced.error {α : Type} {error : DecodeError} (herror : error.IsUnplaced) :
    Unplaced (.error error : Except DecodeError α) := by
  rintro _ ⟨⟩
  exact herror

theorem Unplaced.bind {α β : Type} {result : Except DecodeError α} {f : α → Except DecodeError β}
    (hresult : Unplaced result) (hf : ∀ a, Unplaced (f a)) : Unplaced (result >>= f) := by
  intro error herror
  rcases bind_eq_error_iff.1 herror with herror | ⟨a, _, herror⟩
  · exact hresult error herror
  · exact hf a error herror

theorem Unplaced.map {α β : Type} {result : Except DecodeError α} (hresult : Unplaced result)
    (f : α → β) : Unplaced (result.map f) := by
  intro error herror
  exact hresult error (map_eq_error_iff.1 herror)

theorem Unplaced.elim {α : Type} {error : DecodeError} (herror : error.IsUnplaced)
    (value : Option α) : Unplaced (value.elim (.error error) .ok) := by
  cases value with
  | none => exact .error herror
  | some a => exact .ok a

namespace Decoder

variable {α : Type} {decode : Decoder α} {body : Bytes} {cursor stop : Nat} {value : α}
  {error : DecodeError}

/-- Only what stands in a body from the cursor on is decoded. -/
theorem runAt_congr {other : Decoder α} (h : decode (body.drop cursor) = other (body.drop cursor)) :
    decode.runAt body cursor = other.runAt body cursor := by
  unfold runAt
  rw [h]

/-- A run at a cursor is a run of the decoder on what stands there. -/
theorem runAt_eq_ok_iff :
    decode.runAt body cursor = .ok (value, stop) ↔
      ∃ rest, decode (body.drop cursor) = .ok (value, rest) ∧ stop = body.length - rest.length := by
  unfold runAt
  cases decode (body.drop cursor) with
  | error error => simp
  | ok result =>
    obtain ⟨actual, rest⟩ := result
    constructor
    · intro h
      obtain ⟨rfl, rfl⟩ := Prod.mk.inj (Except.ok.inj h)
      exact ⟨rest, rfl, rfl⟩
    · rintro ⟨_, h, rfl⟩
      obtain ⟨rfl, rfl⟩ := Prod.mk.inj (Except.ok.inj h)
      rfl

theorem exists_runAt_iff :
    (∃ result, decode.runAt body cursor = .ok result) ↔
      ∃ result, decode (body.drop cursor) = .ok result := by
  unfold runAt
  cases decode (body.drop cursor) <;> simp

theorem runAt_eq_error_iff :
    decode.runAt body cursor = .error error ↔
      ∃ cause, decode (body.drop cursor) = .error cause ∧
        error = cause.locate cursor body.length := by
  unfold runAt
  cases decode (body.drop cursor) with
  | error cause => simp [eq_comm]
  | ok result => simp

/-- An error that tells of no place is the same at every cursor. -/
theorem runAt_eq_error_iff_of_unplaced (hdecode : Unplaced (decode (body.drop cursor))) :
    decode.runAt body cursor = .error error ↔ decode (body.drop cursor) = .error error := by
  rw [runAt_eq_error_iff]
  constructor
  · rintro ⟨cause, hcause, rfl⟩
    rwa [(hdecode cause hcause).locate_eq]
  · intro herror
    exact ⟨error, herror, ((hdecode error herror).locate_eq ..).symm⟩

theorem runAt_unplaced (hdecode : Unplaced (decode (body.drop cursor))) :
    Unplaced (decode.runAt body cursor) := by
  intro error herror
  exact hdecode error ((runAt_eq_error_iff_of_unplaced hdecode).1 herror)

/-- A run tells of a place exactly if the decoder does, and counts it from the start of the
body. -/
theorem runAt_placed_iff {place length : Nat} :
    decode.runAt body cursor = .error (.cursorOutOfBounds place length) ↔
      ∃ inner innerLength,
        decode (body.drop cursor) = .error (.cursorOutOfBounds inner innerLength) ∧
        place = cursor + inner ∧ length = body.length := by
  rw [runAt_eq_error_iff]
  constructor
  · rintro ⟨cause, hcause, hlocate⟩
    obtain ⟨inner, innerLength, rfl, hplace, hlength⟩ :=
      DecodeError.locate_eq_cursorOutOfBounds_iff.1 hlocate.symm
    exact ⟨inner, innerLength, hcause, hplace, hlength⟩
  · rintro ⟨inner, innerLength, hcause, rfl, rfl⟩
    exact ⟨_, hcause, rfl⟩

/-- An error at a place inside of a part is told of the part first and of the body then. -/
theorem mapError_locate_of_runAt {n : Nat} (length : Nat)
    (hrun : decode.runAt body (cursor + n) = .error error) :
    ∃ inner, (decode (body.drop (cursor + n))).mapError (·.locate n length) = .error inner ∧
      inner.locate cursor body.length = error := by
  obtain ⟨cause, hcause, rfl⟩ := runAt_eq_error_iff.1 hrun
  exact ⟨cause.locate n length, by rw [hcause]; rfl, cause.locate_locate ..⟩

theorem runWithin_eq_ok_iff {result : α × Nat} :
    decode.runWithin body cursor = .ok result ↔
      cursor ≤ body.length ∧ decode.runAt body cursor = .ok result := by
  unfold runWithin
  split
  · simp [*]
  · simp [*]

/-- Where every octet string is read, a cursor past the end is the only error. -/
theorem runWithin_eq_error_iff (hdecode : ∀ b, ∃ result, decode b = .ok result) :
    decode.runWithin body cursor = .error error ↔
      body.length < cursor ∧ error = .cursorOutOfBounds cursor body.length := by
  unfold runWithin
  split
  case isTrue hcursor =>
    obtain ⟨⟨value, rest⟩, hok⟩ := hdecode (body.drop cursor)
    refine iff_of_false ?_ fun h => by omega
    unfold runAt
    rw [hok]
    rintro ⟨⟩
  case isFalse hcursor => simp [eq_comm, Nat.lt_of_not_le hcursor]

/-- A decoder reads each value off the front of the octets, `width` of them. -/
def Takes (decode : Decoder α) (width : α → Nat) : Prop :=
  ∀ ⦃b value rest⦄, decode b = .ok (value, rest) → width value ≤ b.length ∧ rest = b.drop (width value)

/-- A decoder leaves an end of the octets. How many it took is not told by the value alone. -/
def LeavesSuffix (decode : Decoder α) : Prop :=
  ∀ ⦃b value rest⦄, decode b = .ok (value, rest) → rest <:+ b

/-- What is left behind a value is what stands in the body from the returned cursor on. A
cursor past the end is not moved back only if the decoder reads something. -/
theorem LeavesSuffix.runAt_ok (hsuffix : decode.LeavesSuffix) (hcursor : cursor ≤ body.length)
    (hrun : decode.runAt body cursor = .ok (value, stop)) :
    cursor ≤ stop ∧ stop ≤ body.length ∧
      decode (body.drop cursor) = .ok (value, body.drop stop) := by
  obtain ⟨rest, hdecode, rfl⟩ := runAt_eq_ok_iff.1 hrun
  obtain ⟨used, hused⟩ := hsuffix hdecode
  have hlength := congrArg List.length hused
  simp only [List.length_append, List.length_drop] at hlength
  have hrest : body.drop (body.length - rest.length) = rest := by
    have hstop : body.length - rest.length = cursor + used.length := by omega
    rw [hstop, ← List.drop_drop, ← hused, List.drop_left]
  exact ⟨by omega, by omega, by rw [hrest, hdecode]⟩

/-- A decoder of values that are at least one octet wide moves the cursor by the width of
the value, and no cursor past the end lets it succeed. -/
theorem Takes.runAt_ok {width : α → Nat} (htakes : decode.Takes width)
    (hpositive : 0 < width value) (hrun : decode.runAt body cursor = .ok (value, stop)) :
    stop = cursor + width value ∧ stop ≤ body.length ∧
      decode (body.drop cursor) = .ok (value, body.drop stop) := by
  obtain ⟨rest, hdecode, rfl⟩ := runAt_eq_ok_iff.1 hrun
  obtain ⟨hwidth, rfl⟩ := htakes hdecode
  rw [List.length_drop] at hwidth
  have hstop : body.length - ((body.drop cursor).drop (width value)).length =
      cursor + width value := by
    simp only [List.length_drop]
    omega
  rw [hstop]
  exact ⟨rfl, by omega, by rw [hdecode, List.drop_drop]⟩

theorem Takes.runAt_bounds {width : α → Nat} (htakes : decode.Takes width)
    (hpositive : ∀ value, 0 < width value) (hrun : decode.runAt body cursor = .ok (value, stop)) :
    cursor < stop ∧ stop ≤ body.length := by
  obtain ⟨rfl, hstop, _⟩ := htakes.runAt_ok (hpositive value) hrun
  have hwidth := hpositive value
  exact ⟨by omega, hstop⟩

theorem field_eq_ok_iff {width : Nat} {refusal : Bytes → DecodeError}
    {read : List Char → Option α} {b rest : Bytes} :
    field width refusal read b = .ok (value, rest) ↔
      width ≤ b.length ∧ read (Latin1.decode (b.take width)) = some value ∧
        rest = b.drop width := by
  unfold field splitAt?
  by_cases hwidth : width ≤ b.length
  · rw [if_pos hwidth]
    cases hread : read (Latin1.decode (b.take width)) <;> simp [hread, hwidth, eq_comm]
  · rw [if_neg hwidth]
    simp [hwidth]

/-- A field that is refused is refused whole, and one that is too short with what there is. -/
theorem field_eq_error_iff {width : Nat} {refusal : Bytes → DecodeError}
    {read : List Char → Option α} {b : Bytes} :
    field width refusal read b = .error error ↔
      (width ≤ b.length → read (Latin1.decode (b.take width)) = none) ∧
        error = refusal (b.take width) := by
  unfold field splitAt?
  by_cases hwidth : width ≤ b.length
  · rw [if_pos hwidth]
    cases hread : read (Latin1.decode (b.take width)) <;> simp [hread, hwidth, eq_comm]
  · have hshort : b.take width = b := List.take_of_length_le (Nat.le_of_not_le hwidth)
    rw [if_neg hwidth, hshort]
    simp [hwidth, eq_comm]

/-- A field that is read is read whatever follows it. -/
theorem field_append {width : Nat} {refusal : Bytes → DecodeError} {read : List Char → Option α}
    {b rest : Bytes} (hfield : field width refusal read b = .ok (value, rest)) (more : Bytes) :
    field width refusal read (b ++ more) = .ok (value, rest ++ more) := by
  obtain ⟨hwidth, hread, rfl⟩ := field_eq_ok_iff.1 hfield
  refine field_eq_ok_iff.2 ⟨?_, ?_, ?_⟩
  · rw [List.length_append]
    omega
  · rw [List.take_append_of_le_length hwidth, hread]
  · rw [List.drop_append_of_le_length hwidth]

/-- A decoder of blocks of one width, which are read without looking at what follows. -/
def ReadsBlock (decode : Decoder α) (width : Nat) (refusal : Bytes → DecodeError)
    (read : (block : Bytes) → block.length = width → Except DecodeError α) : Prop :=
  ∀ b, decode b =
    if hwidth : width ≤ b.length then
      (read (b.take width) (List.length_take_of_le hwidth)).map (·, b.drop width)
    else .error (refusal b)

/-- A field is read whole or refused whole. -/
theorem field_readsBlock (width : Nat) (refusal : Bytes → DecodeError)
    (read : List Char → Option α) :
    (field width refusal read).ReadsBlock width refusal fun text _ =>
      (read (Latin1.decode text)).elim (.error (refusal text)) .ok := by
  intro b
  unfold field splitAt?
  by_cases hwidth : width ≤ b.length
  · rw [if_pos hwidth, dif_pos hwidth]
    cases hread : read (Latin1.decode (b.take width)) <;> simp [hread, Except.map]
  · rw [if_neg hwidth, dif_neg hwidth]

section ReadsBlock

variable {width : Nat} {refusal : Bytes → DecodeError}
  {read : (block : Bytes) → block.length = width → Except DecodeError α}

theorem ReadsBlock.takes {size : α → Nat} (hdecode : decode.ReadsBlock width refusal read)
    (hsize : ∀ ⦃block hblock value⦄, read block hblock = .ok value → size value = width) :
    decode.Takes size := by
  intro b value rest hok
  rw [hdecode b] at hok
  split at hok
  case isFalse => cases hok
  case isTrue hwidth =>
    obtain ⟨_, hread, heq⟩ := map_eq_ok_iff.1 hok
    obtain ⟨rfl, rfl⟩ := Prod.mk.inj heq
    rw [hsize hread]
    exact ⟨hwidth, rfl⟩

theorem ReadsBlock.unplaced (hdecode : decode.ReadsBlock width refusal read)
    (hrefusal : ∀ b, (refusal b).IsUnplaced)
    (hread : ∀ block hblock, Unplaced (read block hblock)) (b : Bytes) : Unplaced (decode b) := by
  rw [hdecode b]
  split
  case isTrue => exact (hread _ _).map _
  case isFalse => exact .error (hrefusal b)

end ReadsBlock

theorem field_takes (width : Nat) (refusal : Bytes → DecodeError)
    (read : List Char → Option α) : (field width refusal read).Takes fun _ => width :=
  (field_readsBlock width refusal read).takes fun _ _ _ _ => rfl

theorem field_unplaced {width : Nat} {refusal : Bytes → DecodeError} {read : List Char → Option α}
    (hrefusal : ∀ b, (refusal b).IsUnplaced) (b : Bytes) :
    Unplaced (field width refusal read b) :=
  (field_readsBlock width refusal read).unplaced hrefusal
    (fun text _ => .elim (hrefusal text) _) b

end Decoder

end Aprs
