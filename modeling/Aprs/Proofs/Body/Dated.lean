import Aprs.Coordinate.Exact
import Aprs.Packet
import Aprs.Proofs.Body.Outcome
import Aprs.Proofs.Place

namespace Aprs

/-- The letter or slash at the end of a time. -/
theorem Timestamp.exists_mark {ts : Bytes} {t : Timestamp} (hts : decode ts = .ok (t, [])) :
    ∃ front mark, ts = front ++ [mark] ∧ mark ≠ 0x0A ∧ mark ≠ 0x0D := by
  obtain ⟨hlength, htext, hrest⟩ := Decoder.field_eq_ok_iff.1 hts
  rw [List.take_of_length_le (List.drop_eq_nil_iff.1 hrest.symm)] at htext
  unfold ofText? at htext
  split at htext
  case h_2 => cases htext
  case h_1 a b c d e f mark heq =>
    simp only [bind, Option.bind_eq_some_iff] at htext
    obtain ⟨_, _, _, _, _, _, hform⟩ := htext
    refine ⟨Latin1.encode [a, b, c, d, e, f], mark.toUInt8, ?_, ?_⟩
    · rw [← Latin1.encode_decode ts, heq]
      rfl
    · split at hform
      case h_4 => cases hform
      all_goals decide

variable {R : Type}

namespace Body

/-- What is read of the octets behind a position that has no weather report. -/
def withComment (before : List (Element R)) (p : Position R) (rest : Bytes) : Information R :=
  let (extension, comment) := p.readExtension rest
  { elements := before ++ [.position { p with altitude := Altitude.scan comment }]
    comment, extension }

/-- What is read of the octets behind the position of a weather station. -/
def withWeather (before : List (Element R)) (p : Position R) (rest : Bytes) : Information R :=
  let (weather, comment) := Weather.read rest
  { elements := before ++ [.position p, .weather weather], comment }

/-- Behind a position that is in the body, only what is left of the body counts. -/
theorem decodeComment_eq_withComment (before : List (Element R)) (p : Position R) {s : Bytes}
    {cursor : Nat} (hcursor : cursor ≤ s.length) :
    decodeComment before p s cursor = .ok (withComment before p (s.drop cursor)) := by
  obtain ⟨extension, stop, hextension, _, _, hcomment⟩ := decodeComment_eq before p hcursor
  obtain ⟨_, hrest⟩ := p.readExtension_snd (s.drop cursor)
  have hsuffix : (p.readExtension (s.drop cursor)).2 <:+ s := by
    rw [hrest]
    exact (List.drop_suffix _ _).trans (List.drop_suffix _ _)
  rw [p.extensionAt_eq hcursor] at hextension
  obtain ⟨rfl, rfl⟩ := Prod.mk.inj hextension
  rw [hcomment, ← List.suffix_iff_eq_drop.1 hsuffix]
  rfl

/-- Behind the position of a weather station, only what is left of the body counts. -/
theorem decodeStation_eq_withWeather (before : List (Element R)) (p : Position R) {s : Bytes}
    {cursor : Nat} (hcursor : cursor ≤ s.length) :
    decodeStation before p s cursor = .ok (withWeather before p (s.drop cursor)) := by
  have hsuffix : (Weather.read (s.drop cursor)).2 <:+ s :=
    (Weather.readTokens_suffix _).trans (List.drop_suffix _ _)
  have hweather : Weather.decodeAt s cursor = .ok ((Weather.read (s.drop cursor)).1,
      s.length - (Weather.read (s.drop cursor)).2.length) :=
    Decoder.runWithin_eq_ok_iff.2 ⟨hcursor, rfl⟩
  unfold decodeStation decodeAfter
  rw [hweather, ok_mapError, ok_bind]
  dsimp only
  rw [← List.suffix_iff_eq_drop.1 hsuffix]
  rfl

variable [Arithmetic R]

/-- What is read of a position and the octets behind it, if some octets and what is known from
them come before it. -/
def decodeFrom (before : List (Element R)) (station : Position R → Prop) [DecidablePred station]
    (front s : Bytes) : Except (Failure R) (Information R) :=
  match Position.decode s with
  | .error e => .error {
      known := { elements := before }
      error := e.locate front.length (front ++ s).length
      cursor := front.length }
  | .ok (p, rest) => .ok ((if station p then withWeather else withComment) before p rest)

theorem decodeFrom_of_error {s : Bytes} {e : DecodeError}
    (hposition : Position.decode (R := R) s = .error e) (before : List (Element R))
    (station : Position R → Prop) [DecidablePred station] (front : Bytes) :
    decodeFrom before station front s = .error {
      known := { elements := before }
      error := e.locate front.length (front.length + s.length)
      cursor := front.length } := by
  unfold decodeFrom
  rw [hposition, List.length_append]

theorem decodeFrom_of_ok {s rest : Bytes} {p : Position R}
    (hposition : Position.decode s = .ok (p, rest)) (before : List (Element R))
    (station : Position R → Prop) [DecidablePred station] (front : Bytes) :
    decodeFrom before station front s =
      .ok ((if station p then withWeather else withComment) before p rest) := by
  unfold decodeFrom
  rw [hposition]

/-- The octets in front of a position count only for their number, which errors tell. -/
theorem decodeFrom_eq (before : List (Element R)) (station : Position R → Prop)
    [DecidablePred station] (front s : Bytes) :
    (do
      let (p, cursor) ← decodeAfter before Position.decode.runAt (front ++ s) front.length
      (if station p then decodeStation else decodeComment) before p (front ++ s) cursor) =
    decodeFrom before station front s := by
  unfold decodeFrom decodeAfter
  cases hposition : Position.decode (R := R) s with
  | error e =>
    have hrun : Position.decode.runAt (front ++ s) front.length =
        .error (e.locate front.length (front ++ s).length) :=
      Decoder.runAt_eq_error_iff.2 ⟨e, by rw [List.drop_left, hposition], rfl⟩
    rw [hrun]
    rfl
  | ok parts =>
    obtain ⟨p, rest⟩ := parts
    have hrun : Position.decode.runAt (front ++ s) front.length =
        .ok (p, (front ++ s).length - rest.length) :=
      Decoder.runAt_eq_ok_iff.2 ⟨rest, by rw [List.drop_left, hposition], rfl⟩
    obtain ⟨_, hlength, hdecode⟩ := Position.decode_takes.runAt_ok p.width_pos hrun
    rw [List.drop_left, hposition] at hdecode
    obtain ⟨_, hrest⟩ := Prod.mk.inj (Except.ok.inj hdecode)
    rw [hrun, ok_mapError, ok_bind]
    dsimp only
    by_cases hp : station p
    · rw [if_pos hp, if_pos hp, decodeStation_eq_withWeather before p hlength, ← hrest]
    · rw [if_neg hp, if_neg hp, decodeComment_eq_withComment before p hlength, ← hrest]

/-- The octet that a position without a time in front of it begins with. -/
def plainMark (messaging : Bool) : UInt8 := if messaging then 0x3D else 0x21

/-- The octet that a position with a time in front of it begins with. -/
def datedMark (messaging : Bool) : UInt8 := if messaging then 0x40 else 0x2F

/-- Without a time, the position begins behind the first octet. -/
theorem read_plain (messaging : Bool) (r : Bytes) :
    read (R := R) (DataType.ofByte (plainMark messaging))
        (stripTerminator (plainMark messaging :: r)) =
      finish messaging (decodeFrom []
        (fun p => p.isWeatherStation ∧ 20 < (stripTerminator r).length + 1)
        [plainMark messaging] (stripTerminator r)) := by
  have htype : DataType.ofByte (plainMark messaging) = .position false messaging := by
    cases messaging <;> rfl
  have hstrip : stripTerminator (plainMark messaging :: r) =
      plainMark messaging :: stripTerminator r :=
    stripTerminator_append_cons (by cases messaging <;> decide) (by cases messaging <;> decide) [] r
  rw [htype, hstrip, ← decodeFrom_eq]
  rfl

/-- With a time, the position begins behind it, and the time is known before. -/
theorem read_dated {ts : Bytes} {t : Timestamp} (hts : Timestamp.decode ts = .ok (t, []))
    (messaging : Bool) (r : Bytes) :
    read (R := R) (DataType.ofByte (datedMark messaging))
        (stripTerminator (datedMark messaging :: (ts ++ r))) =
      finish messaging (decodeFrom [.timestamp t] (fun p => p.isWeatherStation)
        (datedMark messaging :: ts) (stripTerminator r)) := by
  have htype : DataType.ofByte (datedMark messaging) = .position true messaging := by
    cases messaging <;> rfl
  have hstrip : stripTerminator (datedMark messaging :: (ts ++ r)) =
      datedMark messaging :: (ts ++ stripTerminator r) := by
    obtain ⟨front, mark, rfl, hlf, hcr⟩ := Timestamp.exists_mark hts
    simpa using stripTerminator_append_cons hlf hcr (datedMark messaging :: front) r
  have hrun : Timestamp.decode.runAt (datedMark messaging :: (ts ++ stripTerminator r)) 1 =
      .ok (t, (datedMark messaging :: ts).length) := by
    refine Decoder.runAt_eq_ok_iff.2 ⟨_, Decoder.field_append hts (stripTerminator r), ?_⟩
    rw [← List.cons_append, List.length_append, List.nil_append, Nat.add_sub_cancel]
  rw [htype, hstrip, ← decodeFrom_eq]
  simp only [read, decodeTimestampedPosition, decodeAfter, hrun]
  rfl

end Body

/-- Where a position is missing the error tells where, and where it is wrong only what is wrong. -/
theorem Position.message_locate_eq_iff [Arithmetic R] {s : Bytes} {e : DecodeError}
    (hposition : Position.decode (R := R) s = .error e) :
    (e.locate 8 (8 + s.length)).message = (e.locate 1 (1 + s.length)).message ↔ s ≠ [] := by
  by_cases hs : s = []
  · subst hs
    cases hposition
    decide
  · have hunplaced := Position.decode_unplaced hs e hposition
    rw [hunplaced.locate_eq, hunplaced.locate_eq]
    exact iff_of_true rfl hs

variable [Arithmetic R]

/-- What packets of one report with a time in front of it and without have in common. -/
structure Packet.IsDated (t : Timestamp) (messaging : Bool) (s : Bytes) (plain dated : Packet R) :
    Prop where
  /-- A position that is refused is refused for the same reason, if there is any. -/
  refused : ∀ e, (Position.decode (R := R)).runAt s 0 = .error e → ∃ reason datedReason,
    plain.fault = some reason ∧ dated.fault = some datedReason ∧
    plain.information = { elements := [.fault ⟨reason, 1⟩], messaging } ∧
    dated.information = { elements := [.timestamp t, .fault ⟨datedReason, 8⟩], messaging } ∧
    (datedReason = reason ↔ s ≠ [])
  read : ∀ (p : Position R) stop, Position.decode.runAt s 0 = .ok (p, stop) →
    (p.isWeatherStation = false ∨ 20 ≤ s.length) →
      plain.fault = none ∧ dated.fault = none ∧ plain.information.messaging = messaging ∧
      plain.information.kinds =
        (if p.isWeatherStation then [.position, .weather] else [.position]) ∧
      dated.information =
        { plain.information with elements := .timestamp t :: plain.information.elements }
  /-- Only a time makes sure that a weather report is looked for. -/
  short : ∀ (p : Position R) stop, Position.decode.runAt s 0 = .ok (p, stop) →
    p.isWeatherStation → s.length ≤ 19 →
      plain.fault = none ∧ dated.fault = none ∧ plain.information.kinds = [.position] ∧
      dated.information.kinds = [.timestamp, .position, .weather]

open Body

/-- Both packets are told by how the octets of the position and what follows it are read. -/
theorem Packet.isDated_of_read {t : Timestamp} {messaging : Bool} {s plainFront datedFront : Bytes}
    {plain dated : Packet R} (hone : plainFront.length = 1) (height : datedFront.length = 8)
    (hplain : (plain.information, plain.fault) = finish messaging (decodeFrom []
      (fun p => p.isWeatherStation ∧ 20 < s.length + 1) plainFront s))
    (hdated : (dated.information, dated.fault) = finish messaging (decodeFrom [.timestamp t]
      (fun p => p.isWeatherStation) datedFront s)) :
    plain.IsDated t messaging s dated := by
  refine { refused := ?_, read := ?_, short := ?_ }
  · intro e hrun
    obtain ⟨cause, hposition, _⟩ := Decoder.runAt_eq_error_iff.1 hrun
    rw [List.drop_zero] at hposition
    rw [decodeFrom_of_error hposition, hone] at hplain
    rw [decodeFrom_of_error hposition, height] at hdated
    obtain ⟨hplainRead, hplainFault⟩ := Prod.mk.inj hplain
    obtain ⟨hdatedRead, hdatedFault⟩ := Prod.mk.inj hdated
    exact ⟨_, _, hplainFault, hdatedFault, hplainRead, hdatedRead,
      Position.message_locate_eq_iff hposition⟩
  · intro p stop hrun hlong
    obtain ⟨rest, hposition, _⟩ := Decoder.runAt_eq_ok_iff.1 hrun
    rw [List.drop_zero] at hposition
    -- With this many octets both reports look for weather on the same condition.
    have hsame : p.isWeatherStation ∧ 20 < s.length + 1 ↔ p.isWeatherStation := by
      refine and_iff_left_of_imp fun hstation => ?_
      rw [hstation] at hlong
      exact Nat.lt_succ_of_le (hlong.resolve_left Bool.noConfusion)
    simp only [decodeFrom_of_ok hposition, hsame] at hplain hdated
    obtain ⟨hplainRead, hplainFault⟩ := Prod.mk.inj hplain
    obtain ⟨hdatedRead, hdatedFault⟩ := Prod.mk.inj hdated
    rw [hplainRead, hdatedRead]
    refine ⟨hplainFault, hdatedFault, ?_⟩
    cases p.isWeatherStation with
    | false => exact ⟨rfl, rfl, rfl⟩
    | true => exact ⟨rfl, rfl, rfl⟩
  · intro p stop hrun hstation hshort
    obtain ⟨rest, hposition, _⟩ := Decoder.runAt_eq_ok_iff.1 hrun
    rw [List.drop_zero] at hposition
    rw [decodeFrom_of_ok hposition, if_neg (by omega)] at hplain
    rw [decodeFrom_of_ok hposition, if_pos hstation] at hdated
    obtain ⟨hplainRead, hplainFault⟩ := Prod.mk.inj hplain
    obtain ⟨hdatedRead, hdatedFault⟩ := Prod.mk.inj hdated
    rw [hplainRead, hdatedRead]
    exact ⟨hplainFault, hdatedFault, rfl, rfl⟩

/-- A time in front of a position does not change how the rest of a report is read, unless the
report is of a weather station and too short for weather without a time. -/
theorem Packet.ofBody_timestamp_irrelevant {ts : Bytes} {t : Timestamp}
    (hts : Timestamp.decode ts = .ok (t, [])) (messaging : Bool) (r : Bytes)
    (source destination : Callsign) (path : List PathEntry) :
    ∃ plain dated : Packet R,
      ofBody source destination path (plainMark messaging :: r) = .ok plain ∧
      ofBody source destination path (datedMark messaging :: (ts ++ r)) = .ok dated ∧
      plain.IsDated t messaging (stripTerminator r) dated := by
  have hwidth : 7 ≤ ts.length := (Timestamp.decode_takes hts).1
  have hlength : ts.length ≤ 7 := List.drop_eq_nil_iff.1 (Timestamp.decode_takes hts).2.symm
  refine ⟨_, _, rfl, rfl, isDated_of_read rfl ?_ (read_plain messaging r)
    (read_dated hts messaging r)⟩
  rw [List.length_cons]
  omega

/-- One octet behind the position is enough for a report of the weather without a time. -/
theorem Packet.ofBody_timestamp_irrelevant_station :
    let station : Callsign := ⟨"N0CALL", none⟩
    let ts := Latin1.ascii "092345z"
    let r := Latin1.ascii "4903.50N/07201.75W_x\r\n"
    Timestamp.decode ts = .ok (.zulu 9 23 45, []) ∧ (stripTerminator r).length = 20 ∧
      ∃ plain dated : Packet Exact,
        ofBody station station [] (plainMark true :: r) = .ok plain ∧
        ofBody station station [] (datedMark true :: (ts ++ r)) = .ok dated ∧
        plain.IsDated (.zulu 9 23 45) true (stripTerminator r) dated := by
  intro station ts r
  have hts : Timestamp.decode ts = .ok (.zulu 9 23 45, []) := rfl
  exact ⟨hts, by decide, ofBody_timestamp_irrelevant hts true r station station []⟩

end Aprs
