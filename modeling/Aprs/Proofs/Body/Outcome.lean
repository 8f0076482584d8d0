import Aprs.Body
import Aprs.Proofs.Report
import Aprs.Proofs.Weather

namespace Aprs.Body

variable {R : Type}

/-- What is known of a body where its position begins: nothing yet, or a time. -/
inductive Heading (s : Bytes) : Bool → List (Element R) → Nat → Prop where
  | untimed : Heading s false [] 1
  | timed {t : Timestamp} (htimestamp : Timestamp.decode.runAt s 1 = .ok (t, 8)) :
      Heading s true [.timestamp t] 8

/-- What is known of a body where its weather begins if it has no position. -/
inductive WeatherHeading (s : Bytes) : List (Element R) → Nat → Prop where
  | undated {e : DecodeError} (htimestamp : Timestamp.decodeMonthly.runAt s 1 = .error e) :
      WeatherHeading s [] 1
  | dated {t : Timestamp} (htimestamp : Timestamp.decodeMonthly.runAt s 1 = .ok (t, 9)) :
      WeatherHeading s [.timestamp t] 9

theorem Heading.kind_eq {s : Bytes} {timed : Bool} {before : List (Element R)} {cursor : Nat}
    (hheading : Heading s timed before cursor) : ∀ e ∈ before, e.kind = .timestamp := by
  cases hheading with
  | untimed => simp
  | timed => simp [Element.kind]

theorem WeatherHeading.kind_eq {s : Bytes} {before : List (Element R)} {cursor : Nat}
    (hheading : WeatherHeading s before cursor) : ∀ e ∈ before, e.kind = .timestamp := by
  cases hheading with
  | undated => simp
  | dated => simp [Element.kind]

/-- The data types that say all that is read of their bodies. -/
def isUnread : DataType → Bool
  | .status | .stationCapabilities | .query | .userDefined | .thirdParty | .telemetry
  | .reserved _ | .unknown _ => true
  | _ => false

variable [Arithmetic R]

/-- The ways in which reading a body of a data type can end, each with the runs of its
decoders that lead there. Behind a position that was read nothing fails. -/
inductive Outcome (s : Bytes) : DataType → Information R → Option String → Prop where
  | badTimestamp {messaging : Bool} {e : DecodeError}
      (htimestamp : Timestamp.decode.runAt s 1 = .error e) :
      Outcome s (.position true messaging)
        { elements := [.fault ⟨e.message, 1⟩], messaging } (some e.message)
  | badPosition {timed messaging : Bool} {before : List (Element R)} {cursor : Nat}
      {e : DecodeError} (hheading : Heading s timed before cursor)
      (hposition : (Position.decode (R := R)).runAt s cursor = .error e) :
      Outcome s (.position timed messaging)
        { elements := before ++ [.fault ⟨e.message, cursor⟩], messaging } (some e.message)
  | position {timed messaging : Bool} {before : List (Element R)} {cursor : Nat}
      {p : Position R} {extension : Option Extension} {stop : Nat}
      (hheading : Heading s timed before cursor)
      (hposition : Position.decode.runAt s cursor = .ok (p, cursor + p.width))
      (hplain : ¬ (p.isWeatherStation ∧ (timed ∨ 20 < s.length)))
      (hextension : p.extensionAt s (cursor + p.width) = (extension, stop))
      (hstop : stop = cursor + p.width + Extension.width extension ∧ stop ≤ s.length) :
      Outcome s (.position timed messaging)
        { elements := before ++ [.position { p with altitude := Altitude.scan (s.drop stop) }],
          comment := s.drop stop, extension, messaging } none
  | station {timed messaging : Bool} {before : List (Element R)} {cursor : Nat}
      {p : Position R} {w : Weather} {stop : Nat} (hheading : Heading s timed before cursor)
      (hposition : Position.decode.runAt s cursor = .ok (p, cursor + p.width))
      (hstation : p.isWeatherStation ∧ (timed ∨ 20 < s.length))
      (hweather : Weather.decodeAt s (cursor + p.width) = .ok (w, stop)) :
      Outcome s (.position timed messaging)
        { elements := before ++ [.position p, .weather w], comment := s.drop stop, messaging }
        none
  | badMessage {e : DecodeError} (hmessage : Message.decode.runAt s 1 = .error e) :
      Outcome s .message { elements := [.fault ⟨e.message, 1⟩] } (some e.message)
  | message {m : Message} {stop : Nat} (hmessage : Message.decode.runAt s 1 = .ok (m, stop)) :
      Outcome s .message { elements := [.message m] } none
  | placeholder (hlength : s.length < 30) :
      Outcome s .object (Body.shortObject s).1 (Body.shortObject (R := R) s).2
  | badObject {e : DecodeError} (hlength : 30 ≤ s.length)
      (hobject : (Object.decode (R := R)).runAt s 1 = .error e) :
      Outcome s .object { elements := [.fault ⟨e.message, 1⟩] } (some e.message)
  | object {o : Object R} {stop : Nat} (hlength : 30 ≤ s.length)
      (hobject : Object.decode.runAt s 1 = .ok (o, stop)) :
      Outcome s .object
        { elements := [.object o], comment := o.comment, extension := o.extension } none
  | badItem {e : DecodeError} (hitem : (Item.decode (R := R)).runAt s 1 = .error e) :
      Outcome s .item { elements := [.fault ⟨e.message, 1⟩] } (some e.message)
  | item {i : Item R} {stop : Nat} (hitem : Item.decode.runAt s 1 = .ok (i, stop)) :
      Outcome s .item
        { elements := [.item i], comment := i.comment, extension := i.extension } none
  | weather {type : DataType} {before : List (Element R)} {cursor : Nat} {w : Weather}
      {stop : Nat} (htype : type = .positionlessWeather ∨ type = .peetBrosWeather)
      (hheading : WeatherHeading s before cursor)
      (hweather : Weather.decodeAt s cursor = .ok (w, stop)) :
      Outcome s type { elements := before ++ [.weather w], comment := s.drop stop } none
  | unsupported {type : DataType}
      (htype : type = .micE ∨ type = .rawGps ∧ ¬ (Latin1.ascii "$ULTW").isPrefixOf s) :
      Outcome s type
        { elements := [.fault ⟨(DecodeError.positionFormat s).message, 1⟩] }
        (some (DecodeError.positionFormat s).message)
  | weatherUnit (hstart : (Latin1.ascii "$ULTW").isPrefixOf s) : Outcome s .rawGps {} none
  | unread {type : DataType} (htype : isUnread type) : Outcome s type {} none

omit [Arithmetic R] in
/-- A comment begins inside of a body or at its end, so searching it succeeds. -/
theorem decodeComment_eq (before : List (Element R)) (p : Position R) {s : Bytes} {cursor : Nat}
    (hcursor : cursor ≤ s.length) :
    ∃ extension stop, p.extensionAt s cursor = (extension, stop) ∧
      stop = cursor + Extension.width extension ∧ stop ≤ s.length ∧
      decodeComment before p s cursor = .ok {
        elements := before ++ [.position { p with altitude := Altitude.scan (s.drop stop) }]
        comment := s.drop stop
        extension } := by
  obtain ⟨hstop, hlength⟩ := p.extensionAt_snd hcursor
  refine ⟨(p.extensionAt s cursor).1, (p.extensionAt s cursor).2, rfl, hstop, hlength, ?_⟩
  unfold decodeComment
  simp only [Altitude.decodeAt_eq hlength]

private theorem afterPosition_outcome {s : Bytes} {timed : Bool} {before : List (Element R)}
    {cursor : Nat} (hheading : Heading s timed before cursor) (messaging : Bool)
    (station : Position R → Prop) [DecidablePred station]
    (hstation : ∀ p, station p ↔ p.isWeatherStation ∧ (timed ∨ 20 < s.length))
    (result : Except (Failure R) (Information R))
    (hresult : result = (do
      let (p, cursor) ← decodeAfter before Position.decode.runAt s cursor
      (if station p then decodeStation else decodeComment) before p s cursor)) :
    Outcome s (.position timed messaging) (finish messaging result).1
      (finish messaging result).2 := by
  subst hresult
  unfold decodeAfter
  cases hposition : (Position.decode (R := R)).runAt s cursor with
  | error e => exact .badPosition hheading hposition
  | ok parts =>
    obtain ⟨p, stop⟩ := parts
    obtain ⟨rfl, hlength, _⟩ := Position.decode_takes.runAt_ok p.width_pos hposition
    by_cases hp : station p
    · obtain ⟨w, stop, hweather⟩ := Weather.decodeAt_ok hlength
      simp only [ok_mapError, ok_bind, if_pos hp, decodeStation, decodeAfter, hweather]
      exact .station hheading hposition ((hstation p).1 hp) hweather
    · obtain ⟨extension, stop, hextension, hstop, hlength, hcomment⟩ :=
        decodeComment_eq before p hlength
      simp only [ok_mapError, ok_bind, if_neg hp, hcomment]
      exact .position hheading hposition (fun h => hp ((hstation p).2 h)) hextension
        ⟨hstop, hlength⟩

/-- Reading a position ends in one of these ways, with a time in front of it or without. -/
theorem position_outcome (s : Bytes) (timed messaging : Bool) :
    Outcome (R := R) s (.position timed messaging) (read (.position timed messaging) s).1
      (read (R := R) (.position timed messaging) s).2 := by
  cases timed with
  | false =>
    exact afterPosition_outcome .untimed messaging
      (fun p => p.isWeatherStation ∧ 20 < s.length) (by simp) _ rfl
  | true =>
    cases htimestamp : Timestamp.decode.runAt s 1 with
    | error e =>
      simp only [read, decodeTimestampedPosition, decodeAfter, htimestamp]
      exact .badTimestamp htimestamp
    | ok parts =>
      obtain ⟨t, stop⟩ := parts
      obtain ⟨rfl, _⟩ := Timestamp.decode_takes.runAt_ok (by decide) htimestamp
      refine afterPosition_outcome (.timed htimestamp) messaging
        (fun p => p.isWeatherStation = true) (by simp) _ ?_
      simp only [decodeTimestampedPosition, decodeAfter, htimestamp]
      rfl

/-- Weather is looked for behind the first octet or behind a time, which are in the body. -/
theorem weather_outcome {s : Bytes} (hs : s ≠ []) {type : DataType}
    (htype : type = .positionlessWeather ∨ type = .peetBrosWeather) :
    Outcome (R := R) s type (finish false (decodeWeather s)).1
      (finish (R := R) false (decodeWeather s)).2 := by
  have hfront : 1 ≤ s.length := List.length_pos_iff.2 hs
  unfold decodeWeather decodeAfter
  cases htimestamp : Timestamp.decodeMonthly.runAt s 1 with
  | error e =>
    obtain ⟨w, stop, hweather⟩ := Weather.decodeAt_ok hfront
    simp only [hweather]
    exact .weather htype (.undated htimestamp) hweather
  | ok parts =>
    obtain ⟨t, stop⟩ := parts
    obtain ⟨rfl, hlength, _⟩ := Timestamp.decodeMonthly_takes.runAt_ok (by decide) htimestamp
    obtain ⟨w, stop, hweather⟩ := Weather.decodeAt_ok hlength
    simp only [hweather]
    exact .weather htype (.dated htimestamp) hweather

/-- Reading octets as a body of a data type has one of these outcomes. Octets are needed only
for what is read at a cursor without being told whether it is in the body. -/
theorem read_outcome {s : Bytes} {type : DataType} (hs : s ≠ [] ∨ isUnread type) :
    Outcome (R := R) s type (read type s).1 (read (R := R) type s).2 := by
  cases type with
  | position timed messaging => exact position_outcome s timed messaging
  | message =>
    simp only [read, decodeMessage, decodeAfter]
    cases hmessage : Message.decode.runAt s 1 with
    | error e => exact .badMessage hmessage
    | ok parts => exact .message hmessage
  | object =>
    by_cases hlength : s.length < 30
    · simp only [read, if_pos hlength]
      exact .placeholder hlength
    · simp only [read, if_neg hlength, decodeObject, decodeAfter]
      cases hobject : (Object.decode (R := R)).runAt s 1 with
      | error e => exact .badObject (by omega) hobject
      | ok parts => exact .object (by omega) hobject
  | item =>
    simp only [read, decodeItem, decodeAfter]
    cases hitem : (Item.decode (R := R)).runAt s 1 with
    | error e => exact .badItem hitem
    | ok parts => exact .item hitem
  | positionlessWeather => exact weather_outcome (by simpa [isUnread] using hs) (.inl rfl)
  | peetBrosWeather => exact weather_outcome (by simpa [isUnread] using hs) (.inr rfl)
  | micE => exact .unsupported (.inl rfl)
  | rawGps =>
    by_cases hstart : (Latin1.ascii "$ULTW").isPrefixOf s
    · simp only [read, if_pos hstart]
      exact .weatherUnit hstart
    · simp only [read, if_neg hstart]
      exact .unsupported (.inr ⟨rfl, hstart⟩)
  | status | stationCapabilities | query | userDefined | thirdParty | telemetry
  | reserved _ | unknown _ => exact .unread rfl

end Aprs.Body
