import Aprs.Coordinate.Exact
import Aprs.Proofs.Body.Dated
import Aprs.Proofs.Body.Fault

namespace Aprs

variable {R : Type} [Arithmetic R]

namespace Body

theorem ofByte_plainMark (messaging : Bool) :
    DataType.ofByte (plainMark messaging) = .position false messaging := by
  cases messaging <;> rfl

/-- A body without a time in which what stands behind the position of a weather station is not
looked at. A position written out in degrees fills such a body, and a compressed one leaves
up to six octets of it. -/
def IsShortStation (p : Position R) (s : Bytes) : Prop := p.isCompressed ∧ s.length ≤ 20

omit [Arithmetic R] in
/-- Weather behind a position makes a body longer than twenty octets, or else it stands behind a
compressed position and reads no more than six. -/
theorem isShortStation_iff {p : Position R} {s : Bytes} (hroom : 1 + p.width + 3 ≤ s.length) :
    IsShortStation p s ↔ s.length ≤ 20 := by
  refine ⟨And.right, fun hlength => ⟨?_, hlength⟩⟩
  refine Decidable.not_not.1 fun hform => ?_
  rw [p.width_eq, if_neg hform] at hroom
  omega

/-- What the body of a weather station without a time says of the weather behind its position,
if there is any. -/
theorem Outcome.weather_iff {s : Bytes} {messaging : Bool} {i : Information R} {fault : Option String}
    (houtcome : Outcome s (.position false messaging) i fault) {p : Position R} {w : Weather}
    {behind stop : Nat} (hposition : Position.decode.runAt s 1 = .ok (p, behind))
    (hstation : p.isWeatherStation) (hweather : Weather.decodeAt s behind = .ok (w, stop))
    (hread : behind < stop) :
    fault = none ∧
      (.weather w ∈ i.elements ∧ i.comment = s.drop stop ↔ ¬ IsShortStation p s) ∧
      (IsShortStation p s → 17 ≤ s.length ∧ i.kinds = [.position] ∧ i.comment = s.drop behind) := by
  obtain ⟨rfl, _, _⟩ := Position.decode_takes.runAt_ok p.width_pos hposition
  have hthree := Weather.three_le_of_decodeAt hweather hread
  have hstop := (Weather.decodeAt_bounds hweather).2
  have hshort := isShortStation_iff (p := p) (s := s) (by omega)
  cases houtcome with
  | badPosition hheading herror =>
    cases hheading
    cases hposition.symm.trans herror
  | position hheading hactual hplain hextension =>
    cases hheading
    obtain ⟨rfl, _⟩ := Prod.mk.inj (Except.ok.inj (hposition.symm.trans hactual))
    have hlength : s.length ≤ 20 := by simpa [hstation] using hplain
    obtain ⟨hcompressed, _⟩ := hshort.2 hlength
    unfold Position.extensionAt at hextension
    rw [if_pos hcompressed] at hextension
    obtain ⟨rfl, rfl⟩ := Prod.mk.inj hextension
    have hwidth := p.width_eq.trans (if_pos hcompressed)
    exact ⟨rfl, iff_of_false (by simp) (not_not_intro (hshort.2 hlength)),
      fun _ => ⟨by omega, rfl, rfl⟩⟩
  | station hheading hactual hlong hfound =>
    cases hheading
    obtain ⟨rfl, _⟩ := Prod.mk.inj (Except.ok.inj (hposition.symm.trans hactual))
    obtain ⟨rfl, rfl⟩ := Prod.mk.inj (Except.ok.inj (hweather.symm.trans hfound))
    have hlength : 20 < s.length := by simpa using hlong.2
    have hlonger : ¬ IsShortStation p s := fun h => absurd (hshort.1 h) (by omega)
    exact ⟨rfl, iff_of_true (by simp) hlonger, fun h => absurd h hlonger⟩
  | weather htype => rcases htype with htype | htype <;> cases htype
  | unsupported htype => rcases htype with htype | ⟨htype, _⟩ <;> cases htype
  | unread htype => cases htype

end Body

open Body

/-- Weather behind the position of a station without a time is read and the rest is comment,
unless the position is compressed and the body has no more than twenty octets. Then all that
stands behind the position is comment. -/
theorem Packet.ofBody_weather_iff {messaging : Bool} {rest s : Bytes} {p : Position R}
    {w : Weather} {behind stop : Nat} (hs : stripTerminator (plainMark messaging :: rest) = s)
    (hposition : Position.decode.runAt s 1 = .ok (p, behind)) (hstation : p.isWeatherStation)
    (hweather : Weather.decodeAt s behind = .ok (w, stop)) (hread : behind < stop)
    (source destination : Callsign) (path : List PathEntry) :
    ∃ packet : Packet R,
      ofBody source destination path (plainMark messaging :: rest) = .ok packet ∧
      packet.fault = none ∧
      (.weather w ∈ packet.information.elements ∧
          packet.information.comment = s.drop stop ↔ ¬ IsShortStation p s) ∧
      (IsShortStation p s → 17 ≤ s.length ∧ packet.information.kinds = [.position] ∧
        packet.information.comment = s.drop behind) := by
  obtain ⟨packet, hpacket, _, _, _, htype, _, _, houtcome⟩ :=
    ofBody_cons (R := R) source destination path (plainMark messaging) rest
  rw [htype, ofByte_plainMark, hs] at houtcome
  exact ⟨packet, hpacket, houtcome.weather_iff hposition hstation hweather hread⟩

/-- Three octets of weather behind a position written out in degrees are read. -/
theorem Packet.ofBody_weather_iff_degrees :
    let station : Callsign := ⟨"N0CALL", none⟩
    let rest := Latin1.ascii "4903.50N/07201.75W_h50\r\n"
    let s := Latin1.ascii "!4903.50N/07201.75W_h50"
    let w : Weather := { humidity := some 50 }
    stripTerminator (plainMark false :: rest) = s ∧
    ∃ p : Position Exact, Position.decode.runAt s 1 = .ok (p, 20) ∧ p.isWeatherStation ∧
      Weather.decodeAt s 20 = .ok (w, 23) ∧ ¬ IsShortStation p s ∧
      ∃ packet : Packet Exact,
        ofBody station station [] (plainMark false :: rest) = .ok packet ∧
        .weather w ∈ packet.information.elements ∧ packet.information.comment = [] := by
  intro station rest s w
  have hs : stripTerminator (plainMark false :: rest) = s := by decide
  have hread : ((Position.decode (R := Exact)).runAt s 1).toOption.any fun (p, behind) =>
      p.isWeatherStation ∧ p.isCompressed = false ∧ behind = 20 := by decide +kernel
  obtain ⟨⟨p, behind⟩, hrun, hparts⟩ := (Option.any_eq_true _ _).1 hread
  obtain ⟨hstation, hform, rfl⟩ := of_decide_eq_true hparts
  have hposition := toOption_eq_some_iff.1 hrun
  have hweather : Weather.decodeAt (Latin1.ascii "!4903.50N/07201.75W_h50") 20 =
      .ok ({ humidity := some 50 }, 23) := toOption_eq_some_iff.1 (by decide +kernel)
  have hlong : ¬ IsShortStation p s := fun h => absurd h.1 (by simp [hform])
  obtain ⟨packet, hpacket, _, hreads, _⟩ :=
    ofBody_weather_iff hs hposition hstation hweather (by decide) station station []
  obtain ⟨hmem, hcomment⟩ := hreads.2 hlong
  exact ⟨hs, p, hposition, hstation, hweather, hlong, packet, hpacket, hmem, hcomment⟩

/-- Three octets of weather behind a compressed position are not read, though there is
weather in them. -/
theorem Packet.ofBody_weather_compressed :
    let station : Callsign := ⟨"N0CALL", none⟩
    let s := Latin1.ascii "!/5L!!<*e7_ sTh50"
    stripTerminator s = s ∧
    (∃ p : Position Exact, Position.decode.runAt s 1 = .ok (p, 14) ∧ p.isWeatherStation) ∧
    Weather.decodeAt s 14 = .ok ({ humidity := some 50 }, 17) ∧
    ∃ packet : Packet Exact, ofBody station station [] s = .ok packet ∧
      packet.information.kinds = [.position] ∧
      packet.information.comment = Latin1.ascii "h50" := by
  intro station s
  have hread : ((Position.decode (R := Exact)).runAt s 1).toOption.any fun (p, behind) =>
      p.isWeatherStation ∧ behind = 14 := by decide +kernel
  obtain ⟨⟨p, behind⟩, hrun, hparts⟩ := (Option.any_eq_true _ _).1 hread
  obtain ⟨hstation, rfl⟩ := of_decide_eq_true hparts
  have hweather : Weather.decodeAt (Latin1.ascii "!/5L!!<*e7_ sTh50") 14 =
      .ok ({ humidity := some 50 }, 17) := toOption_eq_some_iff.1 (by decide +kernel)
  exact ⟨by decide, ⟨p, toOption_eq_some_iff.1 hrun, hstation⟩, hweather, _, rfl,
    by decide +kernel, by decide +kernel⟩

end Aprs
