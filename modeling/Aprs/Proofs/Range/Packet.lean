import Aprs.Ax25.Frame
import Aprs.Coordinate.Exact
import Aprs.Line
import Aprs.Proofs.Body.Fault
import Aprs.Proofs.Range.Position
import Aprs.Proofs.Range.Weather
import Aprs.Proofs.Timestamp

namespace Aprs

variable {R : Type} [Arithmetic R]

/-- What is true of every position in an object, an item or a body and of what follows it. -/
theorem Position.inRange_of_decodeWithExtension {b rest : Bytes} {p : Position R}
    {extension : Option Extension}
    (hdecode : decodeWithExtension b = .ok ((p, extension), rest)) :
    p.InRange ∧ ∀ e ∈ extension, e.InRange ∧ p.isCompressed = false := by
  obtain ⟨hposition, hextension⟩ := decodeWithExtension_ok hdecode
  refine ⟨inRange_of_decode hposition, ?_⟩
  rintro e rfl
  exact (readExtension_eq_some hextension).symm

/-- The parts of an object have numbers in their ranges. An extension stands only behind a
position written out in degrees. -/
structure Object.InRange (o : Object R) : Prop where
  timestamp : ∀ t ∈ o.timestamp, t.InRange
  position : ∀ p ∈ o.position, p.InRange
  extension : ∀ e ∈ o.extension, e.InRange ∧ ∃ p ∈ o.position, p.isCompressed = false

/-- The parts of an object that is decoded are in range. -/
theorem Object.inRange_of_decode {b rest : Bytes} {o : Object R}
    (hdecode : decode b = .ok (o, rest)) : o.InRange := by
  obtain ⟨_, t, p, extension, _, ⟨_, htimestamp⟩, hposition, rfl⟩ := decode_ok hdecode
  obtain ⟨hp, hextension⟩ := Position.inRange_of_decodeWithExtension hposition
  exact {
    timestamp := by
      rintro _ ⟨⟩
      exact (Timestamp.isWriting_text.inRange_of_field htimestamp).1
    position := by
      rintro _ ⟨⟩
      exact hp.withAltitude rest
    extension := by
      intro e he
      obtain ⟨hrange, hform⟩ := hextension e he
      exact ⟨hrange, _, rfl, hform⟩ }

/-- As for an object, except that an item has no time and is never without its position. -/
structure Item.InRange (x : Item R) : Prop where
  position : x.position.InRange
  extension : ∀ e ∈ x.extension, e.InRange ∧ x.position.isCompressed = false

/-- The parts of an item that is decoded are in range. -/
theorem Item.inRange_of_decode {b rest : Bytes} {x : Item R}
    (hdecode : decode b = .ok (x, rest)) : x.InRange := by
  obtain ⟨_, p, extension, _, hposition, rfl⟩ := decode_ok hdecode
  obtain ⟨hp, hextension⟩ := Position.inRange_of_decodeWithExtension hposition
  exact ⟨hp.withAltitude rest, hextension⟩

/-- Messages and faults hold no numbers that were read. -/
def Element.InRange : Element R → Prop
  | .timestamp t => t.InRange
  | .position p => p.InRange
  | .weather w => w.InRange
  | .object o => o.InRange
  | .item x => x.InRange
  | .message _ | .fault _ => True

/-- The position that an element is or holds. -/
def Element.position? : Element R → Option (Position R)
  | .position p => some p
  | .object o => o.position
  | .item x => some x.position
  | _ => none

/-- An extension belongs to the one position that a body has, which is written out in degrees,
and stands in the place of a weather report. -/
structure Information.InRange (i : Information R) : Prop where
  elements : ∀ e ∈ i.elements, e.InRange
  extension : ∀ extension ∈ i.extension, extension.InRange ∧
    (∃ p, i.elements.filterMap Element.position? = [p] ∧ p.isCompressed = false) ∧
    .weather ∉ i.kinds

namespace Body

theorem Heading.inRange {s : Bytes} {timed : Bool} {before : List (Element R)} {cursor : Nat}
    (hheading : Heading s timed before cursor) : ∀ e ∈ before, e.InRange := by
  cases hheading with
  | untimed => simp
  | timed htimestamp =>
    obtain ⟨_, hdecode, _⟩ := Decoder.runAt_eq_ok_iff.1 htimestamp
    intro e he
    rw [List.mem_singleton.1 he]
    exact (Timestamp.isWriting_text.inRange_of_field hdecode).1

theorem WeatherHeading.inRange {s : Bytes} {before : List (Element R)} {cursor : Nat}
    (hheading : WeatherHeading s before cursor) : ∀ e ∈ before, e.InRange := by
  cases hheading with
  | undated => simp
  | dated htimestamp =>
    obtain ⟨_, hdecode, _⟩ := Decoder.runAt_eq_ok_iff.1 htimestamp
    intro e he
    rw [List.mem_singleton.1 he]
    exact (Timestamp.isWriting_monthlyText.inRange_of_field hdecode).1

/-- A position behind a heading is looked for inside of the body, so an extension behind it is
read as it stands there. -/
theorem inRange_of_extensionAt {s : Bytes} {cursor stop after : Nat} {p : Position R}
    {extension : Option Extension} (hposition : Position.decode.runAt s cursor = .ok (p, after))
    (hextension : p.extensionAt s after = (extension, stop)) :
    p.InRange ∧ ∀ e ∈ extension, e.InRange ∧ p.isCompressed = false := by
  obtain ⟨_, hlength, hdecode⟩ := Position.decode_takes.runAt_ok p.width_pos hposition
  refine ⟨Position.inRange_of_decode hdecode, ?_⟩
  rw [p.extensionAt_eq hlength] at hextension
  obtain ⟨hread, _⟩ := Prod.mk.inj hextension
  rintro e rfl
  exact (Position.readExtension_eq_some (Prod.ext hread rfl)).symm

theorem object_inRange {s : Bytes} {o : Object R} {cursor stop : Nat}
    (hobject : Object.decode.runAt s cursor = .ok (o, stop)) : o.InRange := by
  obtain ⟨_, hdecode, _⟩ := Decoder.runAt_eq_ok_iff.1 hobject
  exact Object.inRange_of_decode hdecode

theorem item_inRange {s : Bytes} {x : Item R} {cursor stop : Nat}
    (hitem : Item.decode.runAt s cursor = .ok (x, stop)) : x.InRange := by
  obtain ⟨_, hdecode, _⟩ := Decoder.runAt_eq_ok_iff.1 hitem
  exact Item.inRange_of_decode hdecode

theorem weather_inRange {s : Bytes} {w : Weather} {cursor stop : Nat}
    (hweather : Weather.decodeAt s cursor = .ok (w, stop)) : w.InRange := by
  obtain ⟨_, hrun⟩ := Decoder.runWithin_eq_ok_iff.1 hweather
  obtain ⟨_, hdecode, _⟩ := Decoder.runAt_eq_ok_iff.1 hrun
  exact Weather.inRange_of_decode hdecode

/-- However reading a body ends, its elements have numbers in their ranges. -/
theorem Outcome.elements_inRange {s : Bytes} {type : DataType} {i : Information R}
    {fault : Option String} (houtcome : Outcome s type i fault) :
    ∀ e ∈ i.elements, e.InRange := by
  cases houtcome with
  | badTimestamp | badMessage | message | badObject | badItem | unsupported =>
    exact List.forall_mem_singleton.2 trivial
  | badPosition hheading =>
    exact List.forall_mem_append.2 ⟨hheading.inRange, List.forall_mem_singleton.2 trivial⟩
  | position hheading hposition _ hextension =>
    obtain ⟨hp, _⟩ := inRange_of_extensionAt hposition hextension
    exact List.forall_mem_append.2
      ⟨hheading.inRange, List.forall_mem_singleton.2 (hp.withAltitude _)⟩
  | station hheading hposition _ hweather =>
    obtain ⟨_, hdecode, _⟩ := Decoder.runAt_eq_ok_iff.1 hposition
    refine List.forall_mem_append.2 ⟨hheading.inRange, List.forall_mem_cons.2 ⟨?_, ?_⟩⟩
    · exact Position.inRange_of_decode hdecode
    · exact List.forall_mem_singleton.2 (weather_inRange hweather)
  | placeholder =>
    refine List.forall_mem_singleton.2 ?_
    constructor <;> rintro _ ⟨⟩
  | object _ hobject => exact List.forall_mem_singleton.2 (object_inRange hobject)
  | item hitem => exact List.forall_mem_singleton.2 (item_inRange hitem)
  | weather _ hheading hweather =>
    exact List.forall_mem_append.2
      ⟨hheading.inRange, List.forall_mem_singleton.2 (weather_inRange hweather)⟩
  | weatherUnit | unread => exact List.forall_mem_nil _

/-- However reading a body ends, what is known of it is in range. -/
theorem Outcome.inRange {s : Bytes} {type : DataType} {i : Information R} {fault : Option String}
    (houtcome : Outcome s type i fault) : i.InRange := by
  refine ⟨houtcome.elements_inRange, ?_⟩
  cases houtcome with
  | @position _ _ _ _ p _ stop hheading hposition _ hextension =>
    intro e he
    obtain ⟨_, hrange⟩ := inRange_of_extensionAt hposition hextension
    obtain ⟨hinRange, hform⟩ := hrange e he
    refine ⟨hinRange, ⟨{ p with altitude := Altitude.scan (s.drop stop) }, ?_, hform⟩, ?_⟩
    · cases hheading <;> rfl
    · cases hheading <;> simp [Information.kinds, Element.kind]
  | object _ hobject =>
    intro e he
    obtain ⟨hinRange, p, hp, hform⟩ := (object_inRange hobject).extension e he
    refine ⟨hinRange, ⟨p, ?_, hform⟩, ?_⟩
    · simp [Element.position?, Option.mem_def.1 hp]
    · simp [Information.kinds, Element.kind]
  | item hitem =>
    intro e he
    obtain ⟨hinRange, hform⟩ := (item_inRange hitem).extension e he
    exact ⟨hinRange, ⟨_, rfl, hform⟩, by simp [Information.kinds, Element.kind]⟩
  | _ => rintro _ ⟨⟩

end Body

/-- The packets that are made of something received: the body of a packet whose stations are
known, a line or a frame. -/
inductive Packet.IsDecoded : Packet R → Prop where
  | body {source destination : Callsign} {path : List PathEntry} {octets : Bytes}
      {packet : Packet R} (hbody : ofBody source destination path octets = .ok packet) :
      IsDecoded packet
  | line {octets : Bytes} {packet : Packet R} (hline : ofLine octets = .ok packet) :
      IsDecoded packet
  | frame {octets : Bytes} {packet : Packet R} (hframe : ofFrame octets = .ok packet) :
      IsDecoded packet

theorem Packet.inRange_ofBody {source destination : Callsign} {path : List PathEntry}
    {octets : Bytes} {packet : Packet R}
    (hbody : ofBody source destination path octets = .ok packet) : packet.information.InRange := by
  cases octets with
  | nil => cases hbody
  | cons first rest =>
    obtain ⟨actual, hactual, _, _, _, _, _, _, houtcome⟩ :=
      ofBody_cons (R := R) source destination path first rest
    obtain rfl := Except.ok.inj (hactual.symm.trans hbody)
    exact houtcome.inRange

/-- The packet of a line is that of its body, but for the line that it shows. -/
theorem Packet.exists_ofBody_of_ofLine {octets : Bytes} {packet : Packet R}
    (hline : ofLine octets = .ok packet) :
    ∃ source destination path body, ∃ inner : Packet R,
      ofBody source destination path body = .ok inner ∧
      packet.information = inner.information := by
  unfold ofLine at hline
  split at hline
  case h_1 => cases hline
  case h_2 =>
    split at hline
    case h_1 => cases hline
    case h_2 =>
      simp only [bind_eq_ok_iff, pure, Except.pure, Except.ok.injEq] at hline
      obtain ⟨source, _, destination, _, path, _, inner, hbody, rfl⟩ := hline
      exact ⟨source, destination, path, _, inner, hbody, rfl⟩

theorem Packet.exists_ofBody_of_ofFrame {octets : Bytes} {packet : Packet R}
    (hframe : ofFrame octets = .ok packet) :
    ∃ source destination path body, ofBody source destination path body = .ok packet := by
  simp only [ofFrame, bind_eq_ok_iff] at hframe
  obtain ⟨_, _, _, _, _, _, body, _, hbody⟩ := hframe
  exact ⟨_, _, _, body, hbody⟩

/-- Whatever is received and however it is sent, what a packet states is in the range of what
its octets have room for. -/
theorem Packet.values_inRange {packet : Packet R} (hpacket : packet.IsDecoded) :
    packet.information.InRange := by
  cases hpacket with
  | body hbody => exact inRange_ofBody hbody
  | line hline =>
    obtain ⟨_, _, _, _, _, hbody, heq⟩ := exists_ofBody_of_ofLine hline
    rw [heq]
    exact inRange_ofBody hbody
  | frame hframe =>
    obtain ⟨_, _, _, _, hbody⟩ := exists_ofBody_of_ofFrame hframe
    exact inRange_ofBody hbody

/-- The highest antenna and the highest altitude there are, at a time that no clock shows. -/
theorem Packet.values_inRange_highest :
    let station : Callsign := ⟨"N0CALL", none⟩
    let octets := Latin1.ascii ";LEADER   *999999z9000.00N/18000.00W>PHG9L98/A=999999"
    ∃ packet : Packet Exact, ofBody station station [] octets = .ok packet ∧ packet.IsDecoded ∧
      packet.information.extension = some (.power 81 2684354560 9 (.degrees 360)) ∧
      packet.information.InRange := by
  intro station octets
  obtain ⟨packet, hpacket, hextension⟩ :
      ∃ packet : Packet Exact, ofBody station station [] octets = .ok packet ∧
        packet.information.extension = some (.power 81 2684354560 9 (.degrees 360)) :=
    ⟨_, rfl, by decide +kernel⟩
  have hdecoded := IsDecoded.body hpacket
  exact ⟨packet, hpacket, hdecoded, hextension, values_inRange hdecoded⟩

end Aprs
