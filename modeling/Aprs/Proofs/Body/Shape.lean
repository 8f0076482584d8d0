import Aprs.Proofs.Body.Fault
import Aprs.Proofs.Timestamp

namespace Aprs

namespace Body

/-- The sequences of elements that a body can have after its first character. -/
def shapes (first : Char) (s : Bytes) : List (List Element.Kind) :=
  match first with
  | '!' | '=' => [[.position], [.position, .weather], [.fault]]
  | '/' | '@' => [[.timestamp, .position], [.timestamp, .position, .weather],
      [.timestamp, .fault], [.fault]]
  | ':' => [[.message], [.fault]]
  | ';' => [[.object], [.fault]]
  | ')' => [[.item], [.fault]]
  | '_' | '#' | '*' => [[.weather], [.timestamp, .weather]]
  | '\x60' | '\x27' => [[.fault]]
  | '$' => if (Latin1.ascii "$ULTW").isPrefixOf s then [[]] else [[.fault]]
  | _ => [[]]

/-- A sequence has at most one element of each kind, and with a fault it has no position and
no weather. -/
theorem shapes_once (first : Char) (s : Bytes) :
    ∀ kinds ∈ shapes first s,
      kinds.Nodup ∧ (.fault ∈ kinds → .position ∉ kinds ∧ .weather ∉ kinds) := by
  unfold shapes
  split
  case h_13 => split <;> decide
  all_goals decide

variable {R : Type}

/-- The sequences of elements of a body of a data type. -/
def typeShapes (type : DataType) (s : Bytes) : List (List Element.Kind) :=
  match type with
  | .position false _ => [[.position], [.position, .weather], [.fault]]
  | .position true _ => [[.timestamp, .position], [.timestamp, .position, .weather],
      [.timestamp, .fault], [.fault]]
  | .message => [[.message], [.fault]]
  | .object => [[.object], [.fault]]
  | .item => [[.item], [.fault]]
  | .positionlessWeather | .peetBrosWeather => [[.weather], [.timestamp, .weather]]
  | .micE => [[.fault]]
  | .rawGps => if (Latin1.ascii "$ULTW").isPrefixOf s then [[]] else [[.fault]]
  | _ => [[]]

theorem typeShapes_of_isUnread {type : DataType} {s : Bytes} (htype : isUnread type) :
    typeShapes type s = [[]] := by
  cases type with
  | status | stationCapabilities | query | userDefined | thirdParty | telemetry
  | reserved _ | unknown _ => rfl
  | _ => cases htype

/-- A type has the sequences of elements of the octet that announces it. -/
theorem typeShapes_ofByte (b : UInt8) (s : Bytes) :
    typeShapes (DataType.ofByte b) s = shapes (Char.ofUInt8 b) s := by
  unfold DataType.ofByte
  split
  case h_20 =>
    have hother : shapes (Char.ofUInt8 b) s = [[]] := by
      unfold shapes
      split <;> simp_all
    split <;> exact hother.symm
  all_goals
    rename_i hc
    rw [hc]
    rfl

section Outcome

variable [Arithmetic R] {s : Bytes} {type : DataType} {i : Information R} {fault : Option String}

/-- However reading a body ends, its elements are in a sequence that its type allows. -/
theorem Outcome.kinds_mem (houtcome : Outcome s type i fault) : i.kinds ∈ typeShapes type s := by
  cases houtcome with
  | badPosition hheading | position hheading | station hheading =>
    cases hheading <;> simp [Information.kinds, Element.kind, typeShapes]
  | weather htype hheading =>
    rcases htype with rfl | rfl <;> cases hheading <;>
      simp [Information.kinds, Element.kind, typeShapes]
  | unsupported htype =>
    rcases htype with rfl | ⟨rfl, hstart⟩
    · simp [Information.kinds, Element.kind, typeShapes]
    · simp [Information.kinds, Element.kind, typeShapes, hstart]
  | weatherUnit hstart => simp [Information.kinds, typeShapes, hstart]
  | unread htype =>
    rw [typeShapes_of_isUnread htype]
    exact List.mem_singleton_self _
  | _ => simp [Information.kinds, shortObject, Element.kind, typeShapes]

theorem Outcome.eq_empty (houtcome : Outcome s type i fault) (hkinds : i.kinds = []) :
    i = {} ∧ fault = none := by
  cases houtcome with
  | weatherUnit | unread => exact ⟨rfl, rfl⟩
  | _ =>
    simp [Information.kinds, shortObject] at hkinds

theorem Outcome.messaging_iff (houtcome : Outcome s type i fault) :
    i.messaging = true ↔ ∃ timed, type = .position timed true := by
  cases houtcome with
  | weather htype => rcases htype with rfl | rfl <;> simp
  | unsupported htype => rcases htype with rfl | ⟨rfl, _⟩ <;> simp
  | unread htype =>
    refine iff_of_false (by simp) ?_
    rintro ⟨_, rfl⟩
    cases htype
  | _ => simp [shortObject]

/-- A fault stands where the decoder of a position is started, or at the front of the body. -/
theorem Outcome.fault_cursor (houtcome : Outcome s type i fault) {f : Fault}
    (hfault : .fault f ∈ i.elements) :
    f.cursor = if .timestamp ∈ i.kinds then 8 else 1 := by
  cases houtcome with
  | badPosition hheading | position hheading | station hheading =>
    cases hheading <;> simp_all [Information.kinds, Element.kind]
  | weather htype hheading => cases hheading <;> simp at hfault
  | _ => simp_all [Information.kinds, shortObject, Element.kind]

/-- A time has a month exactly in a weather report that has no position. -/
theorem Outcome.isMonthly_iff (houtcome : Outcome s type i fault) {t : Timestamp}
    (htimestamp : .timestamp t ∈ i.elements) :
    t.isMonthly = true ↔ type = .positionlessWeather ∨ type = .peetBrosWeather := by
  cases houtcome with
  | badPosition hheading | position hheading | station hheading =>
    cases hheading with
    | untimed => simp at htimestamp
    | timed hdecode =>
      obtain ⟨_, hdecode, _⟩ := Decoder.runAt_eq_ok_iff.1 hdecode
      have hplain := (Timestamp.isWriting_text.inRange_of_field hdecode).2
      simp_all
  | weather htype hheading =>
    cases hheading with
    | undated => simp at htimestamp
    | dated hdecode =>
      obtain ⟨_, hdecode, _⟩ := Decoder.runAt_eq_ok_iff.1 hdecode
      have hmonthly := (Timestamp.isWriting_monthlyText.inRange_of_field hdecode).2
      simp_all
  | _ => simp [shortObject] at htimestamp

theorem Outcome.fault_eq_none (houtcome : Outcome s type i fault)
    (htype : type = .positionlessWeather ∨ type = .peetBrosWeather) : fault = none := by
  cases houtcome with
  | unsupported hother => rcases htype with rfl | rfl <;> simp at hother
  | _ => simp_all

/-- What the first character of a body tells of its fields, of `s` with the terminator off. -/
structure Shaped (first : Char) (s : Bytes) (i : Information R) (fault : Option String) :
    Prop where
  kinds_mem : i.kinds ∈ shapes first s
  eq_empty : i.kinds = [] → i = {} ∧ fault = none
  unfaulted : first = '_' ∨ first = '#' ∨ first = '*' → fault = none
  fault_cursor (f : Fault) : .fault f ∈ i.elements →
    f.cursor = if .timestamp ∈ i.kinds then 8 else 1
  isMonthly_iff (t : Timestamp) : .timestamp t ∈ i.elements →
    (t.isMonthly = true ↔ first = '_' ∨ first = '#' ∨ first = '*')
  messaging_iff : i.messaging = true ↔ first = '=' ∨ first = '@'
  nodup : i.kinds.Nodup
  fault_alone : .fault ∈ i.kinds → .position ∉ i.kinds ∧ .weather ∉ i.kinds

/-- However reading a body ends, what is known of it has the shape that its first octet tells. -/
theorem Outcome.shaped {b : UInt8} (houtcome : Outcome s (DataType.ofByte b) i fault) :
    Shaped (Char.ofUInt8 b) s i fault := by
  have hkinds : i.kinds ∈ shapes (Char.ofUInt8 b) s := typeShapes_ofByte b s ▸ houtcome.kinds_mem
  obtain ⟨hnodup, halone⟩ := shapes_once _ _ _ hkinds
  exact {
    kinds_mem := hkinds
    eq_empty := houtcome.eq_empty
    unfaulted := fun hfirst => houtcome.fault_eq_none (DataType.ofByte_eq_weather_iff.2 hfirst)
    fault_cursor := fun _ => houtcome.fault_cursor
    isMonthly_iff := fun _ htimestamp =>
      (houtcome.isMonthly_iff htimestamp).trans DataType.ofByte_eq_weather_iff
    messaging_iff := by simpa using houtcome.messaging_iff.trans DataType.ofByte_eq_position_iff
    nodup := hnodup
    fault_alone := halone }

end Outcome

end Body

/-- Every body with a first octet makes a packet whose fields have the shape that the first
octet tells, also if the body cannot be decoded. -/
theorem Packet.ofBody_shaped [Arithmetic R] (source destination : Callsign)
    (path : List PathEntry) (first : UInt8) (rest : Bytes) :
    ∃ packet : Packet R, ofBody source destination path (first :: rest) = .ok packet ∧
      Body.Shaped (Char.ofUInt8 first) (stripTerminator (first :: rest)) packet.information
        packet.fault := by
  obtain ⟨packet, hpacket, _, _, _, htype, _, _, houtcome⟩ :=
    ofBody_cons (R := R) source destination path first rest
  rw [htype] at houtcome
  exact ⟨packet, hpacket, houtcome.shaped⟩

end Aprs
