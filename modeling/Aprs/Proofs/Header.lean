import Aprs.Coordinate.Exact
import Aprs.Proofs.Ax25.Frame
import Aprs.Proofs.Line.Parts

namespace Aprs

namespace Ax25

/-- The characters of a call that is sent over the air. -/
def IsPlain (c : Char) : Prop := ('A' ≤ c ∧ c ≤ 'Z') ∨ ('0' ≤ c ∧ c ≤ '9')

instance : DecidablePred IsPlain := fun _ => inferInstanceAs (Decidable (_ ∨ _))

theorem isPlain_iff {c : Char} :
    IsPlain c ↔ (65 ≤ c.toNat ∧ c.toNat ≤ 90) ∨ (48 ≤ c.toNat ∧ c.toNat ≤ 57) := Iff.rfl

theorem IsPlain.toUpper {c : Char} (hc : IsPlain c) : c.toUpper = c := by
  have hlower : ¬ ('a'.val ≤ c.val ∧ c.val ≤ 'z'.val) := by
    rintro ⟨ha, _⟩
    have ha : 97 ≤ c.toNat := ha
    rw [isPlain_iff] at hc
    omega
  exact dif_neg hlower

theorem IsPlain.not_isBlank {c : Char} (hc : IsPlain c) : ¬ Address.isBlank c := by
  intro hblank
  rcases of_decide_eq_true hblank with rfl | ⟨_, hle⟩
  · exact absurd hc (by decide)
  · have hle : c.toNat ≤ 13 := hle
    rw [isPlain_iff] at hc
    omega

theorem isPlain_of_all {text : List Char} (hall : text.all (IsPlain ·)) : ∀ c ∈ text, IsPlain c := by
  intro c hc
  exact of_decide_eq_true (List.all_eq_true.1 hall c hc)

/-- A station that both a line and a frame can name. -/
structure Station where
  call : String
  /-- Zero stands for a callsign without an SSID. -/
  ssid : Fin 16
  call_ne : call ≠ ""
  length_call : call.toList.length ≤ 6
  plain : ∀ c ∈ call.toList, IsPlain c

namespace Station

/-- The callsign of a station, which leaves out an SSID of zero. -/
def callsign (s : Station) : Callsign :=
  ⟨s.call, if s.ssid = 0 then none else some (toString s.ssid.val)⟩

/-- The octets of an address that hold the call. -/
def callBytes (s : Station) : Bytes :=
  (padSpaces 6 (Latin1.encode s.call.toList)).map fun octet : UInt8 => octet <<< 1

theorem isPlain_toString (ssid : Fin 16) : ∀ c ∈ (toString ssid.val).toList, IsPlain c := by
  apply isPlain_of_all
  revert ssid
  decide

theorem callsign_ssid {s : Station} {ssid : String} (hssid : s.callsign.ssid = some ssid) :
    ssid = toString s.ssid.val := by
  by_cases hzero : s.ssid = 0
  · simp [callsign, hzero] at hssid
  · simpa [callsign, hzero, eq_comm] using hssid

/-- A station is written in plain characters and a dash. -/
theorem mem_display {s : Station} {c : Char} (hmem : c ∈ s.callsign.display.toList) :
    IsPlain c ∨ c = '-' := by
  unfold Callsign.display at hmem
  split at hmem
  case h_1 => exact .inl (s.plain c hmem)
  case h_2 ssid hssid =>
    rw [String.toList_append, String.toList_append, List.mem_append, List.mem_append] at hmem
    rcases hmem with (hcall | hdash) | hmem
    · exact .inl (s.plain c hcall)
    · exact .inr (List.mem_singleton.1 hdash)
    · rw [callsign_ssid hssid] at hmem
      exact .inl (isPlain_toString s.ssid c hmem)

theorem isNamed (s : Station) : s.callsign.IsNamed where
  call_ne := s.call_ne
  no_dash hdash := absurd (s.plain '-' hdash) (by decide)
  ssid_ne hempty := by
    have htext : (toString s.ssid.val).toList ≠ [] := by
      generalize s.ssid = ssid
      revert ssid
      decide
    apply htext
    rw [← callsign_ssid hempty]
    rfl

theorem map_toUpper {text : String} (hplain : ∀ c ∈ text.toList, IsPlain c) :
    text.map Char.toUpper = text := by
  have hupper : ∀ c ∈ text.toList, c.toUpper = id c := by
    intro c hc
    exact (hplain c hc).toUpper
  rw [String.map_eq_internal, List.map_congr_left hupper, List.map_id, String.ofList_toList]

/-- A line shows its stations in upper case, and those of a frame are in upper case already. -/
theorem callsign_toUpper (s : Station) : s.callsign.toUpper = s.callsign := by
  have hssid : s.callsign.ssid.map (String.map Char.toUpper) = s.callsign.ssid := by
    cases hssid : s.callsign.ssid with
    | none => rfl
    | some ssid =>
      rw [Option.map_some, callsign_ssid hssid, map_toUpper (isPlain_toString s.ssid)]
  have hcall : s.call.map Char.toUpper = s.call := map_toUpper s.plain
  unfold Callsign.toUpper
  rw [hssid]
  exact congrArg (Callsign.mk · _) hcall

theorem length_callBytes (s : Station) : s.callBytes.length = 6 := by
  have hroom : (Latin1.encode s.call.toList).length ≤ 6 := by
    rw [Latin1.encode, List.length_map]
    exact s.length_call
  rw [callBytes, List.length_map, length_padSpaces hroom]

theorem callText_callBytes (s : Station) : Address.callText s.callBytes = s.call.toList := by
  apply Address.callText_padSpaces
  · intro c hc
    have hplain := s.plain c hc
    rw [isPlain_iff] at hplain
    omega
  · intro c hc
    exact (s.plain c (List.mem_of_getLast? hc)).not_isBlank

theorem named (s : Station) :
    ∃ octet ∈ s.callBytes, ¬ Address.isBlank (Char.ofUInt8 (octet >>> 1)) := by
  by_contra hnone
  have hblank : Address.callText s.callBytes = [] := by
    rw [Address.callText_eq_nil_iff]
    intro octet hmem
    by_contra hoctet
    exact hnone ⟨octet, hmem, hoctet⟩
  rw [callText_callBytes] at hblank
  exact s.call_ne (String.toList_eq_nil_iff.1 hblank)

end Station

/-- The address of a station in a frame. Whether it is the last one is for the frame to say. -/
structure Hop where
  station : Station
  /-- The highest bit of the flags. It says of a repeater that it has repeated the frame, and
  of the two ends nothing. -/
  high : Bool
  /-- Bits 5 and 6 of the flags. -/
  reserved : Fin 4

namespace Hop

/-- The octet behind the call: the highest bit, the reserved ones, the SSID, and the mark of the
last address in the lowest bit. -/
def flags (hop : Hop) (last : Bool) : UInt8 :=
  UInt8.ofNat (128 * hop.high.toNat + 32 * hop.reserved + 2 * hop.station.ssid + last.toNat)

theorem flags_bits (hop : Hop) (last : Bool) :
    (hop.flags last >>> 1 &&& 0x0F).toNat = hop.station.ssid ∧
      decide (hop.flags last &&& 0x01 ≠ 0) = last ∧
      decide (hop.flags last &&& 0x80 ≠ 0) = hop.high := by
  -- The four parts of the flags take 256 values together, so all of them are looked at.
  unfold flags
  generalize hop.high = high, hop.reserved = reserved, hop.station.ssid = ssid
  revert high reserved ssid last
  decide +kernel

/-- The address field of a station, which is the last one of its frame or is not. -/
def field (hop : Hop) (last : Bool) : Field where
  call := hop.station.callBytes
  flags := hop.flags last
  length_call := hop.station.length_callBytes
  named := hop.station.named

theorem field_address (hop : Hop) (last : Bool) :
    (hop.field last).address = ⟨hop.station.call, hop.station.ssid, last, hop.high⟩ := by
  obtain ⟨hssid, hlast, hhigh⟩ := hop.flags_bits last
  have hcall : String.ofList (Address.callText hop.station.callBytes) = hop.station.call := by
    rw [Station.callText_callBytes, String.ofList_toList]
  exact congr (congr (congr (congrArg Address.mk hcall) hssid) hlast) hhigh

theorem field_callsign (hop : Hop) (last : Bool) :
    (hop.field last).callsign = hop.station.callsign := by
  have hzero : (hop.station.ssid : Nat) = 0 ↔ hop.station.ssid = 0 := Fin.val_eq_zero_iff
  rw [Field.callsign, field_address]
  exact congrArg (Callsign.mk _) (if_congr hzero rfl rfl)

theorem field_last (hop : Hop) (last : Bool) : (hop.field last).last = last := by
  rw [Field.last, field_address]

/-- The entry of a path that shows a repeater. -/
def entry (hop : Hop) : PathEntry := .station hop.station.callsign hop.high

theorem field_entry (hop : Hop) (last : Bool) : (hop.field last).entry = hop.entry := by
  rw [Field.entry, field_callsign, field_address]
  rfl

/-- The address fields of a frame. The last of them alone is marked as the last. -/
def fields : List Hop → List Field
  | [] => []
  | hop :: hops => hop.field hops.isEmpty :: fields hops

theorem marksEnd_fields (hop : Hop) (hops : List Hop) :
    MarksEnd ((fields (hop :: hops)).map Field.last) := by
  induction hops generalizing hop with
  | nil =>
    apply marksEnd_singleton_iff.2
    exact hop.field_last true
  | cons next hops ih =>
    apply marksEnd_cons_cons_iff.2
    exact ⟨hop.field_last false, ih next⟩

theorem length_fields (hops : List Hop) : (fields hops).length = hops.length := by
  induction hops with
  | nil => rfl
  | cons hop hops ih => rw [fields, List.length_cons, List.length_cons, ih]

theorem map_entry_fields (hops : List Hop) : (fields hops).map Field.entry = hops.map entry := by
  induction hops with
  | nil => rfl
  | cons hop hops ih => rw [fields, List.map_cons, List.map_cons, field_entry, ih]

theorem mem_text_entry {hop : Hop} {c : Char} (hmem : c ∈ hop.entry.text.toList) :
    (IsPlain c ∨ c = '-') ∨ c = '*' := by
  apply Or.imp_left Station.mem_display
  exact PathEntry.mem_text_station hmem

/-- No octet of an entry is a delimiter. -/
theorem not_mem_bytes_entry (hop : Hop) {octet : UInt8} (hoctet : octet < 0x80)
    (hother : ¬ ((IsPlain (Char.ofUInt8 octet) ∨ Char.ofUInt8 octet = '-') ∨
      Char.ofUInt8 octet = '*')) : octet ∉ hop.entry.bytes := by
  intro hmem
  apply hother
  apply mem_text_entry
  exact (Utf8.mem_encode_iff hoctet).1 hmem

theorem isListed_entry (hop : Hop) : hop.entry.IsListed where
  read := by
    apply PathEntry.ofBytes_station hop.station.isNamed
    · intro _ hlast
      have hmem := List.mem_of_getLast? hlast
      exact absurd (Station.mem_display hmem) (by decide)
    · exact mt Station.mem_display (by decide)
  no_comma := hop.not_mem_bytes_entry (by decide) (by decide)
  no_colon := hop.not_mem_bytes_entry (by decide) (by decide)

end Hop

/-- What a line and a frame both say in front of a body. -/
structure Header where
  source : Hop
  destination : Hop
  repeaters : List Hop
  room : repeaters.length ≤ Frame.maxRepeaters

namespace Header

/-- The path that a line and a frame show. -/
def path (h : Header) : List PathEntry := h.repeaters.map Hop.entry

/-- The octets of a line. The source stands in front of the destination. -/
def line (h : Header) (body : Bytes) : Bytes :=
  Line.bytes h.source.station.callsign h.destination.station.callsign h.path body

/-- The octets of a frame. The destination stands in front of the source. -/
def frame (h : Header) (body : Bytes) : Bytes :=
  (Hop.fields (h.destination :: h.source :: h.repeaters)).flatMap Field.bytes ++
    0x03 :: 0xF0 :: body

/-- The frame as its parts. -/
def information (h : Header) {body : Bytes} (hbody : body ≠ []) : InformationFrame where
  destination := h.destination.field false
  source := h.source.field h.repeaters.isEmpty
  repeaters := Hop.fields h.repeaters
  body := body
  room := (Hop.length_fields h.repeaters).trans_le h.room
  marked := Hop.marksEnd_fields h.source h.repeaters
  body_ne := hbody

/-- The parts of a frame have its octets. -/
theorem bytes_information (h : Header) {body : Bytes} (hbody : body ≠ []) :
    (h.information hbody).bytes = h.frame body := by
  simp [information, InformationFrame.bytes, frame, Hop.fields]

end Header

end Ax25

namespace Packet

open Ax25

variable {R : Type} [Arithmetic R]

/-- What a frame says in front of its body is the header that it was made from. -/
theorem ofFrame_header (h : Header) {body : Bytes} (hbody : body ≠ []) :
    ofFrame (R := R) (h.frame body) =
      ofBody h.source.station.callsign h.destination.station.callsign h.path body := by
  have hpath : (h.information hbody).path = h.path := Hop.map_entry_fields h.repeaters
  rw [← h.bytes_information hbody, ofFrame_bytes, hpath]
  simp only [Header.information, Hop.field_callsign]

/-- What a line says in front of its body is the header that it was made from. -/
theorem ofLine_header (h : Header) (body : Bytes) :
    ofLine (R := R) (h.line body) =
      (ofBody h.source.station.callsign h.destination.station.callsign h.path body).map
        fun packet => { packet with
          line := some (String.ofList (Utf8.decodeLossy (h.line body))) } := by
  have hpath : ∀ e ∈ h.path, e.IsListed := by
    rw [Header.path, List.forall_mem_map]
    intro hop _
    exact hop.isListed_entry
  have hline := ofLine_bytes (R := R) h.source.station.isNamed h.destination.station.isNamed
    (mt Station.mem_display (by decide)) (mt Station.mem_display (by decide))
    (mt Station.mem_display (by decide)) hpath body
  rw [Station.callsign_toUpper, Station.callsign_toUpper] at hline
  exact hline

/-- A line and a frame with the same header and the same body are read as the same packet, but
that only a line is kept. -/
theorem ofFrame_agrees_ofLine (h : Header) {body : Bytes} (hbody : body ≠ []) :
    ∃ packet : Packet R, ofFrame (h.frame body) = .ok packet ∧
      ofLine (h.line body) = .ok { packet with
        line := some (String.ofList (Utf8.decodeLossy (h.line body))) } ∧
      packet.source = h.source.station.callsign ∧
      packet.destination = h.destination.station.callsign ∧
      packet.path = h.path ∧ packet.line = none := by
  obtain ⟨packet, hpacket, hsource, hdestination, hpath, _, hline⟩ :=
    ofBody_of_ne_nil (R := R) h.source.station.callsign h.destination.station.callsign h.path hbody
  refine ⟨packet, (ofFrame_header h hbody).trans hpacket, ?_, hsource, hdestination, hpath, hline⟩
  rw [ofLine_header, hpacket]
  rfl

/-- The first repeater of two has repeated the packet, and only the second one, which has no
SSID, is marked as the last. -/
theorem ofFrame_agrees_ofLine_repeated :
    let source : Hop := ⟨⟨"N0CALL", 9, by decide, by decide, isPlain_of_all (by decide)⟩, false, 3⟩
    let destination : Hop := ⟨⟨"APRS", 0, by decide, by decide, isPlain_of_all (by decide)⟩, true, 3⟩
    let wide : Hop := ⟨⟨"WIDE1", 1, by decide, by decide, isPlain_of_all (by decide)⟩, true, 3⟩
    let relay : Hop := ⟨⟨"RELAY", 0, by decide, by decide, isPlain_of_all (by decide)⟩, false, 3⟩
    let h : Header := ⟨source, destination, [wide, relay], by decide⟩
    let body := Latin1.ascii ">up"
    h.line body = Latin1.ascii "N0CALL-9>APRS,WIDE1-1*,RELAY:>up" ∧
      h.frame body = [
        0x82, 0xA0, 0xA4, 0xA6, 0x40, 0x40, 0xE0, 0x9C, 0x60, 0x86, 0x82, 0x98, 0x98, 0x72,
        0xAE, 0x92, 0x88, 0x8A, 0x62, 0x40, 0xE2, 0xA4, 0x8A, 0x98, 0x82, 0xB2, 0x40, 0x61,
        0x03, 0xF0, 0x3E, 0x75, 0x70] ∧
      body ≠ [] ∧
      ∃ packet : Packet Exact, ofFrame (h.frame body) = .ok packet ∧
        ofLine (h.line body) = .ok { packet with
          line := some (String.ofList (Utf8.decodeLossy (h.line body))) } ∧
        packet.source = h.source.station.callsign ∧
        packet.destination = h.destination.station.callsign ∧
        packet.path = h.path ∧ packet.line = none := by
  intro source destination wide relay h body
  have hbody : body ≠ [] := by decide
  exact ⟨by decide, by decide, hbody, ofFrame_agrees_ofLine h hbody⟩

end Packet

end Aprs
