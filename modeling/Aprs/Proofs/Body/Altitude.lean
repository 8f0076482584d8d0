import Aprs.Coordinate.Exact
import Aprs.Proofs.Altitude
import Aprs.Proofs.Body.Fault
import Aprs.Proofs.Position.Block

namespace Aprs

variable {R : Type}

/-- The altitude of a position is what its comment states, or unknown if that states none. -/
def Position.IsStatedIn (p : Position R) (comment : Bytes) : Prop :=
  Altitude.decodeAt comment 0 = .ok (p.altitude, 0)

/-- Where the altitudes of all that was read from a body come from. -/
structure Information.StatesAltitudes (i : Information R) : Prop where
  position (p : Position R) : .position p ∈ i.elements → (∀ w, .weather w ∉ i.elements) →
    p.IsStatedIn i.comment
  /-- The comment of a weather report is not searched. -/
  weather (p : Position R) (w : Weather) : .position p ∈ i.elements → .weather w ∈ i.elements →
    p.altitude = none
  object (o : Object R) : .object o ∈ i.elements → o.fault = none →
    ∃ p, o.position = some p ∧ p.IsStatedIn o.comment
  item (x : Item R) : .item x ∈ i.elements → x.position.IsStatedIn x.comment

theorem Position.isStatedIn_scan (p : Position R) (comment : Bytes) :
    { p with altitude := Altitude.scan comment }.IsStatedIn comment :=
  Altitude.decodeAt_eq (Nat.zero_le _)

variable [Arithmetic R]

/-- Nothing in the octets of a position tells of its altitude in the sense of a comment. -/
theorem Position.altitude_of_decode {b rest : Bytes} {p : Position R}
    (hdecode : decode b = .ok (p, rest)) : p.altitude = none := by
  rcases decode_ok hdecode with ⟨_, _, _, _, hp⟩ | ⟨_, _, _, _, _, _, _, _, _, _, hp⟩
  · exact hp.altitude
  · exact hp.altitude

theorem Object.isStatedIn_of_decode {b rest : Bytes} {o : Object R}
    (hdecode : decode b = .ok (o, rest)) : ∃ p, o.position = some p ∧ p.IsStatedIn o.comment := by
  obtain ⟨_, _, p, _, _, _, _, rfl⟩ := decode_ok hdecode
  exact ⟨_, rfl, p.isStatedIn_scan rest⟩

theorem Item.isStatedIn_of_decode {b rest : Bytes} {x : Item R}
    (hdecode : decode b = .ok (x, rest)) : x.position.IsStatedIn x.comment := by
  obtain ⟨_, p, _, _, _, rfl⟩ := decode_ok hdecode
  exact p.isStatedIn_scan rest

namespace Information

omit [Arithmetic R] in
/-- Only positions, objects and items have altitudes. -/
theorem StatesAltitudes.of_kinds {i : Information R}
    (hkinds : ∀ e ∈ i.elements, e.kind ≠ .position ∧ e.kind ≠ .object ∧ e.kind ≠ .item) :
    i.StatesAltitudes where
  position _ hmem := absurd rfl (hkinds _ hmem).1
  weather _ _ hmem := absurd rfl (hkinds _ hmem).1
  object _ hmem := absurd rfl (hkinds _ hmem).2.1
  item _ hmem := absurd rfl (hkinds _ hmem).2.2

end Information

/-- However reading a body ends, its altitudes are the ones that its comments state. -/
theorem Body.Outcome.statesAltitudes {s : Bytes} {type : DataType} {i : Information R}
    {fault : Option String} (houtcome : Outcome s type i fault) : i.StatesAltitudes := by
  cases houtcome with
  | badTimestamp | badMessage | badObject | badItem | unsupported | weatherUnit | message | unread =>
    exact .of_kinds (by simp [Element.kind])
  | badPosition hheading => cases hheading <;> exact .of_kinds (by simp [Element.kind])
  | weather _ hheading => cases hheading <;> exact .of_kinds (by simp [Element.kind])
  | @position _ _ _ _ p _ stop hheading =>
    have hstated := p.isStatedIn_scan (s.drop stop)
    cases hheading <;> exact ⟨by simpa using hstated, by simp, by simp, by simp⟩
  | station hheading hposition =>
    obtain ⟨_, hdecode, _⟩ := Decoder.runAt_eq_ok_iff.1 hposition
    have hnone := Position.altitude_of_decode hdecode
    cases hheading <;> exact ⟨by simp, by simpa using hnone, by simp, by simp⟩
  | placeholder =>
    exact ⟨by simp [shortObject], by simp [shortObject],
      by simp [shortObject, Object.placeholder], by simp [shortObject]⟩
  | object _ hobject =>
    obtain ⟨_, hdecode, _⟩ := Decoder.runAt_eq_ok_iff.1 hobject
    have hstated := Object.isStatedIn_of_decode hdecode
    exact ⟨by simp, by simp, by simpa using fun _ => hstated, by simp⟩
  | item hitem =>
    obtain ⟨_, hdecode, _⟩ := Decoder.runAt_eq_ok_iff.1 hitem
    have hstated := Item.isStatedIn_of_decode hdecode
    exact ⟨by simp, by simp, by simp, by simpa using hstated⟩

/-- Every altitude in a packet is the one that a comment states. It makes no difference whether the
comment is searched from its beginning or from that of the extension in front of it. -/
theorem Packet.ofBody_altitudes_stated :
    (∀ {source destination : Callsign} {path : List PathEntry} {body : Bytes} {packet : Packet R},
      ofBody source destination path body = .ok packet → packet.information.StatesAltitudes) ∧
    (∀ {b : Bytes} {cursor stop : Nat} {e : Extension},
      Extension.decode.runAt b cursor = .ok (e, stop) →
        ∃ altitude, Altitude.decodeAt b cursor = .ok (altitude, cursor) ∧
          Altitude.decodeAt b stop = .ok (altitude, stop)) := by
  constructor
  · intro source destination path body packet hpacket
    cases body with
    | nil => cases hpacket
    | cons first rest =>
      obtain ⟨actual, hactual, _, _, _, _, _, _, houtcome⟩ :=
        ofBody_cons (R := R) source destination path first rest
      obtain rfl := Except.ok.inj (hactual.symm.trans hpacket)
      exact houtcome.statesAltitudes
  · intro b cursor stop e hrun
    obtain ⟨rfl, hstop, hdecode⟩ := Extension.decode_takes.runAt_ok (by decide) hrun
    refine ⟨_, Altitude.decodeAt_eq (by omega), ?_⟩
    rw [Altitude.decodeAt_eq hstop, Extension.scan_of_decode hdecode]

/-- A token right behind an extension is in the comment, and the last token there counts. -/
theorem Packet.ofBody_altitudes_stated_adjacent :
    let station : Callsign := ⟨"N0CALL", none⟩
    let body := Latin1.ascii "!4903.50N/07201.75W>T09/C11/A=000123/A=004567"
    (∃ packet : Packet Exact, ofBody station station [] body = .ok packet ∧
      packet.information.position?.map (·.altitude) = some (some 4567) ∧
      packet.information.StatesAltitudes) ∧
    Extension.decode.runAt body 20 = .ok (.area 9 11, 27) ∧
    ∃ altitude, Altitude.decodeAt body 20 = .ok (altitude, 20) ∧
      Altitude.decodeAt body 27 = .ok (altitude, 27) := by
  intro station body
  obtain ⟨packet, hpacket, haltitude⟩ :
      ∃ packet : Packet Exact, ofBody station station [] body = .ok packet ∧
        packet.information.position?.map (·.altitude) = some (some 4567) :=
    ⟨_, rfl, by decide +kernel⟩
  have hextension : Extension.decode.runAt body 20 = .ok (.area 9 11, 27) := rfl
  obtain ⟨hpackets, hextensions⟩ := ofBody_altitudes_stated (R := Exact)
  exact ⟨⟨packet, hpacket, haltitude, hpackets hpacket⟩, hextension, hextensions hextension⟩

end Aprs
