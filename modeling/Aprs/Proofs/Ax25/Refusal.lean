import Aprs.Coordinate.Exact
import Aprs.Proofs.Ax25.Frame

namespace Aprs

namespace Ax25

/-- Ten addresses stand at the front of a frame, and of those behind the destination none is
marked as the last. -/
def Overfull (frame : Bytes) : Prop :=
  ∃ (destination : Field) (others : List Field), others.length = 9 ∧
    (∀ f ∈ others, f.last = false) ∧
    destination.bytes ++ others.flatMap Field.bytes <+: frame

/-- All the errors of a frame. Since addresses are cut out seven octets wide, none of them is
refused for its width, and the frame is not taken for a line. -/
inductive FrameError (frame : Bytes) : PacketError → Prop where
  | truncated : FrameError frame (.truncated frame)
  | nobody : FrameError frame (.emptyCallsign "")
  | overfull : Overfull frame → FrameError frame (.tooManyRepeaters 9)
  | notInformation (control pid : UInt8) : FrameError frame (.notInformation control pid)
  | emptyBody : FrameError frame .emptyBody

namespace Frame

theorem readAddress_frameError {frame rest : Bytes} {error : PacketError}
    (hread : readAddress frame rest = .error error) : FrameError frame error := by
  rcases readAddress_eq_error hread with rfl | rfl
  · exact .truncated
  · exact .nobody

/-- That there are too many repeaters is told only of frames that hold them. -/
theorem readRepeaters_frameError {frame rest : Bytes} {destination source : Field}
    {error : PacketError} (hframe : frame = destination.bytes ++ (source.bytes ++ rest))
    (hread : readRepeaters frame maxRepeaters source.last rest = .error error) :
    FrameError frame error := by
  have hrepeaters := readRepeaters_reads frame maxRepeaters source.last rest
  rw [hread] at hrepeaters
  cases hrepeaters with
  | overfull fields after hroom hflags =>
    have hothers : ∀ flag ∈ (source :: fields).map Field.last, flag = false := hflags
    exact .overfull ⟨destination, source :: fields, congrArg Nat.succ hroom,
      List.forall_mem_map.1 hothers, after, by simp [hframe]⟩
  | broken _ _ _ haddress => exact readAddress_frameError haddress

theorem readBody_frameError {frame rest : Bytes} {error : PacketError}
    (hread : readBody frame rest = .error error) : FrameError frame error := by
  match rest with
  | [] =>
    obtain rfl := Except.error.inj hread
    exact .truncated
  | [_] =>
    obtain rfl := Except.error.inj hread
    exact .truncated
  | control :: pid :: body =>
    by_cases hinformation : control = 0x03 ∧ pid = 0xF0
    · rw [readBody, if_pos hinformation] at hread
      cases hread
    · rw [readBody, if_neg hinformation] at hread
      obtain rfl := Except.error.inj hread
      exact .notInformation control pid

/-- The room is used up before any of the addresses says that it is the last. -/
theorem readRepeaters_overfull {room : Nat} {last : Bool} {fields : List Field}
    (hroom : fields.length = room) (hflags : ∀ flag ∈ last :: fields.map Field.last, flag = false)
    (frame after : Bytes) :
    readRepeaters frame room last (fields.flatMap Field.bytes ++ after) =
      .error (.tooManyRepeaters 9) := by
  induction fields generalizing room last with
  | nil =>
    obtain rfl : last = false := hflags last List.mem_cons_self
    subst hroom
    rfl
  | cons f fields ih =>
    obtain ⟨rfl, hrest⟩ := List.forall_mem_cons.1 hflags
    subst hroom
    have hfields := ih rfl hrest
    rw [List.flatMap_cons, List.append_assoc, List.length_cons, readRepeaters_succ, hfields]
    rfl

end Frame

end Ax25

open Ax25 Ax25.Frame

variable {R : Type} [Arithmetic R]

namespace Packet

/-- The octets in front of the body in a frame that holds a packet. -/
def frameHeaderLength (p : Packet R) : Nat := 7 * (2 + p.path.length) + 2

/-- A frame has no other errors than these. -/
theorem ofFrame_error {frame : Bytes} {error : PacketError}
    (hread : ofFrame (R := R) frame = .error error) : FrameError frame error := by
  rcases bind_eq_error_iff.1 hread with herror | ⟨⟨_, rest⟩, hdestination, hread⟩
  · exact readAddress_frameError herror
  rcases bind_eq_error_iff.1 hread with herror | ⟨⟨_, rest'⟩, hsource, hread⟩
  · exact readAddress_frameError herror
  obtain ⟨destination, hframe, rfl⟩ := readAddress_eq_ok hdestination
  obtain ⟨source, rfl, rfl⟩ := readAddress_eq_ok hsource
  rcases bind_eq_error_iff.1 hread with herror | ⟨_, _, hread⟩
  · exact readRepeaters_frameError hframe herror
  rcases bind_eq_error_iff.1 hread with herror | ⟨body, _, hread⟩
  · exact readBody_frameError herror
  cases body with
  | nil =>
    obtain rfl := Except.error.inj hread
    exact .emptyBody
  | cons first rest => cases hread

/-- Ten addresses of which none ends the header are one too many, whatever follows them. -/
theorem ofFrame_overfull {frame : Bytes} (hoverfull : Overfull frame) :
    ofFrame (R := R) frame = .error (.tooManyRepeaters 9) := by
  obtain ⟨destination, others, hcount, hflags, after, rfl⟩ := hoverfull
  match others with
  | source :: fields =>
    have hroom : fields.length = maxRepeaters := Nat.succ.inj hcount
    have hothers : ∀ flag ∈ (source :: fields).map Field.last, flag = false :=
      List.forall_mem_map.2 hflags
    have hrepeaters (frame : Bytes) :
        readRepeaters frame maxRepeaters source.address.last
          (fields.flatMap Field.bytes ++ after) = .error (.tooManyRepeaters 9) :=
      readRepeaters_overfull hroom hothers frame after
    rw [List.flatMap_cons, List.append_assoc, List.append_assoc]
    unfold ofFrame
    rw [readAddress_bytes, ok_bind]
    dsimp only
    rw [readAddress_bytes, ok_bind]
    dsimp only
    rw [hrepeaters]
    rfl

/-- That there are too many repeaters is told of the frames with ten addresses, whatever follows
these. -/
theorem ofFrame_eq_tooMany_iff {frame : Bytes} {count : Nat} :
    ofFrame (R := R) frame = .error (.tooManyRepeaters count) ↔ count = 9 ∧ Overfull frame := by
  constructor
  · intro hread
    cases ofFrame_error hread with
    | overfull hoverfull => exact ⟨rfl, hoverfull⟩
  · rintro ⟨rfl, hoverfull⟩
    exact ofFrame_overfull hoverfull

/-- A frame of which only the first `k` octets are there. -/
structure ReadsPart (frame : Bytes) (packet : Packet R) (k : Nat) : Prop where
  truncated : k < packet.frameHeaderLength →
    ofFrame (R := R) (frame.take k) = .error (.truncated (frame.take k))
  emptyBody : k = packet.frameHeaderLength → ofFrame (R := R) (frame.take k) = .error .emptyBody
  shortened : packet.frameHeaderLength < k → ∃ part : Packet R,
    ofFrame (frame.take k) = .ok part ∧ part.source = packet.source ∧
    part.destination = packet.destination ∧ part.path = packet.path ∧
    part.body = (frame.take k).drop packet.frameHeaderLength

/-- The body is all that stands behind the header, so a cut behind the header only shortens the
body. -/
theorem ofFrame_readsPart {frame : Bytes} {packet : Packet R}
    (hpacket : ofFrame frame = .ok packet) (k : Nat) : ReadsPart frame packet k := by
  obtain ⟨u, rfl⟩ := ofFrame_ok hpacket
  obtain ⟨actual, hactual, hsource, hdestination, hpath, _, _⟩ :=
    ofBody_of_ne_nil (R := R) u.source.callsign u.destination.callsign u.path u.body_ne
  obtain rfl := Except.ok.inj (hpacket.symm.trans ((ofFrame_bytes u).trans hactual))
  have hheader : packet.frameHeaderLength = u.headerLength := by
    rw [frameHeaderLength, hpath, InformationFrame.path, List.length_map]
    rfl
  have hcut := ofFrame_take (R := R) u k
  refine ⟨fun hk => ?_, fun hk => ?_, fun hk => ?_⟩
  · rw [hcut, if_pos (by omega)]
  · have hnone : k - u.headerLength = 0 := by omega
    rw [hcut, if_neg (by omega), hnone]
    rfl
  · have hbody : u.body.take (k - u.headerLength) ≠ [] := by
      rw [ne_eq, List.take_eq_nil_iff]
      rintro (hnone | hempty)
      · omega
      · exact u.body_ne hempty
    obtain ⟨part, hpart, hsource', hdestination', hpath', hoctets, _⟩ :=
      ofBody_of_ne_nil (R := R) u.source.callsign u.destination.callsign u.path hbody
    refine ⟨part, ?_, hsource'.trans hsource.symm, hdestination'.trans hdestination.symm,
      hpath'.trans hpath.symm, ?_⟩
    · rw [hcut, if_neg (by omega), hpart]
    · rw [hoctets, hheader, List.drop_take, u.drop_headerLength]

/-- How a frame is refused. -/
structure RefusesFrame (R : Type) [Arithmetic R] (frame : Bytes) : Prop where
  part (packet : Packet R) : ofFrame frame = .ok packet →
    ∀ k ≤ frame.length, ReadsPart frame packet k
  tooMany_iff (count : Nat) :
    ofFrame (R := R) frame = .error (.tooManyRepeaters count) ↔ count = 9 ∧ Overfull frame
  never_width (field : Bytes) : ofFrame (R := R) frame ≠ .error (.addressWidth field)
  never_malformed (part : Bytes) : ofFrame (R := R) frame ≠ .error (.malformed part)
  never_emptySsid (text : String) : ofFrame (R := R) frame ≠ .error (.emptySsid text)

/-- How a frame is refused, for all octets. A frame that holds a packet and is cut short is
truncated if the cut is in the header, has an empty body if it is right behind the header, and is
a packet with the same header otherwise. Too many repeaters are told as nine, of exactly the
frames that begin with ten addresses of which none behind the destination is marked as the last.
No frame is refused for the width of an address, for a delimiter, or for an empty SSID. -/
theorem ofFrame_refuses (frame : Bytes) : RefusesFrame R frame where
  part _ hpacket k _ := ofFrame_readsPart hpacket k
  tooMany_iff _ := ofFrame_eq_tooMany_iff
  never_width _ hread := by cases ofFrame_error hread
  never_malformed _ hread := by cases ofFrame_error hread
  never_emptySsid _ hread := by cases ofFrame_error hread

/-- A frame without repeaters has a header of sixteen octets, and a body of one octet is left
if the last octet is cut off. -/
theorem ofFrame_refuses_direct :
    let frame : Bytes := [0x82, 0xA0, 0xA4, 0xA6, 0x40, 0x40, 0xE0, 0x9C, 0x60, 0x86, 0x82, 0x98,
      0x98, 0x73, 0x03, 0xF0, 0x3E, 0x75]
    ∃ packet : Packet Exact, ofFrame frame = .ok packet ∧ packet.frameHeaderLength = 16 ∧
      ReadsPart frame packet 16 ∧ ReadsPart frame packet 17 := by
  intro frame
  have hrefuses : RefusesFrame Exact frame := ofFrame_refuses frame
  refine ⟨_, rfl, rfl, ?_, ?_⟩
  · exact hrefuses.part _ rfl 16 (by decide)
  · exact hrefuses.part _ rfl 17 (by decide)

end Packet

end Aprs
