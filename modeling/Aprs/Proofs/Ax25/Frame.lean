import Aprs.Proofs.Ax25.Field
import Aprs.Proofs.Body.Fault
import Mathlib.Logic.ExistsUnique

namespace Aprs.Ax25

/-- Last address flags of which only the last is set. -/
def MarksEnd (flags : List Bool) : Prop := ∃ n, flags = List.replicate n false ++ [true]

theorem marksEnd_singleton_iff {last : Bool} : MarksEnd [last] ↔ last = true := by
  constructor
  · rintro ⟨n, hflags⟩
    cases n with
    | zero => exact List.singleton_inj.1 hflags
    | succ n =>
      have hlength := congrArg List.length hflags
      simp at hlength
  · rintro rfl
    exact ⟨0, rfl⟩

theorem marksEnd_cons_cons_iff {last next : Bool} {flags : List Bool} :
    MarksEnd (last :: next :: flags) ↔ last = false ∧ MarksEnd (next :: flags) := by
  constructor
  · rintro ⟨n, hflags⟩
    cases n with
    | zero => cases (List.cons.inj hflags).2
    | succ n =>
      obtain ⟨hlast, hrest⟩ := List.cons.inj hflags
      exact ⟨hlast, n, hrest⟩
  · rintro ⟨rfl, n, hrest⟩
    exact ⟨n + 1, congrArg (false :: ·) hrest⟩

/-- A frame of unnumbered information without a layer 3 protocol. Of the source and the
repeaters the last one alone is marked as the last. The mark of the destination is free. -/
structure InformationFrame where
  destination : Field
  source : Field
  repeaters : List Field
  body : Bytes
  room : repeaters.length ≤ Frame.maxRepeaters
  marked : MarksEnd (source.last :: repeaters.map Field.last)
  body_ne : body ≠ []

namespace InformationFrame

/-- The octets of a frame, with those between the repeaters and the body that tell what it
carries. -/
def bytes (u : InformationFrame) : Bytes :=
  u.destination.bytes ++ (u.source.bytes ++
    (u.repeaters.flatMap Field.bytes ++ 0x03 :: 0xF0 :: u.body))

/-- The path of the packet that a frame holds. -/
def path (u : InformationFrame) : List PathEntry := u.repeaters.map Field.entry

/-- The octets in front of the body. -/
def headerLength (u : InformationFrame) : Nat := 7 * (2 + u.repeaters.length) + 2

theorem length_bytes (u : InformationFrame) : u.bytes.length = u.headerLength + u.body.length := by
  simp only [bytes, headerLength, List.length_append, Field.length_bytes,
    Field.length_flatMap_bytes, List.length_cons]
  omega

theorem drop_headerLength (u : InformationFrame) : u.bytes.drop u.headerLength = u.body := by
  obtain ⟨header, hheader⟩ : ∃ header, u.bytes = header ++ u.body :=
    ⟨u.destination.bytes ++ (u.source.bytes ++ (u.repeaters.flatMap Field.bytes ++ [0x03, 0xF0])),
      by simp [bytes]⟩
  have hlength := u.length_bytes
  rw [hheader, List.length_append] at hlength
  rw [hheader, List.drop_left' (by omega)]

end InformationFrame

/-- The repeaters of a frame end where one of them says so, whatever follows them. -/
theorem repeaters_append_inj {last : Bool} {fields others : List Field} {x y : Bytes}
    (hfields : MarksEnd (last :: fields.map Field.last))
    (hothers : MarksEnd (last :: others.map Field.last))
    (h : fields.flatMap Field.bytes ++ x = others.flatMap Field.bytes ++ y) :
    fields = others ∧ x = y := by
  induction fields generalizing last others with
  | nil =>
    obtain rfl := marksEnd_singleton_iff.1 hfields
    cases others with
    | nil => exact ⟨rfl, h⟩
    | cons g others => cases (marksEnd_cons_cons_iff.1 hothers).1
  | cons f fields ih =>
    obtain ⟨rfl, hrest⟩ := marksEnd_cons_cons_iff.1 hfields
    cases others with
    | nil => cases marksEnd_singleton_iff.1 hothers
    | cons g others =>
      obtain ⟨_, hrest'⟩ := marksEnd_cons_cons_iff.1 hothers
      rw [List.flatMap_cons, List.flatMap_cons, List.append_assoc, List.append_assoc] at h
      obtain ⟨rfl, htail⟩ := Field.bytes_append_inj h
      obtain ⟨rfl, rfl⟩ := ih hrest hrest' htail
      exact ⟨rfl, rfl⟩

/-- The octets of a frame fix which of them are its addresses and which its body. -/
theorem InformationFrame.bytes_injective : Function.Injective bytes := by
  rintro ⟨_, _, _, _, _, hmarked, _⟩ ⟨_, _, _, _, _, hmarked', _⟩ h
  obtain ⟨rfl, h⟩ := Field.bytes_append_inj h
  obtain ⟨rfl, h⟩ := Field.bytes_append_inj h
  obtain ⟨rfl, h⟩ := repeaters_append_inj hmarked hmarked' h
  obtain rfl := (List.cons.inj (List.cons.inj h).2).2
  rfl

namespace Frame

/-- All the ways in which repeaters are read, for which there is room for `room`, after an
address that is the last or is not. Either the last of them says so, or there are as many as
there is room for and none does, or one that should follow cannot be read. -/
inductive RepeatersRead (frame : Bytes) (room : Nat) (last : Bool) :
    Bytes → Except PacketError (List Address × Bytes) → Prop where
  | marked (fields : List Field) (after : Bytes) :
    fields.length ≤ room → MarksEnd (last :: fields.map Field.last) →
    RepeatersRead frame room last (fields.flatMap Field.bytes ++ after)
      (.ok (fields.map Field.address, after))
  | overfull (fields : List Field) (after : Bytes) :
    fields.length = room → (∀ flag ∈ last :: fields.map Field.last, flag = false) →
    RepeatersRead frame room last (fields.flatMap Field.bytes ++ after)
      (.error (.tooManyRepeaters (maxRepeaters + 1)))
  | broken (fields : List Field) {after : Bytes} {error : PacketError} :
    fields.length < room → (∀ flag ∈ last :: fields.map Field.last, flag = false) →
    readAddress frame after = .error error →
    RepeatersRead frame room last (fields.flatMap Field.bytes ++ after) (.error error)

/-- One more repeater in front of others that are read in any way. -/
theorem RepeatersRead.cons {frame rest : Bytes} {room : Nat} {f : Field}
    {result : Except PacketError (List Address × Bytes)}
    (hread : RepeatersRead frame room f.last rest result) :
    RepeatersRead frame (room + 1) false (f.bytes ++ rest)
      (result.map fun (more, after) => (f.address :: more, after)) := by
  cases hread with
  | marked fields after hroom hmarked =>
    rw [← List.append_assoc]
    exact .marked (f :: fields) after (Nat.succ_le_succ hroom)
      (marksEnd_cons_cons_iff.2 ⟨rfl, hmarked⟩)
  | overfull fields after hroom hflags =>
    rw [← List.append_assoc]
    exact .overfull (f :: fields) after (congrArg Nat.succ hroom)
      (List.forall_mem_cons.2 ⟨rfl, hflags⟩)
  | broken fields hroom hflags herror =>
    rw [← List.append_assoc]
    exact .broken (f :: fields) (Nat.succ_lt_succ hroom) (List.forall_mem_cons.2 ⟨rfl, hflags⟩)
      herror

theorem readRepeaters_succ (frame : Bytes) (room : Nat) (f : Field) (rest : Bytes) :
    readRepeaters frame (room + 1) false (f.bytes ++ rest) =
      (readRepeaters frame room f.last rest).map fun (more, after) =>
        (f.address :: more, after) := by
  rw [readRepeaters, readAddress_bytes, ok_bind]
  change readRepeaters frame room f.last rest >>= _ = _
  cases readRepeaters frame room f.last rest <;> rfl

/-- Reading repeaters ends in one of these ways. Each address that is read takes one place of the
room, on which the induction is. -/
theorem readRepeaters_reads (frame : Bytes) (room : Nat) (last : Bool) (rest : Bytes) :
    RepeatersRead frame room last rest (readRepeaters frame room last rest) := by
  induction room generalizing last rest with
  | zero =>
    cases last with
    | true => exact .marked [] rest (Nat.le_refl 0) ⟨0, rfl⟩
    | false => exact .overfull [] rest rfl (by simp)
  | succ room ih =>
    cases last with
    | true => exact .marked [] rest (Nat.zero_le _) ⟨0, rfl⟩
    | false =>
      cases hread : readAddress frame rest with
      | error error =>
        have hrepeaters : readRepeaters frame (room + 1) false rest = .error error := by
          rw [readRepeaters, hread, error_bind]
        rw [hrepeaters]
        exact .broken [] (Nat.succ_pos room) (by simp) hread
      | ok parts =>
        obtain ⟨f, rfl, _⟩ := readAddress_eq_ok hread
        rw [readRepeaters_succ]
        exact (ih f.last parts.2).cons

theorem readRepeaters_eq_ok {frame rest after : Bytes} {room : Nat} {last : Bool}
    {repeaters : List Address}
    (hread : readRepeaters frame room last rest = .ok (repeaters, after)) :
    ∃ fields : List Field, fields.length ≤ room ∧ MarksEnd (last :: fields.map Field.last) ∧
      rest = fields.flatMap Field.bytes ++ after ∧ repeaters = fields.map Field.address := by
  have hrepeaters := readRepeaters_reads frame room last rest
  rw [hread] at hrepeaters
  cases hrepeaters with
  | marked fields _ hroom hmarked => exact ⟨fields, hroom, hmarked, rfl, rfl⟩

/-- Two parts are there if the cut is behind both, however the cut is told for the second. -/
theorem ite_cut {α : Type} (n m k : Nat) (x y : α) :
    (if k < n then x else if k - n < m then x else y) = if k < n + m then x else y := by
  by_cases hk : k < n
  · rw [if_pos hk, if_pos (by omega)]
  · rw [if_neg hk]
    exact if_congr (by omega) rfl rfl

/-- Repeaters in a frame that is cut off are read if the cut is behind all of them. -/
theorem readRepeaters_take {room : Nat} {last : Bool} {fields : List Field}
    (hroom : fields.length ≤ room) (hmarked : MarksEnd (last :: fields.map Field.last))
    (frame after : Bytes) (k : Nat) :
    readRepeaters frame room last ((fields.flatMap Field.bytes ++ after).take k) =
      if k < 7 * fields.length then .error (.truncated frame)
      else .ok (fields.map Field.address, after.take (k - 7 * fields.length)) := by
  induction fields generalizing room last k with
  | nil =>
    obtain rfl := marksEnd_singleton_iff.1 hmarked
    cases room <;> simp [readRepeaters]
  | cons f fields ih =>
    obtain ⟨rfl, hrest⟩ := marksEnd_cons_cons_iff.1 hmarked
    cases room with
    | zero => cases hroom
    | succ room =>
      have hfields : readRepeaters frame room f.address.last _ = _ :=
        ih (Nat.le_of_succ_le_succ hroom) hrest (k - 7)
      have hwidth : 7 * (fields.length + 1) = 7 + 7 * fields.length := by omega
      rw [List.flatMap_cons, List.append_assoc, readRepeaters, readAddress_take, ite_error_bind]
      dsimp only
      rw [hfields, ite_error_bind, ite_cut, List.length_cons, hwidth, Nat.sub_sub]
      rfl

theorem readBody_eq_ok_iff {frame rest body : Bytes} :
    readBody frame rest = .ok body ↔ rest = 0x03 :: 0xF0 :: body := by
  match rest with
  | [] => simp [readBody]
  | [_] => simp [readBody]
  | control :: pid :: octets =>
    by_cases hinformation : control = 0x03 ∧ pid = 0xF0
    · simp [readBody, hinformation]
    · simp only [readBody, if_neg hinformation, List.cons.injEq, false_iff, reduceCtorEq]
      rintro ⟨hcontrol, hpid, _⟩
      exact hinformation ⟨hcontrol, hpid⟩

theorem readBody_take (frame body : Bytes) (k : Nat) :
    readBody frame ((0x03 :: 0xF0 :: body).take k) =
      if k < 2 then .error (.truncated frame) else .ok (body.take (k - 2)) := by
  match k with
  | 0 => rfl
  | 1 => rfl
  | k + 2 => rfl

end Frame

end Ax25

open Ax25 Ax25.Frame

variable {R : Type} [Arithmetic R]

/-- A frame that is cut off is read as far as it goes, and only a cut behind its header leaves
a body to be read. -/
theorem Packet.ofFrame_take (u : InformationFrame) (k : Nat) :
    ofFrame (R := R) (u.bytes.take k) =
      if k < u.headerLength then .error (.truncated (u.bytes.take k))
      else ofBody u.source.callsign u.destination.callsign u.path
        (u.body.take (k - u.headerLength)) := by
  have hheader : u.headerLength = 7 + 7 + (7 * u.repeaters.length + 2) := by
    rw [InformationFrame.headerLength]
    omega
  have hbody : k - (7 + 7) - 7 * u.repeaters.length - 2 = k - u.headerLength := by omega
  have hdestination : readAddress (u.bytes.take k) (u.bytes.take k) = _ :=
    readAddress_take u.destination (u.bytes.take k) _ k
  have hrepeaters (frame after : Bytes) (k : Nat) :
      readRepeaters frame maxRepeaters u.source.address.last
        ((u.repeaters.flatMap Field.bytes ++ after).take k) = _ :=
    readRepeaters_take u.room u.marked frame after k
  unfold ofFrame
  rw [hdestination, ite_error_bind]
  dsimp only
  rw [readAddress_take, ite_error_bind]
  dsimp only
  rw [hrepeaters, ite_error_bind]
  dsimp only
  rw [readBody_take, ite_error_bind, ite_cut, ite_cut, Nat.sub_sub k 7 7, ite_cut, hbody, hheader,
    List.map_map]
  rfl

/-- A whole frame is read as the packet of its body. -/
theorem Packet.ofFrame_bytes (u : InformationFrame) :
    ofFrame (R := R) u.bytes = ofBody u.source.callsign u.destination.callsign u.path u.body := by
  have hlength := u.length_bytes
  have hwhole := ofFrame_take (R := R) u u.bytes.length
  rw [List.take_length, if_neg (by omega), hlength, Nat.add_sub_cancel_left,
    List.take_length] at hwhole
  exact hwhole

/-- What is read as a packet is a frame. -/
theorem Packet.ofFrame_ok {frame : Bytes} {packet : Packet R}
    (hpacket : ofFrame frame = .ok packet) : ∃ u : InformationFrame, u.bytes = frame := by
  obtain ⟨⟨destination, rest⟩, hdestination, hpacket⟩ := bind_eq_ok_iff.1 hpacket
  obtain ⟨⟨source, rest'⟩, hsource, hpacket⟩ := bind_eq_ok_iff.1 hpacket
  obtain ⟨⟨repeaters, rest''⟩, hrepeaters, hpacket⟩ := bind_eq_ok_iff.1 hpacket
  obtain ⟨body, hbody, hpacket⟩ := bind_eq_ok_iff.1 hpacket
  have hne : body ≠ [] := by
    rintro rfl
    cases hpacket
  obtain rfl := readBody_eq_ok_iff.1 hbody
  obtain ⟨d, hframe, rfl⟩ := readAddress_eq_ok hdestination
  obtain ⟨s, rfl, rfl⟩ := readAddress_eq_ok hsource
  obtain ⟨fields, hroom, hmarked, rfl, rfl⟩ := readRepeaters_eq_ok hrepeaters
  exact ⟨⟨d, s, fields, body, hroom, hmarked, hne⟩, hframe.symm⟩

/-- Frames of unnumbered information, and no other octets, are read as packets. There is one
way to take a frame apart, and its packet is that of its body between the stations that its
addresses name. -/
theorem Packet.ofFrame_exact :
    (∀ frame : Bytes, (∃ packet : Packet R, ofFrame frame = .ok packet) ↔
      ∃! u : InformationFrame, u.bytes = frame) ∧
    ∀ u : InformationFrame, ∃ packet : Packet R,
      ofFrame u.bytes = .ok packet ∧
      ofBody u.source.callsign u.destination.callsign u.path u.body = .ok packet ∧
      packet.line = none := by
  have hread (u : InformationFrame) : ∃ packet : Packet R, ofFrame u.bytes = .ok packet ∧
      ofBody u.source.callsign u.destination.callsign u.path u.body = .ok packet ∧
      packet.line = none := by
    obtain ⟨packet, hpacket, _, _, _, _, hline⟩ :=
      ofBody_of_ne_nil (R := R) u.source.callsign u.destination.callsign u.path u.body_ne
    exact ⟨packet, (ofFrame_bytes u).trans hpacket, hpacket, hline⟩
  refine ⟨fun frame => ⟨?_, ?_⟩, hread⟩
  · rintro ⟨packet, hpacket⟩
    obtain ⟨u, hu⟩ := ofFrame_ok hpacket
    refine ⟨u, hu, fun v hv => ?_⟩
    exact InformationFrame.bytes_injective (hv.trans hu.symm)
  · rintro ⟨u, rfl, _⟩
    obtain ⟨packet, hpacket, _⟩ := hread u
    exact ⟨packet, hpacket⟩

end Aprs
