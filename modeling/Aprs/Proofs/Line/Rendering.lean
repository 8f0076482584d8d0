import Aprs.Proofs.Case
import Aprs.Proofs.Line.Parts

namespace Aprs

namespace Line.Parts

/-- The parts of a line as its packet shows them: the stations in upper case, and no comma
that has nothing behind it. -/
def normal (p : Parts) : Parts where
  source := p.source.map upper
  destination := p.destination.map upper
  entries := if p.entries = [[]] then [] else p.entries
  body := p.body
  source_ends := mt (mem_map_upper_iff (by decide)).1 p.source_ends
  destination_ends := p.destination_ends.imp (mt (mem_map_upper_iff (by decide)).1)
    (mt (mem_map_upper_iff (by decide)).1)
  entries_end := by
    intro e he
    split at he
    case isTrue => exact absurd he List.not_mem_nil
    case isFalse => exact p.entries_end e he

end Line.Parts

namespace Packet

variable {R : Type} [Arithmetic R]

/-- A packet is written as the parts that its line shows. -/
theorem bytes_normal {p : Line.Parts} {packet : Packet R} (hpacket : ofLine p.bytes = .ok packet) :
    p.normal.bytes = Line.bytes packet.source packet.destination packet.path packet.body := by
  obtain ⟨hsource, hdestination, hpath, hbody, _⟩ := ofLine_parts_eq_ok hpacket
  have hentries : p.normal.entries = packet.path.map PathEntry.bytes := by
    change (if p.entries = [[]] then [] else p.entries) = _
    rcases Line.Parts.readPath_eq_ok_iff.1 hpath with ⟨hlone, hempty⟩ | hread
    · rw [if_pos hlone, hempty, List.map_nil]
    · have hne : p.entries ≠ [[]] := by
        intro hlone
        rw [hlone] at hread
        exact Line.Parts.mapM_lone_comma packet.path hread
      rw [if_neg hne, PathEntry.bytes_of_map (PathEntry.mapM_ofBytes_eq_ok_iff.1 hread)]
  unfold Line.Parts.bytes Line.Parts.header Line.bytes
  rw [hentries, List.flatMap_map, hbody, Line.encode_of_readStation hsource,
    Line.encode_of_readStation hdestination]
  simp [Line.Parts.normal]

/-- An accepted line is what its packet is written as, but that the letters of its stations may
be small ones and that a path without entries may leave a comma. Two lines with the same header
and body differ in nothing else. -/
theorem ofLine_renders :
    (∀ (line : Bytes) (packet : Packet R), ofLine line = .ok packet →
      ∃ p : Line.Parts, p.bytes = line ∧
        p.normal.bytes =
          Line.bytes packet.source packet.destination packet.path packet.body) ∧
    ∀ (line line' : Bytes) (packet packet' : Packet R),
      ofLine line = .ok packet → ofLine line' = .ok packet' →
      packet.source = packet'.source → packet.destination = packet'.destination →
      packet.path = packet'.path → packet.body = packet'.body →
      ∃ p q : Line.Parts, p.bytes = line ∧ q.bytes = line' ∧ p.normal = q.normal := by
  have hrenders (line : Bytes) (packet : Packet R) (hpacket : ofLine line = .ok packet) :
      ∃ p : Line.Parts, p.bytes = line ∧
        p.normal.bytes =
          Line.bytes packet.source packet.destination packet.path packet.body := by
    obtain ⟨p, rfl, _⟩ := ofLine_eq_ok hpacket
    exact ⟨p, rfl, bytes_normal hpacket⟩
  refine ⟨hrenders, ?_⟩
  intro line line' packet packet' hpacket hpacket' hsource hdestination hpath hbody
  obtain ⟨p, hp, hnormal⟩ := hrenders line packet hpacket
  obtain ⟨q, hq, hnormal'⟩ := hrenders line' packet' hpacket'
  refine ⟨p, q, hp, hq, Line.Parts.bytes_injective ?_⟩
  rw [hnormal, hnormal', hsource, hdestination, hpath, hbody]

end Packet

end Aprs
