import Aprs.Coordinate.Exact
import Aprs.Proofs.Line.Parts

namespace Aprs

/-- A text that is divided at an octet below 0x80 is divided into texts. -/
theorem Utf8.IsText.of_append_flatMap {x : UInt8} (hx : x < 0x80) {front : Bytes}
    {pieces : List Bytes} (htext : IsText (front ++ pieces.flatMap (x :: ·))) :
    IsText front ∧ ∀ piece ∈ pieces, IsText piece := by
  induction pieces generalizing front with
  | nil =>
    rw [List.flatMap_nil, List.append_nil] at htext
    exact ⟨htext, List.forall_mem_nil _⟩
  | cons piece pieces ih =>
    rw [List.flatMap_cons, List.cons_append] at htext
    obtain ⟨hfront, hrest⟩ := htext.of_append_cons hx
    exact ⟨hfront, List.forall_mem_cons.2 (ih hrest)⟩

theorem PathEntry.isText_unmarked {b : Bytes} (htext : Utf8.IsText b) :
    Utf8.IsText (unmarked b) := by
  unfold unmarked
  split
  case isTrue hmark =>
    obtain ⟨front, rfl⟩ := List.getLast?_eq_some_iff.1 hmark
    rw [List.dropLast_concat]
    exact (htext.of_append_cons (by decide)).1
  case isFalse => exact htext

theorem Callsign.parse_ne_malformed (text : String) (part : Bytes) :
    parse text ≠ .error (.malformed part) := by
  intro hparse
  unfold parse at hparse
  split at hparse
  case h_1 => split at hparse <;> cases hparse
  all_goals cases hparse

namespace Line

/-- A station is malformed only for its encoding: a text that names nobody is another error. -/
theorem readStation_malformed {b part : Bytes} (hread : readStation b = .error (.malformed part)) :
    part = b ∧ Utf8.decode? b = none := by
  unfold readStation at hread
  split at hread
  case h_1 hnone =>
    obtain rfl := PacketError.malformed.inj (Except.error.inj hread)
    exact ⟨rfl, hnone⟩
  case h_2 text _ =>
    exact absurd (map_eq_error_iff.1 hread) (Callsign.parse_ne_malformed (String.ofList text) part)

namespace Parts

theorem readPath_eq_error {p : Parts} {error : PacketError} (hread : p.readPath = .error error) :
    ∃ e ∈ p.entries, PathEntry.ofBytes? e = none ∧ error = .malformed e := by
  unfold readPath at hread
  split at hread
  case isTrue => cases hread
  case isFalse =>
    obtain ⟨e, hmem, he⟩ := mapM_eq_error hread
    unfold PathEntry.ofBytes at he
    split at he
    case h_1 hnone => exact ⟨e, hmem, hnone, (Except.error.inj he).symm⟩
    case h_2 => cases he

theorem exists_readPath {p : Parts} (hentries : ∀ e ∈ p.entries, ∃ name,
    Utf8.encode name = PathEntry.unmarked e ∧ Callsign.IsSpelling name) :
    ∃ path, p.readPath = .ok path := by
  have hsome : ∀ e ∈ p.entries, (PathEntry.ofBytes? e).isSome := fun e he =>
    Option.isSome_iff_exists.2 (PathEntry.exists_ofBytes?_iff.2 (hentries e he))
  obtain ⟨path, hpath⟩ := PathEntry.exists_map_of_isSome hsome
  exact ⟨path, readPath_eq_ok_iff.2 (.inr (PathEntry.mapM_ofBytes_eq_ok_iff.2 hpath))⟩

/-- The parts of a text are texts, and so are its entries without their marks. -/
theorem isText {p : Parts} (htext : Utf8.IsText p.bytes) :
    Utf8.IsText p.source ∧ Utf8.IsText p.destination ∧
      ∀ e ∈ p.entries, Utf8.IsText (PathEntry.unmarked e) := by
  obtain ⟨hsource, hrest⟩ := htext.of_append_cons (by decide)
  obtain ⟨hheader, _⟩ := hrest.of_append_cons (by decide)
  obtain ⟨hdestination, hentries⟩ := hheader.of_append_flatMap (by decide)
  exact ⟨hsource, hdestination, fun e he => PathEntry.isText_unmarked (hentries e he)⟩

end Parts

end Line

namespace Packet

variable {R : Type} [Arithmetic R]

/-- Of a line with parts, a station that is no text is malformed, and an entry that is none. -/
theorem ofLine_parts_malformed {p : Line.Parts} {part : Bytes}
    (hread : ofLine (R := R) p.bytes = .error (.malformed part)) :
    ((part = p.source ∨ part = p.destination) ∧ Utf8.decode? part = none) ∨
      (part ∈ p.entries ∧ PathEntry.ofBytes? part = none) := by
  rw [ofLine_parts] at hread
  rcases bind_eq_error_iff.1 hread with hsource | ⟨_, _, hread⟩
  · obtain ⟨rfl, hnone⟩ := Line.readStation_malformed hsource
    exact .inl ⟨.inl rfl, hnone⟩
  rcases bind_eq_error_iff.1 hread with hdestination | ⟨_, _, hread⟩
  · obtain ⟨rfl, hnone⟩ := Line.readStation_malformed hdestination
    exact .inl ⟨.inr rfl, hnone⟩
  rcases bind_eq_error_iff.1 hread with hpath | ⟨_, _, hread⟩
  · obtain ⟨e, hmem, hnone, herror⟩ := Line.Parts.readPath_eq_error hpath
    obtain rfl := PacketError.malformed.inj herror
    exact .inr ⟨hmem, hnone⟩
  -- What is left can only fail for want of a body.
  cases hbody : p.body with
  | nil =>
    rw [hbody] at hread
    cases hread
  | cons first rest =>
    rw [hbody] at hread
    cases hread

/-- Of a text with parts, nothing is malformed but an entry that names nobody. -/
theorem ofLine_parts_malformed_of_isText {p : Line.Parts} (htext : Utf8.IsText p.bytes)
    {part : Bytes} (hread : ofLine (R := R) p.bytes = .error (.malformed part)) :
    part ∈ p.entries ∧
      ∃ name, Utf8.encode name = PathEntry.unmarked part ∧ ¬ Callsign.IsSpelling name := by
  obtain ⟨hsource, hdestination, hentries⟩ := Line.Parts.isText htext
  rcases ofLine_parts_malformed hread with ⟨hstation, hnone⟩ | ⟨hmem, hnone⟩
  · have hpart : Utf8.IsText part := by
      rcases hstation with rfl | rfl
      · exact hsource
      · exact hdestination
    obtain ⟨_, hsome⟩ := Utf8.isText_iff.1 hpart
    cases hnone.symm.trans hsome
  · obtain ⟨name, hname⟩ := hentries part hmem
    refine ⟨hmem, name, hname, ?_⟩
    intro hspelling
    obtain ⟨_, hsome⟩ := PathEntry.exists_ofBytes?_iff.2 ⟨name, hname, hspelling⟩
    cases hnone.symm.trans hsome

/-- How a text is read as a line. -/
structure ReadsText (R : Type) [Arithmetic R] (text : String) : Prop where
  /-- What is decoded on the way is never refused for its encoding. -/
  decoded (p : Line.Parts) : p.bytes = Utf8.encode text.toList →
    (Utf8.decode? p.source).isSome ∧ (Utf8.decode? p.destination).isSome ∧
      ∀ e ∈ p.entries, (Utf8.decode? (PathEntry.unmarked e)).isSome
  /-- The line is malformed for want of its delimiters, and an entry for naming nobody. -/
  malformed (part : Bytes) : ofText (R := R) text = .error (.malformed part) →
    (part = Utf8.encode text.toList ∧ ¬ ∃ a b c, part = a ++ 0x3E :: (b ++ 0x3A :: c)) ∨
    ∃ p : Line.Parts, p.bytes = Utf8.encode text.toList ∧ part ∈ p.entries ∧
      ∃ name, Utf8.encode name = PathEntry.unmarked part ∧
        (name = [] ∨ name.head? = some '-' ∨ name.idxOf '-' + 1 = name.length)
  /-- Parts that name somebody are read, whatever characters they hold. -/
  accepted (p : Line.Parts) : p.bytes = Utf8.encode text.toList →
    (∃ name, Utf8.encode name = p.source ∧ Callsign.IsSpelling name) →
    (∃ name, Utf8.encode name = p.destination ∧ Callsign.IsSpelling name) →
    (∀ e ∈ p.entries, ∃ name,
      Utf8.encode name = PathEntry.unmarked e ∧ Callsign.IsSpelling name) →
    p.body ≠ [] → ∃ packet : Packet R, ofText text = .ok packet
  line (packet : Packet R) : ofText text = .ok packet → packet.line = some text

/-- Text in any script is cut at characters of ASCII alone, so it stays text. -/
theorem ofText_reads (text : String) : ReadsText R text where
  decoded p hp := by
    obtain ⟨hsource, hdestination, hentries⟩ := Line.Parts.isText ⟨text.toList, hp.symm⟩
    simp only [Option.isSome_iff_exists, ← Utf8.isText_iff]
    exact ⟨hsource, hdestination, hentries⟩
  malformed part hread := by
    by_cases hparts : ∃ p : Line.Parts, p.bytes = Utf8.encode text.toList
    · obtain ⟨p, hp⟩ := hparts
      unfold ofText at hread
      rw [← hp] at hread
      obtain ⟨hmem, name, hname, hspelling⟩ :=
        ofLine_parts_malformed_of_isText ⟨text.toList, hp.symm⟩ hread
      exact .inr ⟨p, hp, hmem, name, hname, Callsign.not_isSpelling_iff.1 hspelling⟩
    · have hwhole := ofLine_of_no_parts (R := R) (not_exists.1 hparts)
      obtain rfl := PacketError.malformed.inj (Except.error.inj (hwhole.symm.trans hread))
      exact .inl ⟨rfl, mt Line.Parts.exists_bytes_iff.2 hparts⟩
  accepted p hp hsource hdestination hentries hbody := by
    unfold ofText
    rw [← hp, exists_ofLine_parts_iff, Line.exists_readStation_iff, Line.exists_readStation_iff]
    exact ⟨hsource, hdestination, Line.Parts.exists_readPath hentries, hbody⟩
  line packet hpacket := by
    obtain ⟨p, hp, _⟩ := ofLine_eq_ok hpacket
    unfold ofText at hpacket
    rw [← hp] at hpacket
    obtain ⟨_, _, _, _, hline⟩ := ofLine_parts_eq_ok hpacket
    rw [hline, hp, Utf8.decodeLossy_encode, String.ofList_toList]

/-- The stations, the path and the body of this line hold letters of four scripts. -/
theorem ofText_reads_scripts :
    ∃ packet : Packet Exact, ofText "é-日>Ω,本-ü*,qAR:>日本" = .ok packet ∧
      packet.line = some "é-日>Ω,本-ü*,qAR:>日本" := by
  let p : Line.Parts := {
    source := Utf8.encode "é-日".toList
    destination := Utf8.encode "Ω".toList
    entries := [Utf8.encode "本-ü*".toList, Utf8.encode "qAR".toList]
    body := Utf8.encode ">日本".toList
    source_ends := by decide
    destination_ends := by decide
    entries_end := by decide }
  have hentries : ∀ e ∈ p.entries, ∃ name,
      Utf8.encode name = PathEntry.unmarked e ∧ Callsign.IsSpelling name := by
    intro e he
    rcases List.mem_cons.1 he with rfl | he
    · exact ⟨"本-ü".toList, by decide, by decide⟩
    · obtain rfl := List.mem_singleton.1 he
      exact ⟨"qAR".toList, by decide, by decide⟩
  have hreads : ReadsText Exact "é-日>Ω,本-ü*,qAR:>日本" := ofText_reads "é-日>Ω,本-ü*,qAR:>日本"
  obtain ⟨packet, hpacket⟩ := hreads.accepted p (by decide) ⟨"é-日".toList, rfl, by decide⟩
    ⟨"Ω".toList, rfl, by decide⟩ hentries (by decide)
  exact ⟨packet, hpacket, hreads.line packet hpacket⟩

end Packet

end Aprs
