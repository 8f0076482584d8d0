import Aprs.Proofs.Line.Parts

namespace Aprs

namespace Path

/-- The octets between the commas of a path. No octets are no pieces, and not one that is empty. -/
def pieces (b : Bytes) : List Bytes := if b = [] then [] else b.splitOn 0x2C

/-- A path has its pieces in one way. -/
theorem pieces_eq_iff {b : Bytes} {found : List Bytes} :
    pieces b = found ↔
      [0x2C].intercalate found = b ∧ (∀ piece ∈ found, 0x2C ∉ piece) ∧ found ≠ [[]] := by
  unfold pieces
  constructor
  · rintro rfl
    split
    case isTrue hempty => exact ⟨hempty.symm, by simp, by simp⟩
    case isFalse hsome =>
      have hjoin : [0x2C].intercalate (b.splitOn 0x2C) = b := List.intercalate_splitOn 0x2C
      refine ⟨hjoin, fun piece hpiece hcomma => (mem_of_mem_splitOn hpiece hcomma).2 rfl, ?_⟩
      intro hlone
      rw [hlone] at hjoin
      exact hsome hjoin.symm
  · rintro ⟨rfl, hcomma, hlone⟩
    by_cases hnil : found = []
    · rw [hnil]
      rfl
    · rw [if_neg (mt intercalate_eq_nil_iff.1 (not_or.2 ⟨hnil, hlone⟩)),
        List.splitOn_intercalate 0x2C hcomma hnil]

theorem ofBytes_eq (b : Bytes) : ofBytes b = (pieces b).mapM PathEntry.ofBytes := by
  unfold ofBytes pieces
  split <;> rfl

end Path

namespace PathEntry

theorem comma_mem_bytes_iff {e : PathEntry} : 0x2C ∈ e.bytes ↔ ',' ∈ e.text.toList :=
  Utf8.mem_encode_iff (by decide)

theorem IsLegible.bytes_ne_nil {e : PathEntry} (hlegible : e.IsLegible) : e.bytes ≠ [] := by
  intro hnil
  have hread := ofBytes_eq_ok_iff.2 (ofBytes?_eq_some_iff.2 ⟨hlegible, hnil⟩)
  rw [ofBytes_nil] at hread
  cases hread

/-- The entries of a path are read from their own octets and from no others. -/
theorem map_ofBytes?_eq_iff {entries : List Bytes} {path : List PathEntry} :
    entries.map ofBytes? = path.map some ↔
      (∀ e ∈ path, e.IsLegible) ∧ path.map bytes = entries := by
  constructor
  · intro hread
    refine ⟨fun e he => ?_, bytes_of_map hread⟩
    have hmem : some e ∈ entries.map ofBytes? := hread ▸ List.mem_map_of_mem he
    obtain ⟨b, _, hb⟩ := List.mem_map.1 hmem
    exact (ofBytes?_eq_some_iff.1 hb).1
  · rintro ⟨hlegible, rfl⟩
    rw [List.map_map]
    exact List.map_congr_left fun e he => ofBytes?_eq_some_iff.2 ⟨hlegible e he, rfl⟩

end PathEntry

namespace Path

/-- The paths that can be read are the ones that their text tells. -/
theorem ofBytes_eq_ok_iff {b : Bytes} {path : List PathEntry} :
    ofBytes b = .ok path ↔
      (∀ e ∈ path, e.IsLegible ∧ ',' ∉ e.text.toList) ∧ bytes path = b := by
  rw [ofBytes_eq, PathEntry.mapM_ofBytes_eq_ok_iff, PathEntry.map_ofBytes?_eq_iff]
  have hpieces : path.map PathEntry.bytes = pieces b ↔
      bytes path = b ∧ (∀ e ∈ path, ',' ∉ e.text.toList) ∧ path.map PathEntry.bytes ≠ [[]] := by
    rw [eq_comm, pieces_eq_iff, List.forall_mem_map]
    simp only [PathEntry.comma_mem_bytes_iff]
    rfl
  have hlone (hlegible : ∀ e ∈ path, e.IsLegible) : path.map PathEntry.bytes ≠ [[]] := by
    intro hlone
    obtain ⟨e, rest, rfl, he, _⟩ := List.map_eq_cons_iff.1 hlone
    exact (hlegible e List.mem_cons_self).bytes_ne_nil he
  rw [hpieces]
  constructor
  · rintro ⟨hlegible, hbytes, hcomma, _⟩
    exact ⟨fun e he => ⟨hlegible e he, hcomma e he⟩, hbytes⟩
  · rintro ⟨hpath, hbytes⟩
    have hlegible (e : PathEntry) (he : e ∈ path) : e.IsLegible := (hpath e he).1
    exact ⟨hlegible, hbytes, fun e he => (hpath e he).2, hlone hlegible⟩

/-- The first piece that is no entry is the malformed part of its packet. -/
theorem ofBytes_eq_error_iff {b : Bytes} {error : PacketError} :
    ofBytes b = .error error ↔ ∃ front bad back, pieces b = front ++ bad :: back ∧
      (∀ piece ∈ front, ∃ e : PathEntry, e.IsLegible ∧ e.bytes = piece) ∧
      (∀ e : PathEntry, e.IsLegible → e.bytes ≠ bad) ∧ error = .malformed bad := by
  have hbad (bad : Bytes) : PathEntry.ofBytes bad = .error error ↔
      (∀ e : PathEntry, e.IsLegible → e.bytes ≠ bad) ∧ error = .malformed bad := by
    have hnone : PathEntry.ofBytes? bad = none ↔ ∀ e : PathEntry, e.IsLegible → e.bytes ≠ bad := by
      rw [Option.eq_none_iff_forall_ne_some]
      simp only [ne_eq, PathEntry.ofBytes?_eq_some_iff, not_and]
    rw [← hnone]
    unfold PathEntry.ofBytes
    cases PathEntry.ofBytes? bad <;> simp [eq_comm]
  rw [ofBytes_eq, mapM_eq_error_iff]
  simp only [PathEntry.ofBytes_eq_ok_iff, PathEntry.ofBytes?_eq_some_iff, hbad]

/-- Reading a path and writing it undo each other. A path is read exactly if it is the texts of
legible entries with commas between them, none of which holds a comma, and otherwise the first
piece that is the text of no entry is malformed. What ends in a mark has been repeated, also where
the rest of it is a q construct. -/
theorem ofBytes_exact (b : Bytes) :
    (∀ path, ofBytes b = .ok path ↔
      (∀ e ∈ path, e.IsLegible ∧ ',' ∉ e.text.toList) ∧ bytes path = b) ∧
    (∀ error, ofBytes b = .error error ↔ ∃ front bad back, pieces b = front ++ bad :: back ∧
      (∀ piece ∈ front, ∃ e : PathEntry, e.IsLegible ∧ e.bytes = piece) ∧
      (∀ e : PathEntry, e.IsLegible → e.bytes ≠ bad) ∧ error = .malformed bad) ∧
    (∀ entry e, PathEntry.ofBytes? entry = some e →
      (e.isRepeated ↔ entry.getLast? = some 0x2A)) ∧
    ∀ q : QConstruct, PathEntry.ofBytes? ((PathEntry.qConstruct q).bytes ++ [0x2A]) =
      some (.station ⟨q.text, none⟩ true) := by
  refine ⟨fun path => ofBytes_eq_ok_iff, fun error => ofBytes_eq_error_iff, ?_, ?_⟩
  · intro entry e hread
    obtain ⟨hlegible, rfl⟩ := PathEntry.ofBytes?_eq_some_iff.1 hread
    exact hlegible.isRepeated_iff
  · intro q
    have hnamed : (⟨q.text, none⟩ : Callsign).IsNamed := by
      cases q <;> exact ⟨by decide, by decide, by decide⟩
    refine PathEntry.ofBytes?_eq_some_iff.2 ⟨.repeated hnamed, ?_⟩
    rw [PathEntry.bytes_station]
    rfl

/-- Of two marks one is a letter of the callsign, and an empty piece is malformed wherever it
stands. -/
theorem ofBytes_exact_marks :
    let marked : PathEntry := .station ⟨"r*", none⟩ true
    (ofBytes (Latin1.ascii "WIDE1-1*,qAR,qAC*,r**") = .ok
      [.station ⟨"WIDE1", some "1"⟩ true, .qConstruct .qAR, .station ⟨"qAC", none⟩ true, marked]) ∧
    ofBytes (Latin1.ascii "r**,,-") = .error (.malformed []) ∧
    PathEntry.ofBytes? (Latin1.ascii "r**") = some marked ∧ marked.isRepeated := by
  intro marked
  have hwide : (⟨"WIDE1", some "1"⟩ : Callsign).IsNamed := ⟨by decide, by decide, by decide⟩
  have hstar : (⟨"r*", none⟩ : Callsign).IsNamed := ⟨by decide, by decide, by decide⟩
  have hcode : (⟨"qAC", none⟩ : Callsign).IsNamed := ⟨by decide, by decide, by decide⟩
  have hmarked : marked.IsLegible := .repeated hstar
  have hread : PathEntry.ofBytes? (Latin1.ascii "r**") = some marked :=
    PathEntry.ofBytes?_eq_some_iff.2 ⟨hmarked, by decide⟩
  refine ⟨((ofBytes_exact _).1 _).2 ⟨?_, by decide⟩, ((ofBytes_exact _).2.1 _).2 ?_, hread, ?_⟩
  · simp only [List.forall_mem_cons, List.not_mem_nil, false_imp_iff, implies_true, and_true]
    exact ⟨⟨.repeated hwide, by decide⟩, ⟨.qConstruct _, by decide⟩, ⟨.repeated hcode, by decide⟩,
      hmarked, by decide⟩
  · refine ⟨[Latin1.ascii "r**"], [], [Latin1.ascii "-"], by decide, ?_, ?_, rfl⟩
    · exact List.forall_mem_singleton.2 ⟨marked, hmarked, by decide⟩
    · exact fun e => PathEntry.IsLegible.bytes_ne_nil
  · exact ((ofBytes_exact []).2.2.1 _ marked hread).2 (by decide)

end Path

end Aprs
