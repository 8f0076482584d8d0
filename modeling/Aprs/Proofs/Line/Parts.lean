import Aprs.Proofs.Body.Fault
import Aprs.Proofs.Path

namespace Aprs

theorem intercalate_eq_nil_iff {α : Type} {x : α} {pieces : List (List α)} :
    [x].intercalate pieces = [] ↔ pieces = [] ∨ pieces = [[]] := by
  cases pieces with
  | nil => simp
  | cons piece pieces =>
    cases pieces with
    | nil => simp
    | cons next pieces => simp [List.intercalate_cons_cons]

theorem intercalate_cons_eq {α : Type} (x : α) (piece : List α) (pieces : List (List α)) :
    [x].intercalate (piece :: pieces) = piece ++ pieces.flatMap (x :: ·) := by
  induction pieces generalizing piece with
  | nil => simp
  | cons next pieces ih =>
    rw [List.intercalate_cons_cons, ih, List.flatMap_cons]
    simp

/-- The pieces of a list hold what the list holds, less the delimiters that divided it. -/
theorem mem_of_mem_splitOn {α : Type} [BEq α] [LawfulBEq α] {x y : α} {l piece : List α}
    (hpiece : piece ∈ l.splitOn x) (hmem : y ∈ piece) : y ∈ l ∧ y ≠ x := by
  induction l generalizing piece with
  | nil =>
    rw [List.splitOn_nil, List.mem_singleton] at hpiece
    exact absurd (hpiece ▸ hmem) List.not_mem_nil
  | cons z l ih =>
    have htail {piece : List α} (hpiece : piece ∈ l.splitOn x) (hmem : y ∈ piece) :
        y ∈ z :: l ∧ y ≠ x := by
      obtain ⟨hl, hne⟩ := ih hpiece hmem
      exact ⟨List.mem_cons_of_mem z hl, hne⟩
    rw [List.splitOn_cons_eq_if_modifyHead] at hpiece
    split at hpiece
    case isTrue =>
      rcases List.mem_cons.1 hpiece with rfl | hpiece
      · exact absurd hmem List.not_mem_nil
      · exact htail hpiece hmem
    case isFalse hne =>
      obtain ⟨first, pieces, hsplit⟩ := List.exists_cons_of_ne_nil (List.splitOn_ne_nil x l)
      rw [hsplit, List.modifyHead_cons] at hpiece
      rcases List.mem_cons.1 hpiece with rfl | hpiece
      · rcases List.mem_cons.1 hmem with rfl | hmem
        · exact ⟨List.mem_cons_self, fun heq => hne (beq_iff_eq.2 heq)⟩
        · exact htail (hsplit ▸ List.mem_cons_self) hmem
      · exact htail (hsplit ▸ List.mem_cons_of_mem first hpiece) hmem

namespace Line

/-- The octets between the delimiters of a line. Each part ends at the first delimiter that
can end it, whatever other ones it holds. -/
@[ext] structure Parts where
  source : Bytes
  destination : Bytes
  /-- What stands behind each comma that follows the destination. A comma with nothing behind
  it leaves an entry without octets, and only a line without a comma has no entries. -/
  entries : List Bytes
  body : Bytes
  source_ends : 0x3E ∉ source
  destination_ends : 0x2C ∉ destination ∧ 0x3A ∉ destination
  entries_end : ∀ e ∈ entries, 0x2C ∉ e ∧ 0x3A ∉ e

namespace Parts

/-- What stands between the first `>` and the `:` behind it. -/
def header (p : Parts) : Bytes := p.destination ++ p.entries.flatMap (0x2C :: ·)

/-- The line that has these parts. -/
def bytes (p : Parts) : Bytes := p.source ++ 0x3E :: (p.header ++ 0x3A :: p.body)

theorem cut?_bytes (p : Parts) :
    cut? 0x3E p.bytes = some (p.source, p.header ++ 0x3A :: p.body) :=
  cut?_eq_some_iff.2 ⟨rfl, p.source_ends⟩

theorem colon_notMem_header (p : Parts) : 0x3A ∉ p.header := by
  intro hmem
  rcases List.mem_append.1 hmem with hmem | hmem
  · exact p.destination_ends.2 hmem
  · obtain ⟨e, he, hmem⟩ := List.mem_flatMap.1 hmem
    rcases List.mem_cons.1 hmem with heq | hmem
    · cases heq
    · exact (p.entries_end e he).2 hmem

theorem cut?_rest (p : Parts) : cut? 0x3A (p.header ++ 0x3A :: p.body) = some (p.header, p.body) :=
  cut?_eq_some_iff.2 ⟨rfl, p.colon_notMem_header⟩

theorem cut?_header (p : Parts) : cut? 0x2C p.header =
    if p.entries = [] then none else some (p.destination, [0x2C].intercalate p.entries) := by
  unfold header
  cases p.entries with
  | nil =>
    rw [List.flatMap_nil, List.append_nil, if_pos rfl]
    exact cut?_eq_none_iff.2 p.destination_ends.1
  | cons e entries =>
    rw [if_neg (List.cons_ne_nil e entries), cut?_eq_some_iff, intercalate_cons_eq]
    exact ⟨rfl, p.destination_ends.1⟩

theorem splitOn_intercalate (p : Parts) (hentries : p.entries ≠ []) :
    ([0x2C].intercalate p.entries).splitOn 0x2C = p.entries := by
  apply List.splitOn_intercalate
  · intro e he
    exact (p.entries_end e he).1
  · exact hentries

/-- A line has its parts in one way. -/
theorem bytes_injective {p q : Parts} (hbytes : p.bytes = q.bytes) : p = q := by
  have hcut := p.cut?_bytes
  rw [hbytes, q.cut?_bytes, Option.some.injEq, Prod.mk.injEq] at hcut
  obtain ⟨hsource, hrest⟩ := hcut
  have hcut := p.cut?_rest
  rw [← hrest, q.cut?_rest, Option.some.injEq, Prod.mk.injEq] at hcut
  obtain ⟨hheader, hbody⟩ := hcut
  have hcut := p.cut?_header
  rw [← hheader, q.cut?_header] at hcut
  have hpath : q.destination = p.destination ∧ q.entries = p.entries := by
    by_cases hp : p.entries = []
    · by_cases hq : q.entries = []
      · unfold header at hheader
        rw [hp, hq, List.flatMap_nil, List.append_nil, List.append_nil] at hheader
        exact ⟨hheader, hq.trans hp.symm⟩
      · rw [if_pos hp, if_neg hq] at hcut
        cases hcut
    · by_cases hq : q.entries = []
      · rw [if_neg hp, if_pos hq] at hcut
        cases hcut
      · rw [if_neg hp, if_neg hq, Option.some.injEq, Prod.mk.injEq] at hcut
        refine ⟨hcut.1, ?_⟩
        rw [← q.splitOn_intercalate hq, hcut.2, p.splitOn_intercalate hp]
  exact Parts.ext hsource.symm hpath.1.symm hpath.2.symm hbody.symm

/-- A line with both of its delimiters has parts. -/
theorem exists_of_cuts {line source rest header body : Bytes}
    (hsource : cut? 0x3E line = some (source, rest))
    (hheader : cut? 0x3A rest = some (header, body)) : ∃ p : Parts, p.bytes = line := by
  obtain ⟨rfl, hbracket⟩ := cut?_eq_some_iff.1 hsource
  obtain ⟨rfl, hcolon⟩ := cut?_eq_some_iff.1 hheader
  obtain ⟨destination, entries, hsplit⟩ :=
    List.exists_cons_of_ne_nil (List.splitOn_ne_nil 0x2C header)
  have hends : ∀ e ∈ destination :: entries, 0x2C ∉ e ∧ 0x3A ∉ e := by
    rw [← hsplit]
    intro e he
    exact ⟨fun hmem => (mem_of_mem_splitOn he hmem).2 rfl,
      fun hmem => hcolon (mem_of_mem_splitOn he hmem).1⟩
  obtain ⟨hdestination, hentries⟩ := List.forall_mem_cons.1 hends
  refine ⟨⟨source, destination, entries, body, hbracket, hdestination, hentries⟩, ?_⟩
  rw [bytes, Parts.header, ← intercalate_cons_eq, ← hsplit, List.intercalate_splitOn]

/-- The lines that have parts are the ones with a `>` and a `:` somewhere behind it. -/
theorem exists_bytes_iff {line : Bytes} :
    (∃ p : Parts, p.bytes = line) ↔ ∃ a b c, line = a ++ 0x3E :: (b ++ 0x3A :: c) := by
  constructor
  · rintro ⟨p, rfl⟩
    exact ⟨p.source, p.header, p.body, rfl⟩
  · rintro ⟨a, b, c, rfl⟩
    cases hsource : cut? 0x3E (a ++ 0x3E :: (b ++ 0x3A :: c)) with
    | none => exact absurd (cut?_eq_none_iff.1 hsource) (by simp)
    | some parts =>
      obtain ⟨source, rest⟩ := parts
      cases hheader : cut? 0x3A rest with
      | some parts => exact exists_of_cuts hsource hheader
      | none =>
        -- The first `>` stands no further back than this one, so the `:` is behind it too.
        have hcolon : 0x3A ∉ rest := cut?_eq_none_iff.1 hheader
        obtain ⟨hline, hbracket⟩ := cut?_eq_some_iff.1 hsource
        rcases List.append_eq_append_iff.1 hline with ⟨between, rfl, hrest⟩ | ⟨between, rfl, hrest⟩
        · cases between with
          | nil => exact absurd (List.cons.inj hrest).2 fun h => hcolon (by simp [← h])
          | cons x between =>
            obtain ⟨rfl, _⟩ := List.cons.inj hrest
            exact absurd (List.mem_append_right a List.mem_cons_self) hbracket
        · cases between with
          | nil => exact absurd (List.cons.inj hrest).2 fun h => hcolon (by simp [h])
          | cons x between => exact absurd (List.cons.inj hrest).2 fun h => hcolon (by simp [h])

/-- Reads the path of a line. A comma with nothing behind it is as good as none. -/
def readPath (p : Parts) : Except PacketError (List PathEntry) :=
  if p.entries = [[]] then .ok [] else p.entries.mapM PathEntry.ofBytes

/-- The path of a line is read entry by entry. -/
theorem readPath_eq (p : Parts) :
    Path.ofBytes ((cut? 0x2C p.header).getD (p.header, [])).2 = p.readPath := by
  have hcut : ((cut? 0x2C p.header).getD (p.header, [])).2 = [0x2C].intercalate p.entries := by
    rw [cut?_header]
    split
    case isTrue hnil =>
      rw [hnil]
      rfl
    case isFalse => rfl
  unfold Path.ofBytes readPath
  rw [hcut]
  by_cases hnil : p.entries = []
  · rw [hnil]
    rfl
  · by_cases hlone : p.entries = [[]]
    · rw [hlone, if_pos rfl]
      rfl
    · rw [if_neg (mt intercalate_eq_nil_iff.1 (not_or.2 ⟨hnil, hlone⟩)), if_neg hlone,
        p.splitOn_intercalate hnil]

theorem mapM_lone_comma (path : List PathEntry) :
    ([[]] : List Bytes).mapM PathEntry.ofBytes ≠ .ok path := by
  intro hread
  rw [List.mapM_cons, PathEntry.ofBytes_nil] at hread
  cases hread

theorem readPath_eq_ok_iff {p : Parts} {path : List PathEntry} : p.readPath = .ok path ↔
    (p.entries = [[]] ∧ path = []) ∨ p.entries.mapM PathEntry.ofBytes = .ok path := by
  unfold readPath
  split
  case isTrue hlone =>
    rw [hlone, or_iff_left (mapM_lone_comma path)]
    simp [eq_comm]
  case isFalse hlone => simp [hlone]

/-- An empty entry is no entry, but a path of one is a path without entries. -/
theorem exists_readPath_iff_of_mem_nil {p : Parts} (hempty : [] ∈ p.entries) :
    (∃ path, p.readPath = .ok path) ↔ p.entries = [[]] := by
  constructor
  · rintro ⟨path, hread⟩
    rcases readPath_eq_ok_iff.1 hread with ⟨hlone, _⟩ | hread
    · exact hlone
    · have hmem := List.mem_map_of_mem (f := PathEntry.ofBytes) hempty
      rw [mapM_eq_ok_iff.1 hread, PathEntry.ofBytes_nil] at hmem
      obtain ⟨e, _, he⟩ := List.mem_map.1 hmem
      cases he
  · intro hlone
    exact ⟨[], readPath_eq_ok_iff.2 (.inl ⟨hlone, rfl⟩)⟩

theorem destination_eq (p : Parts) :
    ((cut? 0x2C p.header).getD (p.header, [])).1 = p.destination := by
  rw [cut?_header]
  split
  case isTrue hnil => rw [header, hnil, List.flatMap_nil, List.append_nil, Option.getD_none]
  case isFalse => rfl

end Parts

end Line

namespace Packet

variable {R : Type} [Arithmetic R]

/-- A line is read part by part, whatever delimiters its body holds and whatever other ones
its parts hold. -/
theorem ofLine_parts (p : Line.Parts) : ofLine (R := R) p.bytes = do
    let source ← Line.readStation p.source
    let destination ← Line.readStation p.destination
    let path ← p.readPath
    let packet ← ofBody source destination path p.body
    return { packet with line := some (String.ofList (Utf8.decodeLossy p.bytes)) } := by
  unfold ofLine
  simp only [p.cut?_bytes, p.cut?_rest, p.readPath_eq, p.destination_eq]

/-- A line without parts is malformed as a whole. -/
theorem ofLine_of_no_parts {line : Bytes} (hnone : ∀ p : Line.Parts, p.bytes ≠ line) :
    ofLine (R := R) line = .error (.malformed line) := by
  unfold ofLine
  split
  case h_1 => rfl
  case h_2 source rest hsource =>
    split
    case h_1 => rfl
    case h_2 header body hheader =>
      obtain ⟨p, hp⟩ := Line.Parts.exists_of_cuts hsource hheader
      exact absurd hp (hnone p)

theorem ofLine_of_read {p : Line.Parts} {source destination : Callsign} {path : List PathEntry}
    (hsource : Line.readStation p.source = .ok source)
    (hdestination : Line.readStation p.destination = .ok destination)
    (hpath : p.readPath = .ok path) :
    ofLine (R := R) p.bytes = (ofBody source destination path p.body).map fun packet =>
      { packet with line := some (String.ofList (Utf8.decodeLossy p.bytes)) } := by
  rw [ofLine_parts, hsource, ok_bind, hdestination, ok_bind, hpath, ok_bind]
  cases ofBody (R := R) source destination path p.body <;> rfl

/-- The fields of a packet are read from the parts of its line, each from its own. -/
theorem ofLine_parts_eq_ok {p : Line.Parts} {packet : Packet R}
    (hpacket : ofLine p.bytes = .ok packet) :
    Line.readStation p.source = .ok packet.source ∧
      Line.readStation p.destination = .ok packet.destination ∧
      p.readPath = .ok packet.path ∧ packet.body = p.body ∧
      packet.line = some (String.ofList (Utf8.decodeLossy p.bytes)) := by
  rw [ofLine_parts] at hpacket
  obtain ⟨source, hsource, hpacket⟩ := bind_eq_ok_iff.1 hpacket
  obtain ⟨destination, hdestination, hpacket⟩ := bind_eq_ok_iff.1 hpacket
  obtain ⟨path, hpath, hpacket⟩ := bind_eq_ok_iff.1 hpacket
  obtain ⟨actual, hactual, hpacket⟩ := bind_eq_ok_iff.1 hpacket
  obtain rfl := Except.ok.inj hpacket
  obtain ⟨_, rfl, rfl, rfl, hbody, _⟩ := ofBody_eq_ok hactual
  exact ⟨hsource, hdestination, hpath, hbody, rfl⟩

/-- A line is accepted exactly if each of its parts is. -/
theorem exists_ofLine_parts_iff {p : Line.Parts} :
    (∃ packet : Packet R, ofLine p.bytes = .ok packet) ↔
      (∃ source, Line.readStation p.source = .ok source) ∧
      (∃ destination, Line.readStation p.destination = .ok destination) ∧
      (∃ path, p.readPath = .ok path) ∧ p.body ≠ [] := by
  constructor
  · rintro ⟨packet, hpacket⟩
    obtain ⟨hsource, hdestination, hpath, hbody, _⟩ := ofLine_parts_eq_ok hpacket
    refine ⟨⟨_, hsource⟩, ⟨_, hdestination⟩, ⟨_, hpath⟩, ?_⟩
    intro hnil
    rw [ofLine_of_read hsource hdestination hpath, hnil] at hpacket
    cases hpacket
  · rintro ⟨⟨source, hsource⟩, ⟨destination, hdestination⟩, ⟨path, hpath⟩, hbody⟩
    obtain ⟨packet, hpacket, _⟩ := ofBody_of_ne_nil (R := R) source destination path hbody
    rw [ofLine_of_read hsource hdestination hpath, hpacket]
    exact ⟨_, rfl⟩

/-- A line that is read has parts, and its packet shows what each of them was read as. -/
theorem ofLine_eq_ok {line : Bytes} {packet : Packet R} (hpacket : ofLine line = .ok packet) :
    ∃ p : Line.Parts, p.bytes = line ∧ Line.readStation p.source = .ok packet.source ∧
      Line.readStation p.destination = .ok packet.destination ∧
      p.readPath = .ok packet.path ∧ packet.body = p.body := by
  by_cases hparts : ∃ p : Line.Parts, p.bytes = line
  · obtain ⟨p, rfl⟩ := hparts
    obtain ⟨hsource, hdestination, hpath, hbody, _⟩ := ofLine_parts_eq_ok hpacket
    exact ⟨p, rfl, hsource, hdestination, hpath, hbody⟩
  · rw [ofLine_of_no_parts (not_exists.1 hparts)] at hpacket
    cases hpacket

/-- A line between stations that their texts tell is read as the packet of its body. -/
theorem ofLine_bytes {source destination : Callsign} {path : List PathEntry}
    (hsource : source.IsNamed) (hdestination : destination.IsNamed)
    (hbracket : '>' ∉ source.display.toList) (hcomma : ',' ∉ destination.display.toList)
    (hcolon : ':' ∉ destination.display.toList)
    (hpath : ∀ e ∈ path, e.IsListed) (body : Bytes) :
    let line := Line.bytes source destination path body
    ofLine (R := R) line = (ofBody source.toUpper destination.toUpper path body).map fun packet =>
      { packet with line := some (String.ofList (Utf8.decodeLossy line)) } := by
  intro line
  let p : Line.Parts := {
    source := Utf8.encode source.display.toList
    destination := Utf8.encode destination.display.toList
    entries := path.map PathEntry.bytes
    body := body
    source_ends := mt (Utf8.mem_encode_iff (by decide)).1 hbracket
    destination_ends := ⟨mt (Utf8.mem_encode_iff (by decide)).1 hcomma,
      mt (Utf8.mem_encode_iff (by decide)).1 hcolon⟩
    entries_end := List.forall_mem_map.2 fun e he =>
      ⟨(hpath e he).no_comma, (hpath e he).no_colon⟩ }
  have hline : line = p.bytes := by
    simp [line, p, Line.bytes, Line.Parts.bytes, Line.Parts.header, List.flatMap_map]
  have hread : p.readPath = .ok path :=
    Line.Parts.readPath_eq_ok_iff.2 (.inr (PathEntry.mapM_ofBytes hpath))
  rw [hline]
  exact ofLine_of_read (Line.readStation_display hsource) (Line.readStation_display hdestination)
    hread

end Packet

end Aprs
