import Aprs.Coordinate.Exact
import Aprs.Proofs.Case
import Aprs.Proofs.Line.Parts

namespace Aprs.Packet

variable {R : Type} [Arithmetic R]

/-- A line is read back from the texts of its stations, the octets of its entries and its body.
Of the header, only the letters of the two stations change. -/
theorem ofLine_recovers {source destination : String} {entries : List Bytes} {body : Bytes}
    (hsource : Callsign.IsSpelling source.toList) (hbracket : '>' ∉ source.toList)
    (hdestination : Callsign.IsSpelling destination.toList)
    (hcomma : ',' ∉ destination.toList) (hcolon : ':' ∉ destination.toList)
    (hentries : ∀ e ∈ entries, (PathEntry.ofBytes? e).isSome ∧ 0x2C ∉ e ∧ 0x3A ∉ e)
    (hbody : body ≠ []) :
    let line := Utf8.encode source.toList ++ 0x3E :: Utf8.encode destination.toList ++
      entries.flatMap (0x2C :: ·) ++ 0x3A :: body
    ∃ (sender receiver : Callsign) (path : List PathEntry) (packet : Packet R),
      Callsign.parse source = .ok sender ∧ Callsign.parse destination = .ok receiver ∧
      entries.map PathEntry.ofBytes? = path.map some ∧
      ofBody sender.toUpper receiver.toUpper path body = .ok packet ∧
      ofLine line = .ok { packet with
        line := some (String.ofList (Utf8.decodeLossy line)) } ∧
      Utf8.encode packet.source.display.toList = (Utf8.encode source.toList).map upper ∧
      Utf8.encode packet.destination.display.toList =
        (Utf8.encode destination.toList).map upper ∧
      packet.path.map PathEntry.bytes = entries ∧ packet.body = body := by
  intro line
  obtain ⟨sender, hsender, hfrom⟩ := Callsign.isSpelling_iff.1 hsource
  obtain ⟨receiver, hreceiver, hto⟩ := Callsign.isSpelling_iff.1 hdestination
  obtain rfl := String.toList_inj.1 hfrom
  obtain rfl := String.toList_inj.1 hto
  obtain ⟨path, hpath⟩ := PathEntry.exists_map_of_isSome fun e he => (hentries e he).1
  have hlisted : ∀ e ∈ path, e.IsListed :=
    PathEntry.isListed_of_map hpath fun e he => (hentries e he).2
  have hline : line = Line.bytes sender receiver path body := by
    simp only [line, Line.bytes, ← PathEntry.bytes_of_map hpath, List.flatMap_map]
  obtain ⟨packet, hpacket, hsourceEq, hdestinationEq, hpathEq, hbodyEq, _⟩ :=
    ofBody_of_ne_nil (R := R) sender.toUpper receiver.toUpper path hbody
  refine ⟨sender, receiver, path, packet, hsender.parse_display, hreceiver.parse_display, hpath,
    hpacket, ?_, ?_, ?_, ?_, hbodyEq⟩
  · rw [hline, ofLine_bytes hsender hreceiver hbracket hcomma hcolon hlisted, hpacket]
    rfl
  · rw [hsourceEq, Callsign.display_toUpper, Utf8.encode_map_toUpper]
  · rw [hdestinationEq, Callsign.display_toUpper, Utf8.encode_map_toUpper]
  · rw [hpathEq, PathEntry.bytes_of_map hpath]

/-- Each delimiter stands in a later part too, and a letter outside ASCII stays as it is. -/
theorem ofLine_recovers_delimiters :
    let entries := [Latin1.ascii "WIDE1-1*", Latin1.ascii "qAR", Latin1.ascii "r>lay"]
    let body := Latin1.ascii ">a,b:c"
    let line := Utf8.encode "n0cäll-9>apdr15,WIDE1-1*,qAR,r>lay:>a,b:c".toList
    Callsign.IsSpelling "n0cäll-9".toList ∧ '>' ∉ "n0cäll-9".toList ∧
    Callsign.IsSpelling "apdr15".toList ∧ ',' ∉ "apdr15".toList ∧ ':' ∉ "apdr15".toList ∧
    (∀ e ∈ entries, (PathEntry.ofBytes? e).isSome ∧ 0x2C ∉ e ∧ 0x3A ∉ e) ∧ body ≠ [] ∧
    ∃ (sender receiver : Callsign) (path : List PathEntry) (packet : Packet Exact),
      Callsign.parse "n0cäll-9" = .ok sender ∧ Callsign.parse "apdr15" = .ok receiver ∧
      entries.map PathEntry.ofBytes? = path.map some ∧
      ofBody sender.toUpper receiver.toUpper path body = .ok packet ∧
      ofLine line = .ok { packet with
        line := some (String.ofList (Utf8.decodeLossy line)) } ∧
      Utf8.encode packet.source.display.toList = Utf8.encode "N0CäLL-9".toList ∧
      Utf8.encode packet.destination.display.toList = Utf8.encode "APDR15".toList ∧
      packet.path.map PathEntry.bytes = entries ∧ packet.body = body := by
  intro entries body line
  have hsource : Callsign.IsSpelling "n0cäll-9".toList := by decide
  have hbracket : '>' ∉ "n0cäll-9".toList := by decide
  have hdestination : Callsign.IsSpelling "apdr15".toList := by decide
  have hcomma : ',' ∉ "apdr15".toList := by decide
  have hcolon : ':' ∉ "apdr15".toList := by decide
  have hentries : ∀ e ∈ entries, (PathEntry.ofBytes? e).isSome ∧ 0x2C ∉ e ∧ 0x3A ∉ e := by
    decide +kernel
  have hbody : body ≠ [] := by decide
  refine ⟨hsource, hbracket, hdestination, hcomma, hcolon, hentries, hbody, ?_⟩
  exact ofLine_recovers hsource hbracket hdestination hcomma hcolon hentries hbody

/-- A path with an empty entry is accepted if that entry is all of it, and refused otherwise. -/
theorem ofLine_emptyEntry_iff (p : Line.Parts) (hempty : [] ∈ p.entries) :
    (∃ packet : Packet R, ofLine p.bytes = .ok packet) ↔
      p.entries = [[]] ∧
      (∃ source, Utf8.encode source = p.source ∧ Callsign.IsSpelling source) ∧
      (∃ destination, Utf8.encode destination = p.destination ∧
        Callsign.IsSpelling destination) ∧ p.body ≠ [] := by
  rw [exists_ofLine_parts_iff, Line.exists_readStation_iff, Line.exists_readStation_iff,
    Line.Parts.exists_readPath_iff_of_mem_nil hempty]
  constructor
  · rintro ⟨hsource, hdestination, hlone, hbody⟩
    exact ⟨hlone, hsource, hdestination, hbody⟩
  · rintro ⟨hlone, hsource, hdestination, hbody⟩
    exact ⟨hsource, hdestination, hlone, hbody⟩

/-- An empty entry behind another one makes no path. -/
theorem ofLine_emptyEntry_trailing :
    ∃ p : Line.Parts, p.bytes = Latin1.ascii "N0CALL>APRS,WIDE1-1,:>x" ∧ [] ∈ p.entries ∧
      ¬ ∃ packet : Packet Exact, ofLine p.bytes = .ok packet := by
  let p : Line.Parts := ⟨Latin1.ascii "N0CALL", Latin1.ascii "APRS",
    [Latin1.ascii "WIDE1-1", []], Latin1.ascii ">x", by decide, by decide, by decide⟩
  have hempty : [] ∈ p.entries := by decide
  refine ⟨p, by decide, hempty, fun haccepted => ?_⟩
  have hlone := ((ofLine_emptyEntry_iff p hempty).1 haccepted).1
  exact absurd hlone (by decide)

/-- Behind the destination of this line stands one entry, which is empty, and it is accepted. -/
theorem ofLine_lone_comma :
    let line := Latin1.ascii "N0CALL>APRS,:>x"
    (∃ p : Line.Parts, p.bytes = line ∧ p.entries = [[]]) ∧
      ¬ ∃ e, ofLine (R := Exact) line = .error e := by
  intro line
  let p : Line.Parts := ⟨Latin1.ascii "N0CALL", Latin1.ascii "APRS", [[]], Latin1.ascii ">x",
    by decide, by decide, by decide⟩
  have hline : p.bytes = line := by decide
  have haccepted : ∃ packet : Packet Exact, ofLine p.bytes = .ok packet := by
    rw [exists_ofLine_parts_iff, Line.exists_readStation_iff, Line.exists_readStation_iff]
    exact ⟨⟨"N0CALL".toList, by decide, by decide⟩, ⟨"APRS".toList, by decide, by decide⟩,
      ⟨[], rfl⟩, by decide⟩
  obtain ⟨packet, hpacket⟩ := hline ▸ haccepted
  refine ⟨⟨p, hline, rfl⟩, ?_⟩
  rintro ⟨e, he⟩
  cases hpacket.symm.trans he

end Aprs.Packet
