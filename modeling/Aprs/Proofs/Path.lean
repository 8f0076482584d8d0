import Aprs.Proofs.Callsign
import Aprs.Proofs.Except

namespace Aprs

namespace QConstruct

/-- The text of every q construct begins with the same letter. -/
theorem mem_text (q : QConstruct) : 'q' ∈ q.text.toList := by
  cases q <;> decide

/-- A q construct is written with the octets that it was read from. -/
theorem encode_of_ofBytes? {b : Bytes} {q : QConstruct} (hq : ofBytes? b = some q) :
    Utf8.encode q.text.toList = b := by
  have htext : Latin1.decode b = q.text.toList := by
    unfold ofBytes? at hq
    split at hq
    case h_11 => cases hq
    all_goals
      rename_i htext
      obtain rfl := Option.some.inj hq
      rw [htext]
      rfl
  -- The ten texts are in ASCII, so it does not matter which encoding writes them.
  have hascii : Utf8.encode q.text.toList = Latin1.encode q.text.toList := by
    cases q <;> decide
  rw [hascii, ← htext, Latin1.encode_decode]

theorem ofBytes?_encode (q : QConstruct) : ofBytes? (Utf8.encode q.text.toList) = some q := by
  cases q <;> decide

theorem isSpelling (q : QConstruct) : Callsign.IsSpelling q.text.toList := by
  cases q <;> exact ⟨by decide, by decide, by decide⟩

theorem star_notMem_text (q : QConstruct) : '*' ∉ q.text.toList := by
  cases q <;> decide

end QConstruct

namespace PathEntry

variable {c : Callsign} {repeated : Bool}

/-- An entry without the mark that it may end in. -/
def unmarked (b : Bytes) : Bytes := if b.getLast? = some 0x2A then b.dropLast else b

theorem unmarked_append (b : Bytes) :
    unmarked b ++ (if b.getLast? = some 0x2A then [0x2A] else []) = b := by
  unfold unmarked
  split
  case isTrue hmark =>
    obtain ⟨front, rfl⟩ := List.getLast?_eq_some_iff.1 hmark
    rw [List.dropLast_concat]
  case isFalse => exact List.append_nil b

theorem bytes_station (c : Callsign) (repeated : Bool) :
    (station c repeated).bytes =
      Utf8.encode c.display.toList ++ if repeated then [0x2A] else [] := by
  have htext : (station c repeated).text.toList =
      c.display.toList ++ if repeated then ['*'] else [] := by
    cases repeated <;> simp [text]
  rw [bytes, htext, Utf8.encode_append]
  cases repeated <;> rfl

end PathEntry

/-- What is read off an entry is all of it: a callsign that its text tells, and the mark. -/
theorem Callsign.ofPathText?_eq_some_iff {b : Bytes} {c : Callsign} {repeated : Bool} :
    ofPathText? b = some (c, repeated) ↔
      c.IsNamed ∧ Utf8.encode c.display.toList = PathEntry.unmarked b ∧
        repeated = decide (b.getLast? = some 0x2A) := by
  have hread : ofPathText? b = some (c, repeated) ↔
      ∃ text, Utf8.decode? (PathEntry.unmarked b) = some text ∧
        parse (String.ofList text) = .ok c ∧ repeated = decide (b.getLast? = some 0x2A) := by
    simp only [ofPathText?, PathEntry.unmarked, decide_eq_true_eq, Option.bind_eq_bind,
      Option.bind_eq_some_iff]
    apply exists_congr
    intro text
    apply and_congr_right
    intro _
    cases parse (String.ofList text) with
    | ok actual => simp [eq_comm]
    | error e => simp
  rw [hread]
  constructor
  · rintro ⟨text, hdecode, hparse, hmark⟩
    obtain ⟨hnamed, htext⟩ := parse_eq_ok_iff.1 hparse
    refine ⟨hnamed, ?_, hmark⟩
    rw [htext, String.toList_ofList]
    exact Utf8.decode?_eq_some_iff.1 hdecode
  · rintro ⟨hnamed, hencode, hmark⟩
    refine ⟨c.display.toList, Utf8.decode?_eq_some_iff.2 hencode, ?_, hmark⟩
    rw [String.ofList_toList]
    exact hnamed.parse_display

namespace PathEntry

variable {c : Callsign} {repeated : Bool}

/-- An entry that a path can show. -/
structure IsListed (e : PathEntry) : Prop where
  read : ofBytes e.bytes = .ok e
  no_comma : 0x2C ∉ e.bytes
  no_colon : 0x3A ∉ e.bytes

theorem ofBytes_eq_ok_iff {b : Bytes} {e : PathEntry} : ofBytes b = .ok e ↔ ofBytes? b = some e := by
  unfold ofBytes
  cases ofBytes? b <;> simp

/-- An entry that its text tells. A station that is not marked may have no text that would be
read as something else: one that ends in a mark, or one of the q constructs. -/
inductive IsLegible : PathEntry → Prop
  | qConstruct (q : QConstruct) : IsLegible (qConstruct q)
  | repeated {c : Callsign} (hnamed : c.IsNamed) : IsLegible (station c true)
  | unrepeated {c : Callsign} (hnamed : c.IsNamed) (hstar : c.display.toList.getLast? ≠ some '*')
    (hplain : ∀ q : QConstruct, c.display ≠ q.text) : IsLegible (station c false)

theorem isLegible_station (hnamed : c.IsNamed)
    (hstar : repeated = false → c.display.toList.getLast? ≠ some '*')
    (hplain : repeated = false → ∀ q : QConstruct, c.display ≠ q.text) :
    (station c repeated).IsLegible := by
  cases repeated with
  | true => exact .repeated hnamed
  | false => exact .unrepeated hnamed (hstar rfl) (hplain rfl)

theorem getLast?_bytes_station (c : Callsign) (repeated : Bool) :
    (station c repeated).bytes.getLast? = some 0x2A ↔
      repeated = true ∨ c.display.toList.getLast? = some '*' := by
  rw [bytes_station]
  cases repeated with
  | true => simp
  | false =>
    have hlast : (Utf8.encode c.display.toList).getLast? = some 0x2A ↔
        c.display.toList.getLast? = some '*' := Utf8.getLast?_encode_iff (by decide)
    simpa using hlast

/-- A legible entry ends in a mark exactly if it has been repeated. -/
theorem IsLegible.isRepeated_iff {e : PathEntry} (hlegible : e.IsLegible) :
    e.isRepeated ↔ e.bytes.getLast? = some 0x2A := by
  cases hlegible with
  | qConstruct q =>
    refine iff_of_false Bool.false_ne_true fun hlast => ?_
    exact q.star_notMem_text ((Utf8.mem_encode_iff (by decide)).1 (List.mem_of_getLast? hlast))
  | repeated => simp [isRepeated, getLast?_bytes_station]
  | unrepeated _ hstar => simp [isRepeated, getLast?_bytes_station, hstar]

/-- The octets of a legible station are those of no q construct. -/
theorem IsLegible.ofBytes?_qConstruct (hlegible : (station c repeated).IsLegible) :
    QConstruct.ofBytes? (station c repeated).bytes = none := by
  rw [Option.eq_none_iff_forall_ne_some]
  intro q hq
  have htext := String.toList_inj.1 (Utf8.encode_injective (QConstruct.encode_of_ofBytes? hq))
  cases hlegible with
  | repeated => exact q.star_notMem_text (by simp [htext, text])
  | unrepeated _ _ hplain => exact hplain q (by simpa [text] using htext.symm)

theorem IsLegible.ofPathText?_bytes (hlegible : (station c repeated).IsLegible) :
    Callsign.ofPathText? (station c repeated).bytes = some (c, repeated) := by
  have hmark : repeated = true ↔ (station c repeated).bytes.getLast? = some 0x2A :=
    hlegible.isRepeated_iff
  have hnamed : c.IsNamed := by cases hlegible <;> assumption
  refine Callsign.ofPathText?_eq_some_iff.2 ⟨hnamed, ?_, by simp [← hmark]⟩
  simp only [unmarked, ← hmark]
  cases repeated <;> simp [bytes_station]

/-- What is read as an entry is the text of that entry, and a legible entry is read from its
text. -/
theorem ofBytes?_eq_some_iff {b : Bytes} {e : PathEntry} :
    ofBytes? b = some e ↔ e.IsLegible ∧ e.bytes = b := by
  constructor
  · intro hread
    unfold ofBytes? at hread
    split at hread
    case h_1 q hq =>
      obtain rfl := Option.some.inj hread
      exact ⟨.qConstruct q, QConstruct.encode_of_ofBytes? hq⟩
    case h_2 hnone =>
      obtain ⟨⟨c, repeated⟩, hstation, rfl⟩ := Option.map_eq_some_iff.1 hread
      obtain ⟨hnamed, hencode, rfl⟩ := Callsign.ofPathText?_eq_some_iff.1 hstation
      have hbytes : (station c (decide (b.getLast? = some 0x2A))).bytes = b := by
        rw [bytes_station, hencode]
        simpa only [decide_eq_true_eq] using unmarked_append b
      refine ⟨isLegible_station hnamed ?_ ?_, hbytes⟩
      · intro hmark hstar
        have hlast : b.getLast? = some 0x2A := by
          rw [← hbytes, getLast?_bytes_station]
          exact .inr hstar
        exact of_decide_eq_false hmark hlast
      · intro hmark q hq
        rw [hmark, bytes_station, hq, if_neg Bool.false_ne_true, List.append_nil] at hbytes
        rw [← hbytes, q.ofBytes?_encode] at hnone
        cases hnone
  · rintro ⟨hlegible, rfl⟩
    cases e with
    | qConstruct q => rw [ofBytes?, bytes, text, q.ofBytes?_encode]
    | station c repeated =>
      rw [ofBytes?, hlegible.ofBytes?_qConstruct, hlegible.ofPathText?_bytes]
      rfl

/-- An entry is written with the octets that it was read from. -/
theorem bytes_of_ofBytes? {b : Bytes} {e : PathEntry} (hread : ofBytes? b = some e) :
    e.bytes = b := (ofBytes?_eq_some_iff.1 hread).2

/-- An entry is a q construct or a callsign, with or without its mark, and q constructs have the
texts of callsigns. -/
theorem exists_ofBytes?_iff {b : Bytes} : (∃ e, ofBytes? b = some e) ↔
    ∃ text, Utf8.encode text = unmarked b ∧ Callsign.IsSpelling text := by
  constructor
  · rintro ⟨e, hread⟩
    unfold ofBytes? at hread
    split at hread
    case h_1 q hq =>
      obtain rfl := QConstruct.encode_of_ofBytes? hq
      have hmark : unmarked (Utf8.encode q.text.toList) = Utf8.encode q.text.toList := by
        cases q <;> decide
      exact ⟨q.text.toList, hmark.symm, q.isSpelling⟩
    case h_2 =>
      obtain ⟨⟨c, repeated⟩, hstation, _⟩ := Option.map_eq_some_iff.1 hread
      obtain ⟨hnamed, hencode, _⟩ := Callsign.ofPathText?_eq_some_iff.1 hstation
      exact ⟨c.display.toList, hencode, hnamed.isSpelling_display⟩
  · rintro ⟨text, hencode, htext⟩
    obtain ⟨c, hnamed, rfl⟩ := Callsign.isSpelling_iff.1 htext
    have hstation := Callsign.ofPathText?_eq_some_iff.2 ⟨hnamed, hencode, rfl⟩
    unfold ofBytes?
    cases QConstruct.ofBytes? b with
    | some q => exact ⟨_, rfl⟩
    | none =>
      rw [hstation]
      exact ⟨_, rfl⟩

/-- Between two commas with nothing between them there is no entry. -/
theorem ofBytes_nil : ofBytes [] = .error (.malformed []) := by
  have hnone : ofBytes? [] = none := by
    rw [Option.eq_none_iff_forall_ne_some]
    intro e hread
    obtain ⟨text, hencode, htext⟩ := exists_ofBytes?_iff.1 ⟨e, hread⟩
    exact htext.ne_nil (Utf8.encode_injective hencode)
  rw [ofBytes, hnone]

theorem mem_text_station {x : Char} (hmem : x ∈ (station c repeated).text.toList) :
    x ∈ c.display.toList ∨ x = '*' := by
  cases repeated with
  | true => simpa [text] using hmem
  | false => exact .inl (by simpa [text] using hmem)

/-- A station is read back from its entry in a path if its text is not that of a marked one and
holds no letter of a q construct. -/
theorem ofBytes_station (hnamed : c.IsNamed)
    (hstar : repeated = false → c.display.toList.getLast? ≠ some '*')
    (hletter : 'q' ∉ c.display.toList) :
    ofBytes (station c repeated).bytes = .ok (station c repeated) := by
  have hlegible : (station c repeated).IsLegible := by
    refine isLegible_station hnamed hstar fun _ q hq => hletter ?_
    rw [hq]
    exact q.mem_text
  exact ofBytes_eq_ok_iff.2 (ofBytes?_eq_some_iff.2 ⟨hlegible, rfl⟩)

/-- Entries that are all read back from their octets are read back one after the other. -/
theorem mapM_ofBytes {path : List PathEntry} (hpath : ∀ e ∈ path, e.IsListed) :
    (path.map bytes).mapM ofBytes = .ok path := by
  rw [mapM_eq_ok_iff, List.map_map]
  apply List.map_congr_left
  intro e he
  exact (hpath e he).read

theorem mapM_ofBytes_eq_ok_iff {entries : List Bytes} {path : List PathEntry} :
    entries.mapM ofBytes = .ok path ↔ entries.map ofBytes? = path.map some := by
  rw [mapM_eq_ok_iff]
  induction path generalizing entries with
  | nil => simp
  | cons e path ih => simp only [List.map_cons, List.map_eq_cons_iff, ofBytes_eq_ok_iff, ih]

/-- The entries of a path are written with the octets that they were read from. -/
theorem bytes_of_map {entries : List Bytes} {path : List PathEntry}
    (hread : entries.map ofBytes? = path.map some) : path.map bytes = entries := by
  induction path generalizing entries with
  | nil => exact (List.map_eq_nil_iff.1 hread).symm
  | cons e path ih =>
    obtain ⟨b, rest, rfl, he, hrest⟩ := List.map_eq_cons_iff.1 hread
    rw [List.map_cons, ih hrest, bytes_of_ofBytes? he]

theorem isListed_of_map {entries : List Bytes} {path : List PathEntry}
    (hread : entries.map ofBytes? = path.map some)
    (hends : ∀ b ∈ entries, 0x2C ∉ b ∧ 0x3A ∉ b) : ∀ e ∈ path, e.IsListed := by
  intro e he
  have hmem : some e ∈ entries.map ofBytes? := hread ▸ List.mem_map_of_mem he
  obtain ⟨b, hb, hbe⟩ := List.mem_map.1 hmem
  obtain rfl := bytes_of_ofBytes? hbe
  exact ⟨ofBytes_eq_ok_iff.2 hbe, (hends e.bytes hb).1, (hends e.bytes hb).2⟩

theorem exists_map_of_isSome {entries : List Bytes} (hread : ∀ b ∈ entries, (ofBytes? b).isSome) :
    ∃ path : List PathEntry, entries.map ofBytes? = path.map some := by
  induction entries with
  | nil => exact ⟨[], rfl⟩
  | cons b entries ih =>
    obtain ⟨hb, hrest⟩ := List.forall_mem_cons.1 hread
    obtain ⟨e, he⟩ := Option.isSome_iff_exists.1 hb
    obtain ⟨path, hpath⟩ := ih hrest
    exact ⟨e :: path, by rw [List.map_cons, he, hpath, List.map_cons]⟩

end PathEntry

end Aprs
