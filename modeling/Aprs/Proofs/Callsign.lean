import Aprs.Line
import Aprs.Proofs.Except
import Aprs.Proofs.Utf8.WellFormed

namespace Aprs

namespace Callsign

/-- A callsign that its text tells: the call is there and ends at the first dash, and a dash
has an SSID behind it. The SSID may hold more dashes. -/
structure IsNamed (c : Callsign) : Prop where
  call_ne : c.call ≠ ""
  no_dash : '-' ∉ c.call.toList
  ssid_ne : c.ssid ≠ some ""

variable {c : Callsign}

/-- A callsign is read back from its text. -/
theorem IsNamed.parse_display (hnamed : c.IsNamed) : parse c.display = .ok c := by
  obtain ⟨call, ssid⟩ := c
  obtain ⟨hcall, hdash, hssid⟩ := hnamed
  cases ssid with
  | none =>
    have hcut : cut? '-' call.toList = none := cut?_eq_none_iff.2 hdash
    have hempty : call ≠ "" := hcall
    unfold parse display
    simp only [hcut, if_neg hempty]
  | some ssid =>
    have htext : (display ⟨call, some ssid⟩).toList = call.toList ++ '-' :: ssid.toList := by
      simp [display]
    have hcut : cut? '-' (call.toList ++ '-' :: ssid.toList) = some (call.toList, ssid.toList) :=
      cut?_eq_some_iff.2 ⟨rfl, hdash⟩
    have hfront : call.toList ≠ [] := fun h => hcall (String.toList_eq_nil_iff.1 h)
    have hbehind : ssid.toList ≠ [] := fun h => hssid (congrArg some (String.toList_eq_nil_iff.1 h))
    obtain ⟨first, front, hfront⟩ := List.exists_cons_of_ne_nil hfront
    obtain ⟨next, behind, hbehind⟩ := List.exists_cons_of_ne_nil hbehind
    unfold parse
    rw [htext, hcut, hfront, hbehind]
    simp only [← hfront, ← hbehind, String.ofList_toList]

/-- What an SSID stands behind is not a part of the call, so a callsign has one text. -/
theorem parse_eq_ok_iff {text : String} {c : Callsign} :
    parse text = .ok c ↔ c.IsNamed ∧ c.display = text := by
  constructor
  · intro hparse
    unfold parse at hparse
    split at hparse
    case h_1 hcut =>
      split at hparse
      case isTrue => cases hparse
      case isFalse hne =>
        obtain rfl := Except.ok.inj hparse
        exact ⟨⟨hne, cut?_eq_none_iff.1 hcut, by simp⟩, rfl⟩
    case h_2 => cases hparse
    case h_3 => cases hparse
    case h_4 call ssid hcall hssid hcut =>
      obtain rfl := Except.ok.inj hparse
      obtain ⟨htext, hdash⟩ := cut?_eq_some_iff.1 hcut
      refine ⟨⟨?_, ?_, ?_⟩, ?_⟩
      · simpa [← String.toList_eq_nil_iff] using hcall
      · simpa using hdash
      · simpa [← String.toList_eq_nil_iff] using hssid
      · rw [← String.toList_inj, htext]
        simp [display]
  · rintro ⟨hnamed, rfl⟩
    exact hnamed.parse_display

/-- The texts of callsigns: something stands in front of the first dash, and something behind
it if there is one. -/
structure IsSpelling (text : List Char) : Prop where
  ne_nil : text ≠ []
  head_ne : text.head? ≠ some '-'
  dash_ne : text.idxOf '-' + 1 ≠ text.length

instance (text : List Char) : Decidable (IsSpelling text) :=
  decidable_of_iff (text ≠ [] ∧ text.head? ≠ some '-' ∧ text.idxOf '-' + 1 ≠ text.length)
    ⟨fun ⟨hne, hhead, hdash⟩ => ⟨hne, hhead, hdash⟩, fun ⟨hne, hhead, hdash⟩ => ⟨hne, hhead, hdash⟩⟩

/-- A text spells no callsign if it is empty, begins with a dash, or ends at its first one. -/
theorem not_isSpelling_iff {text : List Char} : ¬ IsSpelling text ↔
    text = [] ∨ text.head? = some '-' ∨ text.idxOf '-' + 1 = text.length := by
  constructor
  · intro hspelling
    by_cases hne : text = []
    · exact .inl hne
    by_cases hhead : text.head? = some '-'
    · exact .inr (.inl hhead)
    exact .inr (.inr (Decidable.not_not.1 fun hdash => hspelling ⟨hne, hhead, hdash⟩))
  · rintro (hne | hhead | hdash) hspelling
    · exact hspelling.ne_nil hne
    · exact hspelling.head_ne hhead
    · exact hspelling.dash_ne hdash

theorem idxOf_dash {call : List Char} (hdash : '-' ∉ call) (ssid : List Char) :
    (call ++ '-' :: ssid).idxOf '-' = call.length := by
  rw [List.idxOf_append, if_neg hdash, List.idxOf_cons_self, Nat.zero_add]

/-- A callsign that names a station is written with a dash in front of its SSID, or without any
dash. -/
theorem IsNamed.isSpelling_display {c : Callsign} (hnamed : c.IsNamed) :
    IsSpelling c.display.toList := by
  obtain ⟨call, ssid⟩ := c
  obtain ⟨hcall, hdash, hssid⟩ := hnamed
  obtain ⟨first, front, hfront⟩ :=
    List.exists_cons_of_ne_nil fun h => hcall (String.toList_eq_nil_iff.1 h)
  have hfirst : first ≠ '-' := by
    rintro rfl
    exact hdash (hfront ▸ List.mem_cons_self)
  cases ssid with
  | none =>
    have hindex : call.toList.idxOf '-' = call.toList.length := List.idxOf_eq_length hdash
    have hhead : call.toList.head? ≠ some '-' := by simpa [hfront] using hfirst
    exact ⟨fun h => hcall (String.toList_eq_nil_iff.1 h), hhead, by simp only [display]; omega⟩
  | some ssid =>
    have hindex : (call.toList ++ '-' :: ssid.toList).idxOf '-' = call.toList.length :=
      idxOf_dash hdash _
    have hbehind : ssid.toList.length ≠ 0 := by simpa using hssid
    have htext : (display ⟨call, some ssid⟩).toList = call.toList ++ '-' :: ssid.toList := by
      simp [display]
    rw [htext]
    refine ⟨by simp, by simpa [hfront] using hfirst, ?_⟩
    rw [hindex, List.length_append, List.length_cons]
    omega

/-- The texts of callsigns are those in which the first dash, if there is one, stands behind a
call and in front of an SSID. -/
theorem isSpelling_iff {text : List Char} :
    IsSpelling text ↔ ∃ c : Callsign, c.IsNamed ∧ c.display.toList = text := by
  constructor
  · rintro ⟨hne, hhead, hlast⟩
    cases hcut : cut? '-' text with
    | none =>
      refine ⟨⟨String.ofList text, none⟩, ⟨?_, ?_, by simp⟩, by simp [display]⟩
      · simpa [← String.toList_eq_nil_iff] using hne
      · simpa using cut?_eq_none_iff.1 hcut
    | some parts =>
      obtain ⟨rfl, hdash⟩ := cut?_eq_some_iff.1 hcut
      rw [idxOf_dash hdash, List.length_append, List.length_cons] at hlast
      refine ⟨⟨String.ofList parts.1, some (String.ofList parts.2)⟩, ⟨?_, ?_, ?_⟩, by simp [display]⟩
      · have hfront : parts.1 ≠ [] := by
          intro hnil
          simp [hnil] at hhead
        simpa [← String.toList_eq_nil_iff] using hfront
      · simpa using hdash
      · have hbehind : parts.2 ≠ [] := by
          intro hnil
          simp [hnil] at hlast
        simpa [← String.toList_eq_nil_iff] using hbehind
  · rintro ⟨c, hnamed, rfl⟩
    exact hnamed.isSpelling_display

theorem exists_parse_iff {text : String} : (∃ c, parse text = .ok c) ↔ IsSpelling text.toList := by
  rw [isSpelling_iff]
  exact exists_congr fun c => parse_eq_ok_iff.trans (and_congr_right fun _ => String.toList_inj.symm)

/-- The first dash of a text stands at its end, with a call in front of it. -/
def EndsAtDash (text : List Char) : Prop :=
  text.head? ≠ some '-' ∧ text.idxOf '-' + 1 = text.length

instance (text : List Char) : Decidable (EndsAtDash text) := inferInstanceAs (Decidable (_ ∧ _))

theorem parse_of_head {text : String} (hhead : text = "" ∨ text.toList.head? = some '-') :
    parse text = .error (.emptyCallsign text) := by
  rcases hhead with rfl | hhead
  · rfl
  · obtain ⟨rest, htext⟩ := List.head?_eq_some_iff.1 hhead
    have hcut : cut? '-' text.toList = some ([], rest) :=
      cut?_eq_some_iff.2 ⟨htext, List.not_mem_nil⟩
    unfold parse
    rw [hcut]

/-- A dash that ends the text behind a call leaves no SSID. -/
theorem parse_of_endsAtDash {text : String} (htext : EndsAtDash text.toList) :
    parse text = .error (.emptySsid text) := by
  obtain ⟨hhead, hlast⟩ := htext
  unfold parse
  cases hcut : cut? '-' text.toList with
  | none =>
    rw [List.idxOf_eq_length (cut?_eq_none_iff.1 hcut)] at hlast
    omega
  | some parts =>
    obtain ⟨call, ssid⟩ := parts
    obtain ⟨hparts, hdash⟩ := cut?_eq_some_iff.1 hcut
    rw [hparts, idxOf_dash hdash, List.length_append, List.length_cons] at hlast
    obtain rfl : ssid = [] := List.length_eq_zero_iff.1 (by omega)
    cases call with
    | nil => exact absurd (congrArg List.head? hparts) hhead
    | cons => rfl

/-- A text is refused if it spells no callsign. It lacks an SSID if its first dash ends it behind
a call, and otherwise it lacks the call. -/
theorem parse_eq_error_iff {text : String} {error : PacketError} :
    parse text = .error error ↔ ¬ IsSpelling text.toList ∧
      error = if EndsAtDash text.toList then .emptySsid text else .emptyCallsign text := by
  have hrefused (hspelling : ¬ IsSpelling text.toList) : parse text =
      .error (if EndsAtDash text.toList then .emptySsid text else .emptyCallsign text) := by
    split
    case isTrue hdash => exact parse_of_endsAtDash hdash
    case isFalse hdash =>
      refine parse_of_head ?_
      rcases not_isSpelling_iff.1 hspelling with hnil | hhead | hlast
      · exact .inl (String.toList_eq_nil_iff.1 hnil)
      · exact .inr hhead
      · exact .inr (Decidable.not_not.1 fun hhead => hdash ⟨hhead, hlast⟩)
  constructor
  · intro hparse
    have hspelling : ¬ IsSpelling text.toList := by
      intro hspelling
      obtain ⟨c, hok⟩ := exists_parse_iff.2 hspelling
      rw [hok] at hparse
      cases hparse
    exact ⟨hspelling, Except.error.inj (hparse.symm.trans (hrefused hspelling))⟩
  · rintro ⟨hspelling, rfl⟩
    exact hrefused hspelling

/-- The language of callsigns, what each text of it names, and what is wrong with any other. Only the
first dash counts, so each callsign that its text tells is read back, dashes in its SSID and all. -/
theorem parse_exact :
    (∀ text, (∃ c, parse text = .ok c) ↔ IsSpelling text.toList) ∧
    (∀ text c, parse text = .ok c ↔ c.IsNamed ∧ c.display = text) ∧
    (∀ c : Callsign, c.IsNamed → parse c.display = .ok c) ∧
    ∀ text error, parse text = .error error ↔ ¬ IsSpelling text.toList ∧
      error = if EndsAtDash text.toList then .emptySsid text else .emptyCallsign text :=
  ⟨fun _ => exists_parse_iff, fun _ _ => parse_eq_ok_iff, fun _ => IsNamed.parse_display,
    fun _ _ => parse_eq_error_iff⟩

/-- A dash in an SSID is a part of it. -/
theorem parse_exact_dashes :
    let c : Callsign := ⟨"N0CALL", some "7-"⟩
    c.IsNamed ∧ parse "N0CALL-7-" = .ok c := by
  intro c
  have hnamed : c.IsNamed := ⟨by decide, by decide, by decide⟩
  exact ⟨hnamed, parse_exact.2.2.1 c hnamed⟩

end Callsign

namespace Line

/-- A station is read from the text of a callsign, and known in upper case. -/
theorem readStation_eq_ok_iff {b : Bytes} {c : Callsign} : readStation b = .ok c ↔
    ∃ sent : Callsign, sent.IsNamed ∧ Utf8.encode sent.display.toList = b ∧ sent.toUpper = c := by
  have hread : readStation b = .ok c ↔ ∃ text, Utf8.decode? b = some text ∧
      ∃ sent, Callsign.parse (String.ofList text) = .ok sent ∧ sent.toUpper = c := by
    unfold readStation
    cases Utf8.decode? b <;> simp [map_eq_ok_iff]
  rw [hread]
  constructor
  · rintro ⟨text, hdecode, sent, hparse, hupper⟩
    obtain ⟨hnamed, hdisplay⟩ := Callsign.parse_eq_ok_iff.1 hparse
    refine ⟨sent, hnamed, ?_, hupper⟩
    rw [hdisplay, String.toList_ofList]
    exact Utf8.decode?_eq_some_iff.1 hdecode
  · rintro ⟨sent, hnamed, hencode, hupper⟩
    refine ⟨sent.display.toList, Utf8.decode?_eq_some_iff.2 hencode, sent, ?_, hupper⟩
    rw [String.ofList_toList]
    exact hnamed.parse_display

theorem readStation_display {c : Callsign} (hnamed : c.IsNamed) :
    readStation (Utf8.encode c.display.toList) = .ok c.toUpper :=
  readStation_eq_ok_iff.2 ⟨c, hnamed, rfl, rfl⟩

theorem exists_readStation_iff {b : Bytes} : (∃ c, readStation b = .ok c) ↔
    ∃ text, Utf8.encode text = b ∧ Callsign.IsSpelling text := by
  constructor
  · rintro ⟨c, hread⟩
    obtain ⟨sent, hnamed, hencode, _⟩ := readStation_eq_ok_iff.1 hread
    exact ⟨sent.display.toList, hencode, hnamed.isSpelling_display⟩
  · rintro ⟨text, rfl, hspelling⟩
    obtain ⟨c, hnamed, rfl⟩ := Callsign.isSpelling_iff.1 hspelling
    exact ⟨c.toUpper, readStation_display hnamed⟩

end Line

end Aprs
