import Aprs.Extension

namespace Aprs.Extension

theorem readCodes?_eq_some_iff {a b c d : Char} {lead feet gain : Nat}
    {directivity : Directivity} :
    readCodes? a b c d = some (lead, feet, gain, directivity) ↔
      Decimal.ofText? [a] = some lead ∧ height? b = some feet ∧ Decimal.ofText? [c] = some gain ∧
        ∃ n, Decimal.ofText? [d] = some n ∧ Directivity.ofCode? n = some directivity := by
  simp only [readCodes?, bind, Option.bind_eq_some_iff, Option.some.injEq, Prod.mk.injEq]
  constructor
  · rintro ⟨_, hlead, _, hheight, _, hgain, n, hn, _, hdirectivity, rfl, rfl, rfl, rfl⟩
    exact ⟨hlead, hheight, hgain, n, hn, hdirectivity⟩
  · rintro ⟨hlead, hheight, hgain, n, hn, hdirectivity⟩
    exact ⟨_, hlead, _, hheight, _, hgain, n, hn, _, hdirectivity, rfl, rfl, rfl, rfl⟩

/-- The characters that each kind of extension is read from. -/
inductive Reads : List Char → Extension → Prop
  | radioRange {a b c d : Char} {miles : Nat} (hmiles : Decimal.ofText? [a, b, c, d] = some miles) :
    Reads ['R', 'N', 'G', a, b, c, d] (.radioRange miles)
  | power {a b c d : Char} {lead feet gain : Nat} {directivity : Directivity}
    (hcodes : readCodes? a b c d = some (lead, feet, gain, directivity)) :
    Reads ['P', 'H', 'G', a, b, c, d] (.power (lead * lead) feet gain directivity)
  | signal {a b c d : Char} {lead feet gain : Nat} {directivity : Directivity}
    (hcodes : readCodes? a b c d = some (lead, feet, gain, directivity)) :
    Reads ['D', 'F', 'S', a, b, c, d] (.signal lead feet gain directivity)
  | area {a b c d : Char} {kind color : Nat} (hkind : Decimal.ofText? [a, b] = some kind)
    (hcolor : Decimal.ofText? [c, d] = some color) :
    Reads ['T', a, b, '/', 'C', c, d] (.area kind color)
  | directionSpeed {a b c d e f : Char} {degrees knots : Nat}
    (hdegrees : Decimal.ofText? [a, b, c] = some degrees)
    (hknots : Decimal.ofText? [d, e, f] = some knots) :
    Reads [a, b, c, '/', d, e, f] (.directionSpeed degrees knots)

/-- An extension is read only off the characters of its kind. -/
theorem reads_of_ofText? {text : List Char} {e : Extension} (htext : ofText? text = some e) :
    Reads text e := by
  unfold ofText? at htext
  split at htext
  case h_1 =>
    obtain ⟨miles, hmiles, rfl⟩ := Option.map_eq_some_iff.1 htext
    exact .radioRange hmiles
  case h_2 =>
    obtain ⟨_, hcodes, rfl⟩ := Option.map_eq_some_iff.1 htext
    exact .power hcodes
  case h_3 =>
    obtain ⟨_, hcodes, rfl⟩ := Option.map_eq_some_iff.1 htext
    exact .signal hcodes
  case h_4 =>
    simp only [bind, Option.bind_eq_some_iff, Option.some.injEq] at htext
    obtain ⟨kind, hkind, color, hcolor, rfl⟩ := htext
    exact .area hkind hcolor
  case h_5 =>
    simp only [bind, Option.bind_eq_some_iff, Option.some.injEq] at htext
    obtain ⟨degrees, hdegrees, knots, hknots, rfl⟩ := htext
    exact .directionSpeed hdegrees hknots
  case h_6 => cases htext

/-- A course begins with a digit, so no other kind of extension is read in its place. -/
theorem ofText?_directionSpeed {a b c d e f : Char} {degrees knots : Nat}
    (hdegrees : Decimal.ofText? [a, b, c] = some degrees)
    (hknots : Decimal.ofText? [d, e, f] = some knots) :
    ofText? [a, b, c, '/', d, e, f] = some (directionSpeed degrees knots) := by
  unfold ofText?
  split
  case h_5 heq =>
    obtain ⟨rfl, rfl, rfl, rfl, rfl, rfl⟩ : _ ∧ _ ∧ _ ∧ _ ∧ _ ∧ _ := by simpa using heq
    rw [hdegrees, hknots]
    rfl
  case h_6 hother => exact absurd rfl (hother a b c d e f)
  all_goals
    rename_i heq
    obtain rfl := (List.cons.inj heq).1
    cases hdegrees

theorem ofText?_eq_some_iff {text : List Char} {e : Extension} :
    ofText? text = some e ↔ Reads text e := by
  constructor
  · exact reads_of_ofText?
  · intro hreads
    cases hreads with
    | radioRange hmiles => simp [ofText?, hmiles]
    | power hcodes => simp [ofText?, hcodes]
    | signal hcodes => simp [ofText?, hcodes]
    | area hkind hcolor => simp [ofText?, hkind, hcolor]
    | directionSpeed hdegrees hknots => exact ofText?_directionSpeed hdegrees hknots

end Aprs.Extension
