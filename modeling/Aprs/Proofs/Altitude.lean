import Aprs.Altitude
import Aprs.Proofs.Decimal
import Aprs.Proofs.Extension
import Aprs.Proofs.Weather
import Aprs.Proofs.Width

namespace Aprs

namespace Altitude

/-- A token begins with a slash. -/
theorem tokens_cons {c : Char} (hc : c ≠ '/') (rest : List Char) : tokens (c :: rest) = tokens rest := by
  rw [tokens]
  rintro _ _ _ _ _ _ _ rfl
  exact absurd rfl hc

/-- A slash begins no token if the letter of one is not behind it. -/
theorem tokens_slash {c : Char} (hc : c ≠ 'A') (rest : List Char) :
    tokens ('/' :: c :: rest) = tokens (c :: rest) := by
  rw [tokens]
  rintro _ _ _ _ _ _ _ _ hrest
  exact absurd (List.cons.inj hrest).1 hc

theorem tokens_append {front : List Char} (hfront : '/' ∉ front) (rest : List Char) :
    tokens (front ++ rest) = tokens rest := by
  induction front with
  | nil => rfl
  | cons c front ih =>
    obtain ⟨hc, hfront⟩ := not_or.1 (mt List.mem_cons.2 hfront)
    rw [List.cons_append, tokens_cons (Ne.symm hc), ih hfront]

end Altitude

theorem Decimal.slash_notMem_of_ofText? {text : List Char} {n : Nat}
    (htext : ofText? text = some n) : '/' ∉ text :=
  fun hmem => absurd (isDigit_of_ofText? htext '/' hmem) (by decide)

namespace Extension

/-- The codes of heights are `0` and the characters behind it, and the slash is in front of it. -/
theorem slash_ne_of_height? {c : Char} {feet : Nat} (hheight : height? c = some feet) : '/' ≠ c := by
  rintro rfl
  cases hheight

theorem slash_notMem_of_readCodes? {a b c d : Char} {codes : Nat × Nat × Nat × Directivity}
    (hcodes : readCodes? a b c d = some codes) : '/' ∉ [a, b, c, d] := by
  obtain ⟨hlead, hheight, hgain, _, hcode, _⟩ := readCodes?_eq_some_iff.1 hcodes
  have ha := Decimal.slash_notMem_of_ofText? hlead
  have hb := slash_ne_of_height? hheight
  have hc := Decimal.slash_notMem_of_ofText? hgain
  have hd := Decimal.slash_notMem_of_ofText? hcode
  simp only [List.mem_cons, List.not_mem_nil, or_false, not_or] at ha hc hd ⊢
  exact ⟨ha, hb, hc, hd⟩

/-- At most one slash is in an extension, and behind it stands a digit or a `C`. -/
theorem slash_of_ofText? {text : List Char} {e : Extension} (htext : ofText? text = some e) :
    '/' ∉ text ∨ ∃ front c rest, text = front ++ '/' :: c :: rest ∧ '/' ∉ front ∧ c ≠ 'A' ∧
      '/' ∉ c :: rest := by
  cases reads_of_ofText? htext with
  | radioRange hmiles =>
    have hdigits := Decimal.slash_notMem_of_ofText? hmiles
    left
    simpa using hdigits
  | power hcodes | signal hcodes =>
    have hcodes := slash_notMem_of_readCodes? hcodes
    left
    simpa using hcodes
  | @area a b c d _ _ hkind hcolor =>
    have hkind := Decimal.slash_notMem_of_ofText? hkind
    have hcolor := Decimal.slash_notMem_of_ofText? hcolor
    refine .inr ⟨['T', a, b], 'C', [c, d], rfl, ?_, by decide, ?_⟩
    · simpa using hkind
    · simpa using hcolor
  | @directionSpeed a b c d e f _ _ hdegrees hknots =>
    refine .inr ⟨[a, b, c], d, [e, f], rfl, Decimal.slash_notMem_of_ofText? hdegrees, ?_,
      Decimal.slash_notMem_of_ofText? hknots⟩
    rintro rfl
    exact absurd (Decimal.isDigit_of_ofText? hknots 'A' (by simp)) (by decide)

/-- No token begins in an extension, not even one that would end behind it. -/
theorem tokens_append {text : List Char} {e : Extension} (htext : ofText? text = some e)
    (rest : List Char) : Altitude.tokens (text ++ rest) = Altitude.tokens rest := by
  rcases slash_of_ofText? htext with hnone | ⟨front, c, behind, rfl, hfront, hc, hbehind⟩
  · exact Altitude.tokens_append hnone rest
  · rw [List.append_assoc, Altitude.tokens_append hfront, List.cons_append, List.cons_append,
      Altitude.tokens_slash hc, ← List.cons_append, Altitude.tokens_append hbehind]

/-- What is searched behind an extension has the same altitude as what is searched from its
first octet on. -/
theorem scan_of_decode {b rest : Bytes} {e : Extension} (hdecode : decode b = .ok (e, rest)) :
    Altitude.scan b = Altitude.scan rest := by
  obtain ⟨_, htext, rfl⟩ := Decoder.field_eq_ok_iff.1 hdecode
  have hparts : Latin1.decode b = Latin1.decode (b.take 7) ++ Latin1.decode (b.drop 7) := by
    rw [Latin1.decode, Latin1.decode, Latin1.decode, ← List.map_append, List.take_append_drop]
  unfold Altitude.scan
  rw [hparts, tokens_append htext]

end Extension

end Aprs
