import Aprs.Altitude
import Aprs.Proofs.Decoder
import Aprs.Weather.Basic

namespace Aprs

namespace Weather

theorem Token.ofText?_tag {tag : Tag} {text : List Char} {token : Token}
    (htext : ofText? tag text = some token) : token.tag = tag := by
  unfold ofText? at htext
  split at htext
  · cases htext
  · cases htext
    rfl
  · obtain ⟨q, _, rfl⟩ := Option.map_eq_some_iff.1 htext
    rfl

/-- A token is a letter and the field of its width. -/
theorem Token.next?_ok {b rest : Bytes} {token : Token} (hnext : next? b = some (token, rest)) :
    1 + token.tag.width ≤ b.length ∧ rest = b.drop (1 + token.tag.width) := by
  cases b with
  | nil => cases hnext
  | cons first b =>
    simp only [next?, bind, Option.bind_eq_some_iff] at hnext
    obtain ⟨tag, _, ⟨field, after⟩, hsplit, actual, htext, heq⟩ := hnext
    obtain ⟨rfl, hlength⟩ := splitAt?_eq_some_iff.1 hsplit
    obtain ⟨rfl, rfl⟩ := Prod.mk.inj (Option.some.inj heq)
    rw [ofText?_tag htext, Nat.add_comm, List.drop_succ_cons, List.drop_left' hlength]
    rw [List.length_cons, List.length_append]
    exact ⟨by omega, rfl⟩

theorem Token.readAll_suffix (used : List Tag) (b : Bytes) : (readAll used b).2 <:+ b := by
  fun_induction readAll used b with
  | case1 => exact List.suffix_refl _
  | case2 => exact List.suffix_refl _
  | case3 used b token rest hnext _ _ ih =>
    obtain ⟨_, rfl⟩ := next?_ok hnext
    exact ih.trans (List.drop_suffix _ _)

/-- A percentage has the narrowest field. -/
theorem Tag.two_le_width (tag : Tag) : 2 ≤ tag.width := by
  cases tag <;> decide

/-- A token is at least a letter and two digits, so tokens that read something read three octets. -/
theorem Token.length_readAll (used : List Tag) (b : Bytes) :
    (readAll used b).2 = b ∨ (readAll used b).2.length + 3 ≤ b.length := by
  fun_cases readAll used b with
  | case1 => exact .inl rfl
  | case2 => exact .inl rfl
  | case3 token rest hnext _ more =>
    right
    obtain ⟨hlength, rfl⟩ := next?_ok hnext
    have hwidth := token.tag.two_le_width
    have hmore : more.2.length ≤ (b.drop (1 + token.tag.width)).length :=
      (readAll_suffix _ _).length_le
    rw [List.length_drop] at hmore
    dsimp only
    omega

/-- The wind takes seven octets. -/
theorem Token.readWind?_ok {b rest : Bytes} {wind : List Token}
    (hwind : readWind? b = some (wind, rest)) : 7 ≤ b.length ∧ rest = b.drop 7 := by
  simp only [readWind?, bind, Option.bind_eq_some_iff] at hwind
  obtain ⟨⟨block, after⟩, hsplit, hwind⟩ := hwind
  obtain ⟨rfl, hlength⟩ := splitAt?_eq_some_iff.1 hsplit
  split at hwind
  case h_2 => cases hwind
  case h_1 =>
    simp only [Option.bind_eq_some_iff, Option.some.injEq, Prod.mk.injEq] at hwind
    obtain ⟨_, _, _, _, _, rfl⟩ := hwind
    rw [List.drop_left' hlength]
    rw [List.length_append]
    exact ⟨by omega, rfl⟩

theorem readTokens_suffix (b : Bytes) : (readTokens b).2 <:+ b := by
  unfold readTokens
  cases hwind : Token.readWind? b with
  | none => exact Token.readAll_suffix _ _
  | some result =>
    obtain ⟨wind, rest⟩ := result
    obtain ⟨_, rfl⟩ := Token.readWind?_ok hwind
    exact (Token.readAll_suffix _ _).trans (List.drop_suffix _ _)

/-- Tokens that are read take at least three octets, or there are none of them. -/
theorem length_readTokens (b : Bytes) :
    (readTokens b).2 = b ∨ (readTokens b).2.length + 3 ≤ b.length := by
  unfold readTokens
  cases hwind : Token.readWind? b with
  | none => exact Token.length_readAll _ _
  | some parts =>
    right
    obtain ⟨wind, rest⟩ := parts
    obtain ⟨hlength, rfl⟩ := Token.readWind?_ok hwind
    have hmore := (Token.readAll_suffix (wind.map (·.tag)) (b.drop 7)).length_le
    rw [List.length_drop] at hmore
    dsimp only [Option.getD_some]
    omega

theorem decode_leavesSuffix : Weather.decode.LeavesSuffix := by
  intro b w rest hdecode
  obtain ⟨rfl, rfl⟩ := Prod.mk.inj (Except.ok.inj hdecode)
  exact readTokens_suffix b

theorem decodeAt_bounds {s : Bytes} {cursor stop : Nat} {w : Weather}
    (hrun : decodeAt s cursor = .ok (w, stop)) : cursor ≤ stop ∧ stop ≤ s.length := by
  obtain ⟨hcursor, hrun⟩ := Decoder.runWithin_eq_ok_iff.1 hrun
  obtain ⟨hstart, hstop, _⟩ := decode_leavesSuffix.runAt_ok hcursor hrun
  exact ⟨hstart, hstop⟩

/-- A report that moves the cursor moves it by three octets or more. -/
theorem three_le_of_decodeAt {s : Bytes} {cursor stop : Nat} {w : Weather}
    (hrun : decodeAt s cursor = .ok (w, stop)) (hread : cursor < stop) : cursor + 3 ≤ stop := by
  obtain ⟨hcursor, hrun⟩ := Decoder.runWithin_eq_ok_iff.1 hrun
  obtain ⟨rest, hdecode, rfl⟩ := Decoder.runAt_eq_ok_iff.1 hrun
  have hrest : (readTokens (s.drop cursor)).2 = rest := (Prod.mk.inj (Except.ok.inj hdecode)).2
  have hlength := length_readTokens (s.drop cursor)
  rw [hrest, List.length_drop] at hlength
  rcases hlength with hnone | hsome
  · rw [hnone, List.length_drop] at hread
    omega
  · omega

/-- Weather can be looked for anywhere in a body and at its end. -/
theorem decodeAt_ok {s : Bytes} {cursor : Nat} (hcursor : cursor ≤ s.length) :
    ∃ w stop, decodeAt s cursor = .ok (w, stop) := by
  unfold decodeAt Decoder.runWithin
  rw [if_pos hcursor]
  exact ⟨_, _, rfl⟩

end Weather

/-- Searching for an altitude reads nothing off, so the cursor stays. -/
theorem Altitude.decodeAt_eq {s : Bytes} {cursor : Nat} (hcursor : cursor ≤ s.length) :
    decodeAt s cursor = .ok (scan (s.drop cursor), cursor) := by
  unfold decodeAt Decoder.runWithin
  rw [if_pos hcursor]
  have hstop : s.length - (s.drop cursor).length = cursor := by
    rw [List.length_drop]
    omega
  exact congrArg (fun stop => Except.ok (scan (s.drop cursor), stop)) hstop

end Aprs
