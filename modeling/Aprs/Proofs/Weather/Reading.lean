import Aprs.Proofs.Weather.Report

namespace Aprs.Weather

namespace Token

section Step

variable {used : List Tag} {b rest : Bytes} {token : Token}

theorem readAll_of_eq_none (hnext : next? b = none) : readAll used b = ([], b) := by
  rw [readAll]
  split
  case h_1 => rfl
  case h_2 hsome =>
    rw [hsome] at hnext
    cases hnext

/-- Reading takes the next token, unless its letter was used before. -/
theorem readAll_of_next? (hnext : next? b = some (token, rest)) :
    readAll used b =
      if token.tag ∈ used then ([], b)
      else (token :: (readAll (token.tag :: used) rest).1, (readAll (token.tag :: used) rest).2) := by
  rw [readAll]
  split
  case h_1 hnone =>
    rw [hnone] at hnext
    cases hnext
  case h_2 hsome =>
    rw [hsome] at hnext
    obtain ⟨rfl, rfl⟩ := Prod.mk.inj (Option.some.inj hnext)
    rfl

/-- Which letters were used counts, and not in which order. -/
theorem readAll_congr {other : List Tag} (hsame : ∀ tag, tag ∈ used ↔ tag ∈ other) :
    readAll used b = readAll other b := by
  induction used, b using readAll.induct generalizing other with
  | case1 used b hnext => rw [readAll_of_eq_none hnext, readAll_of_eq_none hnext]
  | case2 used b token rest hnext hused =>
    rw [readAll_of_next? hnext, readAll_of_next? hnext, if_pos hused, if_pos ((hsame _).1 hused)]
  | case3 used b token rest hnext hunused ih =>
    have hnew : token.tag ∉ other := fun hmem => hunused ((hsame _).2 hmem)
    have hmore : ∀ tag, tag ∈ token.tag :: used ↔ tag ∈ token.tag :: other := by
      intro tag
      rw [List.mem_cons, List.mem_cons, hsame]
    rw [readAll_of_next? hnext, readAll_of_next? hnext, if_neg hunused, if_neg hnew, ih hmore]

/-- Octets that begin with no token of an unused letter are left where they are. -/
theorem readAll_of_not_isPrefix (hstop : ∀ t : SentToken, t.tag ∉ used → ¬ t.bytes <+: b) :
    readAll used b = ([], b) := by
  cases hnext : next? b with
  | none => exact readAll_of_eq_none hnext
  | some parts =>
    obtain ⟨token, rest⟩ := parts
    obtain ⟨t, hb, rfl⟩ := next?_eq_some_iff.1 hnext
    rw [readAll_of_next? hnext, if_pos]
    by_contra hunused
    exact hstop t hunused ⟨rest, hb.symm⟩

theorem readAll_bytes_append (t : SentToken) (hunused : t.tag ∉ used) (rest : Bytes) :
    readAll used (t.bytes ++ rest) =
      (t.token :: (readAll (t.tag :: used) rest).1, (readAll (t.tag :: used) rest).2) := by
  have hnext : next? (t.bytes ++ rest) = some (t.token, rest) :=
    next?_eq_some_iff.2 ⟨t, rfl, rfl⟩
  rw [readAll_of_next? hnext, t.tag_token, if_neg hunused]

end Step

/-- Tokens with different letters are read one after the other, and then what follows them is
read with their letters used up. -/
theorem readAll_append (used : List Tag) (tokens : List SentToken) (rest : Bytes)
    (hdistinct : (tokens.map (·.tag)).Nodup) (hunused : ∀ t ∈ tokens, t.tag ∉ used) :
    readAll used (tokens.flatMap (·.bytes) ++ rest) =
      (tokens.map (·.token) ++ (readAll (used ++ tokens.map (·.tag)) rest).1,
        (readAll (used ++ tokens.map (·.tag)) rest).2) := by
  induction tokens generalizing used with
  | nil => simp
  | cons t tokens ih =>
    obtain ⟨hfirst, hothers⟩ := List.nodup_cons.1 hdistinct
    have hrest := ih (t.tag :: used) hothers fun other hother => by
      rw [List.mem_cons, not_or]
      refine ⟨fun hsame => hfirst ?_, hunused other (List.mem_cons_of_mem t hother)⟩
      exact List.mem_map.2 ⟨other, hother, hsame⟩
    -- The loop puts a letter in front of those used before, and here it stands behind them.
    have hused : ∀ tag, tag ∈ t.tag :: used ++ tokens.map (·.tag) ↔
        tag ∈ used ++ (t :: tokens).map (·.tag) := by
      intro tag
      simp only [List.cons_append, List.map_cons, List.mem_cons, List.mem_append]
      exact or_left_comm
    rw [List.flatMap_cons, List.append_assoc,
      readAll_bytes_append t (hunused t List.mem_cons_self), hrest, readAll_congr hused]
    rfl

/-- What is read are tokens with different letters, and what is left begins with no further one. -/
theorem exists_readAll (used : List Tag) (b : Bytes) :
    ∃ tokens : List SentToken, (tokens.map (·.tag)).Nodup ∧ (∀ t ∈ tokens, t.tag ∉ used) ∧
      b = tokens.flatMap (·.bytes) ++ (readAll used b).2 ∧
      ∀ t : SentToken, t.tag ∉ used ++ tokens.map (·.tag) → ¬ t.bytes <+: (readAll used b).2 := by
  fun_induction readAll used b with
  | case1 used b hnext =>
    refine ⟨[], List.nodup_nil, by simp, rfl, fun t _ hfront => ?_⟩
    obtain ⟨rest, hb⟩ := hfront
    rw [next?_eq_some_iff.2 ⟨t, hb.symm, rfl⟩] at hnext
    cases hnext
  | case2 used b token rest hnext hused =>
    refine ⟨[], List.nodup_nil, by simp, rfl, fun t hunused hfront => ?_⟩
    obtain ⟨after, hb⟩ := hfront
    rw [next?_eq_some_iff.2 ⟨t, hb.symm, rfl⟩] at hnext
    obtain ⟨rfl, rfl⟩ := Prod.mk.inj (Option.some.inj hnext)
    exact hunused (List.mem_append_left _ hused)
  | case3 used b token rest hnext hunused more ih =>
    -- The tokens behind the first one were read with its letter used up, so theirs differ from it.
    obtain ⟨tokens, hdistinct, hothers, hrest, hstop⟩ := ih
    obtain ⟨t, hb, rfl⟩ := next?_eq_some_iff.1 hnext
    have hfirst : t.tag ∉ tokens.map (·.tag) := by
      intro hmem
      obtain ⟨other, hother, hsame⟩ := List.mem_map.1 hmem
      exact hothers other hother (hsame ▸ List.mem_cons_self)
    refine ⟨t :: tokens, List.nodup_cons.2 ⟨hfirst, hdistinct⟩, ?_, ?_, ?_⟩
    · intro other hother
      cases List.mem_cons.1 hother with
      | inl hsame => exact hsame ▸ hunused
      | inr hmem => exact fun hused => hothers other hmem (List.mem_cons_of_mem _ hused)
    · rw [hb, List.flatMap_cons, List.append_assoc, ← hrest]
    · intro other hother
      refine hstop other fun hmem => hother ?_
      simp only [List.cons_append, List.map_cons, List.mem_cons, List.mem_append] at hmem ⊢
      exact or_left_comm.1 hmem

end Token

/-- No wind without letters stands in front of a letter. -/
theorem SentWind.not_isPrefix (w : SentWind) (tag : Tag) (rest : Bytes) :
    ¬ w.bytes <+: tag.octet :: rest := by
  intro hfront
  obtain ⟨_, hfield, _⟩ := w.direction.accepts.isField
  have hlength := w.direction.length_bytes
  rw [bytes] at hfront
  cases hdirection : w.direction.bytes with
  | nil =>
    rw [hdirection] at hlength
    cases hlength
  | cons x direction =>
    rw [hdirection, List.cons_append, List.cons_prefix_cons] at hfront
    rw [hdirection] at hfield
    exact hfield.ne_octet tag hfront.1

theorem SentWind.not_isPrefix_nil (w : SentWind) : ¬ w.bytes <+: [] := by
  intro hfront
  have hempty := List.append_eq_nil_iff.1 (List.prefix_nil.1 hfront)
  cases hempty.2

/-- The letters that the wind stands for where it is sent without them. -/
def SentWind.tags (_ : SentWind) : List Tag := [.windDirection, .windSpeed]

theorem SentWind.nodup_tags (w : SentWind) : (w.tags ++ []).Nodup := by
  rw [tags]
  decide

/-- A report as it is sent. The wind may come first without letters, and no letter is used twice,
nor behind such a wind one that the wind stands for. -/
structure SentReport where
  wind : Option SentWind
  tokens : List SentToken
  distinct : (wind.elim [] SentWind.tags ++ tokens.map SentToken.tag).Nodup

namespace SentReport

/-- All that a report says, as tokens. -/
def stated (r : SentReport) : List Token := r.wind.elim [] SentWind.tokens ++ r.tokens.map (·.token)

/-- The letters that a report uses up, whether they are sent or the wind stands for them. -/
def tags (r : SentReport) : List Tag := r.wind.elim [] SentWind.tags ++ r.tokens.map (·.tag)

/-- The octets of a report. -/
def bytes (r : SentReport) : Bytes := r.wind.elim [] SentWind.bytes ++ r.tokens.flatMap (·.bytes)

theorem map_tag_stated (r : SentReport) : r.stated.map (·.tag) = r.tags := by
  rw [stated, tags, List.map_append, List.map_map]
  cases r.wind with
  | none => rfl
  | some w => rfl

/-- No wind was passed over in front, and what follows a report begins with no token that could
belong to it. -/
structure IsGreedy (r : SentReport) (rest : Bytes) : Prop where
  wind : r.wind = none → ∀ w : SentWind, ¬ w.bytes <+: r.bytes ++ rest
  tokens : ∀ t : SentToken, t.tag ∉ r.tags → ¬ t.bytes <+: rest

/-- Tokens begin with a letter, so it is enough that no wind stands behind them. -/
theorem not_isPrefix {r : SentReport} (hnone : r.wind = none) {rest : Bytes}
    (hrest : ∀ w : SentWind, ¬ w.bytes <+: rest) (w : SentWind) : ¬ w.bytes <+: r.bytes ++ rest := by
  rw [bytes, hnone, Option.elim_none, List.nil_append]
  cases r.tokens with
  | nil => exact hrest w
  | cons t tokens => exact w.not_isPrefix t.tag _

/-- A report has the numbers that its tokens carry and no others. A luminosity is the later one
of the numbers that its two letters carry. -/
structure States (r : SentReport) (w : Weather) : Prop where
  of_mem : ∀ token ∈ r.stated, ¬ token.tag.IsLuminosity → w.get token.tag = token.value
  of_notMem : ∀ tag ∉ r.tags, ¬ tag.IsLuminosity → w.get tag = none
  luminosity : w.get .luminosity = Token.lastValue r.stated .luminosity

/-- A report has room for every quantity that it says. -/
theorem kept_of_mem {r : SentReport} {token : Token} (hmem : token ∈ r.stated) :
    ∀ q ∈ token.value, token.tag.Keeps q := by
  cases List.mem_append.1 hmem with
  | inl hwind =>
    cases hsent : r.wind with
    | none =>
      rw [hsent] at hwind
      cases hwind
    | some w =>
      rw [hsent, Option.elim_some, SentWind.tokens] at hwind
      cases hwind with
      | head => exact w.direction.accepts.kept
      | tail _ hwind =>
        obtain rfl := List.mem_singleton.1 hwind
        exact w.speed.accepts.kept
  | inr htoken =>
    obtain ⟨t, _, rfl⟩ := List.mem_map.1 htoken
    exact t.field.accepts.kept

theorem states_ofTokens (r : SentReport) : r.States (ofTokens r.stated) where
  of_mem token hmem hsingle := by
    rw [get_ofTokens fun _ => kept_of_mem]
    exact Token.lastValue_of_mem (r.map_tag_stated ▸ r.distinct) hmem hsingle
  of_notMem tag hunused hsingle := by
    rw [get_ofTokens fun _ => kept_of_mem]
    refine Token.lastValue_eq_none fun token hmem hslot => absurd ?_ hunused
    rw [← (Tag.slot_eq_iff hsingle).1 hslot, ← r.map_tag_stated]
    exact List.mem_map_of_mem hmem
  luminosity := get_ofTokens (fun _ => kept_of_mem) _

/-- Where no wind was passed over, a report is read first, and what follows it is read with its
letters used up. -/
theorem readTokens_append (r : SentReport) (rest : Bytes)
    (hwind : r.wind = none → ∀ w : SentWind, ¬ w.bytes <+: r.bytes ++ rest) :
    readTokens (r.bytes ++ rest) =
      (r.stated ++ (Token.readAll r.tags rest).1, (Token.readAll r.tags rest).2) := by
  obtain ⟨wind, tokens, hdistinct⟩ := r
  obtain ⟨_, htokens, hdisjoint⟩ := List.nodup_append'.1 hdistinct
  have hread := Token.readAll_append _ tokens rest htokens fun t ht hused =>
    hdisjoint hused (List.mem_map_of_mem ht)
  cases wind with
  | none =>
    have hblock : Token.readWind? (tokens.flatMap (·.bytes) ++ rest) = none := by
      rw [Option.eq_none_iff_forall_ne_some]
      intro ⟨_, after⟩ hsome
      obtain ⟨w, hb, _⟩ := Token.readWind?_eq_some_iff.1 hsome
      exact hwind rfl w ⟨after, hb.symm⟩
    simp only [bytes, stated, tags, Option.elim_none, List.nil_append] at hread ⊢
    rw [readTokens, hblock]
    exact hread
  | some w =>
    have hblock := Token.readWind?_eq_some_iff.2
      ⟨w, List.append_assoc w.bytes (tokens.flatMap (·.bytes)) rest, rfl⟩
    simp only [bytes, stated, tags, Option.elim_some] at hread ⊢
    rw [readTokens, hblock]
    simp only [Option.getD_some, List.append_assoc]
    exact congrArg (fun more => (w.tokens ++ more.1, more.2)) hread

/-- A report goes on with the tokens that can be read behind it, until none is left. -/
theorem exists_longer (r : SentReport) (rest : Bytes)
    (hwind : r.wind = none → ∀ w : SentWind, ¬ w.bytes <+: r.bytes ++ rest) :
    ∃ longer : SentReport, ∃ tokens more, longer.wind = r.wind ∧
      longer.tokens = r.tokens ++ tokens ∧ r.bytes ++ rest = longer.bytes ++ more ∧
      longer.IsGreedy more := by
  obtain ⟨tokens, hdistinct, hunused, hrest, hstop⟩ := Token.exists_readAll r.tags rest
  generalize (Token.readAll r.tags rest).2 = more at hrest hstop
  have hall : (r.tags ++ tokens.map SentToken.tag).Nodup := by
    refine List.nodup_append'.2 ⟨r.distinct, hdistinct, fun tag hused hmem => ?_⟩
    obtain ⟨t, ht, rfl⟩ := List.mem_map.1 hmem
    exact hunused t ht hused
  rw [tags, List.append_assoc, ← List.map_append] at hall hstop
  let longer : SentReport := ⟨r.wind, r.tokens ++ tokens, hall⟩
  have hbytes : r.bytes ++ rest = longer.bytes ++ more := by
    rw [bytes, bytes, List.flatMap_append, List.append_assoc, List.append_assoc,
      List.append_assoc, ← hrest]
  exact ⟨longer, tokens, more, rfl, rfl, hbytes, fun hnone => hbytes ▸ hwind hnone, hstop⟩

/-- Every octet string begins with a report that ends only where it has to. -/
theorem exists_isGreedy (b : Bytes) : ∃ r : SentReport, ∃ rest, b = r.bytes ++ rest ∧ r.IsGreedy rest := by
  cases hwind : Token.readWind? b with
  | none =>
    have hfront (w : SentWind) : ¬ w.bytes <+: b := by
      intro ⟨after, hafter⟩
      rw [Token.readWind?_eq_some_iff.2 ⟨w, hafter.symm, rfl⟩] at hwind
      cases hwind
    obtain ⟨r, _, rest, _, _, hb, hgreedy⟩ :=
      exists_longer ⟨none, [], List.nodup_nil⟩ b fun _ => hfront
    exact ⟨r, rest, hb, hgreedy⟩
  | some parts =>
    obtain ⟨_, after⟩ := parts
    obtain ⟨w, rfl, rfl⟩ := Token.readWind?_eq_some_iff.1 hwind
    obtain ⟨r, _, rest, _, _, hb, hgreedy⟩ :=
      exists_longer ⟨some w, [], w.nodup_tags⟩ after fun hnone => by cases hnone
    rw [bytes, Option.elim_some, List.flatMap_nil, List.append_nil] at hb
    exact ⟨r, rest, hb, hgreedy⟩

end SentReport

section DecodeAt

variable {b rest : Bytes} {cursor : Nat} {r : SentReport}

/-- A report that stands at a cursor is decoded with the tokens that follow it. -/
theorem decodeAt_append (hcursor : cursor ≤ b.length) (hb : b.drop cursor = r.bytes ++ rest)
    (hwind : r.wind = none → ∀ w : SentWind, ¬ w.bytes <+: r.bytes ++ rest) :
    decodeAt b cursor =
      .ok (ofTokens (r.stated ++ (Token.readAll r.tags rest).1),
        b.length - (Token.readAll r.tags rest).2.length) := by
  rw [decodeAt, Decoder.runWithin, if_pos hcursor, Decoder.runAt, hb, decode, read,
    r.readTokens_append rest hwind]

/-- Where nothing more can belong to it, a report is decoded as it stands. -/
theorem decodeAt_of_isGreedy (hcursor : cursor ≤ b.length) (hb : b.drop cursor = r.bytes ++ rest)
    (hgreedy : r.IsGreedy rest) :
    decodeAt b cursor = .ok (ofTokens r.stated, cursor + r.bytes.length) := by
  have hlength := congrArg List.length hb
  rw [List.length_drop, List.length_append] at hlength
  have hstop : b.length - rest.length = cursor + r.bytes.length := by omega
  rw [decodeAt_append hcursor hb hgreedy.wind, Token.readAll_of_not_isPrefix hgreedy.tokens,
    List.append_nil, hstop]

end DecodeAt

/-- A report is what is decoded at a cursor: to the last of its octets and with its numbers. -/
def SentReport.IsDecodedAt (r : SentReport) (b : Bytes) (cursor : Nat) : Prop :=
  ∃ w, decodeAt b cursor = .ok (w, cursor + r.bytes.length) ∧ r.States w

theorem SentReport.IsGreedy.isDecodedAt {r : SentReport} {b rest : Bytes} {cursor : Nat}
    (hgreedy : r.IsGreedy rest) (hcursor : cursor ≤ b.length) (hb : b.drop cursor = r.bytes ++ rest) :
    r.IsDecodedAt b cursor :=
  ⟨_, decodeAt_of_isGreedy hcursor hb hgreedy, r.states_ofTokens⟩

/-- From every cursor up to the end there is one way to read a report as far as it goes, and this
is what is decoded, with the numbers that the report carries. Octets that are refused behind it
leave nothing in it. -/
theorem decodeAt_greedy (b : Bytes) (cursor : Nat) (hcursor : cursor ≤ b.length) :
    (∃ r : SentReport, ∃ rest, b.drop cursor = r.bytes ++ rest ∧ r.IsGreedy rest) ∧
      ∀ r : SentReport, ∀ rest, b.drop cursor = r.bytes ++ rest → r.IsGreedy rest →
        r.IsDecodedAt b cursor := by
  refine ⟨SentReport.exists_isGreedy _, ?_⟩
  intro r rest hb hgreedy
  exact hgreedy.isDecodedAt hcursor hb

/-- A luminosity that is not reported does not take back one that was, and a gust below zero ends
the report. -/
theorem decodeAt_greedy_refused :
    let b := Latin1.ascii "_220/004t-05h00l456L...g-05"
    let w : Weather := {
      windDirection := some 220
      windSpeed := some 4
      temperature := some (-5)
      humidity := some 100
      luminosity := some 1456 }
    1 ≤ b.length ∧ ∃ r : SentReport, ∃ rest, b.drop 1 = r.bytes ++ rest ∧ r.IsGreedy rest ∧
      decodeAt b 1 = .ok (w, 1 + r.bytes.length) ∧ r.bytes.length = 22 ∧ r.States w := by
  intro b w
  have hcursor : 1 ≤ b.length := by decide
  have hrun : decodeAt b 1 = .ok (w, 23) := toOption_eq_some_iff.1 (by decide +kernel)
  obtain ⟨⟨r, rest, hb, hgreedy⟩, hall⟩ := decodeAt_greedy b 1 hcursor
  obtain ⟨actual, hdecode, hstates⟩ := hall r rest hb hgreedy
  obtain ⟨hactual, hstop⟩ := Prod.mk.inj (Except.ok.inj (hdecode.symm.trans hrun))
  rw [hactual] at hdecode hstates
  have hlength : r.bytes.length = 22 := by omega
  exact ⟨hcursor, r, rest, hb, hgreedy, hdecode, hlength, hstates⟩

end Aprs.Weather
