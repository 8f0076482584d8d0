import Aprs.Proofs.Weather.Reading

namespace Aprs.Weather

namespace SentToken

variable {tokens : List SentToken}

/-- Where every token has a value, the last token of a luminosity tells it. -/
theorem lastValue_luminosity (hreported : ∀ t ∈ tokens, t.field.value ≠ none) :
    Token.lastValue (tokens.map (·.token)) .luminosity =
      (tokens.filter (·.tag.IsLuminosity)).getLast?.bind (·.field.value) := by
  induction tokens using List.reverseRecOn with
  | nil => rfl
  | append_singleton tokens t ih =>
    have hfront := ih fun other hother => hreported other (List.mem_append_left _ hother)
    obtain ⟨q, hq⟩ := Option.ne_none_iff_exists'.1 (hreported t (by simp))
    have hvalue : t.token.value = some q := hq
    rw [List.map_append, List.map_singleton, Token.lastValue_concat, hfront, List.filter_append]
    split
    case isTrue hslot =>
      have hluminosity : t.tag.IsLuminosity := hslot
      simp [hvalue, hluminosity, hq]
    case isFalse hslot =>
      have hsingle : ¬ t.tag.IsLuminosity := hslot
      simp [hsingle]

/-- Tokens are decoded to the last of their octets. Each quantity with one letter is what its
token says, and a luminosity is what the last token with one of its letters says. -/
structure AreDecoded (tokens : List SentToken) (w : Weather) : Prop where
  decodeAt_eq : decodeAt (tokens.flatMap (·.bytes)) 0 = .ok (w, (tokens.flatMap (·.bytes)).length)
  of_mem : ∀ t ∈ tokens, ¬ t.tag.IsLuminosity → w.get t.tag = t.field.value
  of_notMem : ∀ tag ∉ tokens.map (·.tag), ¬ tag.IsLuminosity → w.get tag = none
  luminosity : w.get .luminosity =
    (tokens.filter (·.tag.IsLuminosity)).getLast?.bind (·.field.value)

/-- Tokens of distinct letters with values are all decoded, in whatever order they are sent. -/
theorem areDecoded (hdistinct : (tokens.map (·.tag)).Nodup)
    (hreported : ∀ t ∈ tokens, t.field.value ≠ none) :
    AreDecoded tokens (ofTokens (tokens.map (·.token))) := by
  let r : SentReport := ⟨none, tokens, hdistinct⟩
  have hstates := r.states_ofTokens
  have hgreedy : r.IsGreedy [] := by
    refine ⟨fun hnone => SentReport.not_isPrefix hnone SentWind.not_isPrefix_nil, ?_⟩
    intro t _ hfront
    cases List.prefix_nil.1 hfront
  have hdecode := decodeAt_of_isGreedy (Nat.zero_le _) (List.append_nil r.bytes).symm hgreedy
  rw [Nat.zero_add] at hdecode
  constructor
  case decodeAt_eq => exact hdecode
  case of_mem =>
    intro t ht hsingle
    exact hstates.of_mem t.token (List.mem_map_of_mem ht) hsingle
  case of_notMem => exact hstates.of_notMem
  case luminosity => exact hstates.luminosity.trans (lastValue_luminosity hreported)

/-- Not both letters of a luminosity are used. -/
def HaveOneLuminosity (tokens : List SentToken) : Prop :=
  ¬ (.luminosity ∈ tokens.map (·.tag) ∧ .highLuminosity ∈ tokens.map (·.tag))

/-- All the luminosities that are sent then have one letter. -/
theorem HaveOneLuminosity.tag_eq (hone : HaveOneLuminosity tokens) {t other : SentToken}
    (ht : t ∈ tokens) (hother : other ∈ tokens) (hluminosity : t.tag.IsLuminosity)
    (hsame : other.tag.IsLuminosity) : other.tag = t.tag := by
  by_contra hne
  have hmem := List.mem_map_of_mem (f := SentToken.tag) ht
  have hmem' := List.mem_map_of_mem (f := SentToken.tag) hother
  apply hone
  obtain htag | htag := Tag.isLuminosity_iff.1 hluminosity <;>
    obtain hotherTag | hotherTag := Tag.isLuminosity_iff.1 hsame
  · exact absurd (hotherTag.trans htag.symm) hne
  · exact ⟨htag ▸ hmem, hotherTag ▸ hmem'⟩
  · exact ⟨hotherTag ▸ hmem', htag ▸ hmem⟩
  · exact absurd (hotherTag.trans htag.symm) hne

/-- Where not both letters of a luminosity are used, every token keeps what it says. -/
theorem AreDecoded.get_tag {w : Weather} (hdecoded : AreDecoded tokens w)
    (hdistinct : (tokens.map (·.tag)).Nodup) (hone : HaveOneLuminosity tokens) {t : SentToken}
    (ht : t ∈ tokens) : w.get t.tag = t.field.value := by
  by_cases hluminosity : t.tag.IsLuminosity
  case neg => exact hdecoded.of_mem t ht hluminosity
  case pos =>
    have hmem : t ∈ tokens.filter (·.tag.IsLuminosity) :=
      List.mem_filter.2 ⟨ht, decide_eq_true hluminosity⟩
    obtain ⟨last, hlast⟩ :=
      Option.isSome_iff_exists.1 (List.getLast?_isSome.2 (List.ne_nil_of_mem hmem))
    obtain ⟨hlastMem, hlastTag⟩ := List.mem_filter.1 (List.mem_of_getLast? hlast)
    have htag := hone.tag_eq ht hlastMem hluminosity (of_decide_eq_true hlastTag)
    have heq : last = t := List.inj_on_of_nodup_map hdistinct hlastMem ht htag
    rw [w.get_of_isLuminosity hluminosity, hdecoded.luminosity, hlast, heq]
    rfl

end SentToken

/-- Tokens with different letters that all have a value are decoded in any order to the last of
their octets, and to the same report as far as a quantity has one letter. A luminosity has two,
and where both are used the later one is kept. Where they are not, no token is overwritten and
the whole reports are the same. -/
theorem decodeAt_perm {tokens other : List SentToken} (hdistinct : (tokens.map (·.tag)).Nodup)
    (hreported : ∀ t ∈ tokens, t.field.value ≠ none) (hperm : tokens.Perm other) :
    ∃ w w' : Weather, SentToken.AreDecoded tokens w ∧ SentToken.AreDecoded other w' ∧
      (∀ tag : Tag, ¬ tag.IsLuminosity → w'.get tag = w.get tag) ∧
      (SentToken.HaveOneLuminosity tokens → w' = w ∧ ∀ t ∈ tokens, w.get t.tag = t.field.value) := by
  have htags := hperm.map SentToken.tag
  have hdistinct' := htags.nodup_iff.1 hdistinct
  have hdecoded := SentToken.areDecoded hdistinct hreported
  have hdecoded' := SentToken.areDecoded hdistinct' fun t ht => hreported t (hperm.mem_iff.2 ht)
  have hsame : ∀ tag : Tag, ¬ tag.IsLuminosity →
      (ofTokens (other.map (·.token))).get tag = (ofTokens (tokens.map (·.token))).get tag := by
    intro tag hsingle
    by_cases hmem : tag ∈ tokens.map SentToken.tag
    · obtain ⟨t, ht, rfl⟩ := List.mem_map.1 hmem
      rw [hdecoded.of_mem t ht hsingle, hdecoded'.of_mem t (hperm.mem_iff.1 ht) hsingle]
    · have hmem' := fun h => hmem (htags.mem_iff.2 h)
      rw [hdecoded.of_notMem tag hmem hsingle, hdecoded'.of_notMem tag hmem' hsingle]
  refine ⟨_, _, hdecoded, hdecoded', hsame, fun hone => ?_⟩
  have hone' : SentToken.HaveOneLuminosity other := by
    rw [SentToken.HaveOneLuminosity, ← htags.mem_iff, ← htags.mem_iff]
    exact hone
  refine ⟨eq_of_get hsame ?_, fun t ht => hdecoded.get_tag hdistinct hone ht⟩
  by_cases hmem : ∃ t ∈ tokens, t.tag.IsLuminosity
  · obtain ⟨t, ht, hluminosity⟩ := hmem
    rw [← get_of_isLuminosity _ hluminosity, ← get_of_isLuminosity _ hluminosity,
      hdecoded.get_tag hdistinct hone ht,
      hdecoded'.get_tag hdistinct' hone' (hperm.mem_iff.1 ht)]
  · have hnone : tokens.filter (·.tag.IsLuminosity) = [] := by
      rw [List.filter_eq_nil_iff]
      intro t ht hluminosity
      exact hmem ⟨t, ht, of_decide_eq_true hluminosity⟩
    have hnone' := (hperm.filter (·.tag.IsLuminosity)).symm
    rw [hnone, List.perm_nil] at hnone'
    rw [hdecoded.luminosity, hdecoded'.luminosity, hnone, hnone']

/-- A percentage of a hundred, a luminosity over a thousand and a temperature below zero are the
same in front as at the end. -/
theorem decodeAt_perm_reverse :
    ∃ tokens : List SentToken, (tokens.map (·.tag)).Nodup ∧
      (∀ t ∈ tokens, t.field.value ≠ none) ∧ tokens.Perm tokens.reverse ∧
      tokens.flatMap (·.bytes) = Latin1.ascii "h00t-05l123" ∧
      tokens.reverse.flatMap (·.bytes) = Latin1.ascii "l123t-05h00" ∧
      ∃ w, SentToken.AreDecoded tokens w ∧ SentToken.AreDecoded tokens.reverse w ∧
        w = { humidity := some 100, temperature := some (-5), luminosity := some 1123 } := by
  let tokens : List SentToken := [
    ⟨.humidity, Latin1.ascii "00", some 100, Tag.accepts_of_ofText? rfl (by decide)⟩,
    ⟨.temperature, Latin1.ascii "-05", some (-5), Tag.accepts_of_ofText? rfl (by decide)⟩,
    ⟨.highLuminosity, Latin1.ascii "123", some 1123, Tag.accepts_of_ofText? rfl (by decide)⟩]
  have hdistinct : (tokens.map (·.tag)).Nodup := by decide
  have hreported : ∀ t ∈ tokens, t.field.value ≠ none := by simp [tokens]
  have hperm : tokens.Perm tokens.reverse := tokens.reverse_perm.symm
  obtain ⟨w, w', hdecoded, hdecoded', _, hsame⟩ := decodeAt_perm hdistinct hreported hperm
  obtain ⟨rfl, _⟩ := hsame (by simp [SentToken.HaveOneLuminosity, tokens])
  have hrun : decodeAt (Latin1.ascii "h00t-05l123") 0 =
      .ok ({ humidity := some 100, temperature := some (-5), luminosity := some 1123 }, 11) :=
    toOption_eq_some_iff.1 (by decide +kernel)
  refine ⟨tokens, hdistinct, hreported, hperm, rfl, rfl, w', hdecoded, hdecoded', ?_⟩
  exact (Prod.mk.inj (Except.ok.inj (hdecoded.decodeAt_eq.symm.trans hrun))).1

/-- Both letters of a luminosity are not the same report in both orders. -/
theorem not_decodeAt_perm :
    ¬ ∀ tokens other : List SentToken, (tokens.map (·.tag)).Nodup →
      (∀ t ∈ tokens, t.field.value ≠ none) → tokens.Perm other →
      ∃ w, decodeAt (tokens.flatMap (·.bytes)) 0 = .ok (w, (tokens.flatMap (·.bytes)).length) ∧
        decodeAt (other.flatMap (·.bytes)) 0 = .ok (w, (other.flatMap (·.bytes)).length) := by
  intro hall
  let low : SentToken :=
    ⟨.luminosity, Latin1.ascii "123", some 123, Tag.accepts_of_ofText? rfl (by decide)⟩
  let high : SentToken :=
    ⟨.highLuminosity, Latin1.ascii "456", some 1456, Tag.accepts_of_ofText? rfl (by decide)⟩
  have hlast : decodeAt (Latin1.ascii "L123l456") 0 = .ok ({ luminosity := some 1456 }, 8) :=
    toOption_eq_some_iff.1 (by decide +kernel)
  have hfirst : decodeAt (Latin1.ascii "l456L123") 0 = .ok ({ luminosity := some 123 }, 8) :=
    toOption_eq_some_iff.1 (by decide +kernel)
  obtain ⟨w, hw, hw'⟩ := hall [low, high] [high, low] (by decide) (by simp [low, high])
    (List.Perm.swap high low [])
  have hlate := (Prod.mk.inj (Except.ok.inj (hlast.symm.trans hw))).1
  have hearly := (Prod.mk.inj (Except.ok.inj (hfirst.symm.trans hw'))).1
  cases hlate.trans hearly.symm

end Aprs.Weather
