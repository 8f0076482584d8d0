import Aprs.Proofs.Weather.Token
import Mathlib.Data.List.Nodup

namespace Aprs.Weather

namespace Tag

/-- The letter under which a quantity is kept. A luminosity has two letters and is kept once. -/
def slot : Tag → Tag
  | highLuminosity => luminosity
  | tag => tag

/-- Both letters of a luminosity state the same quantity. -/
def IsLuminosity (tag : Tag) : Prop := tag.slot = luminosity

instance : DecidablePred IsLuminosity := fun tag =>
  inferInstanceAs (Decidable (tag.slot = luminosity))

theorem isLuminosity_iff {tag : Tag} :
    tag.IsLuminosity ↔ tag = luminosity ∨ tag = highLuminosity := by
  cases tag <;> decide

theorem slot_eq_self {tag : Tag} (hsingle : ¬ tag.IsLuminosity) : tag.slot = tag := by
  cases tag with
  | highLuminosity => exact absurd rfl hsingle
  | _ => rfl

/-- Any other quantity has one letter. -/
theorem slot_eq_iff {tag other : Tag} (hsingle : ¬ tag.IsLuminosity) :
    other.slot = tag.slot ↔ other = tag := by
  constructor
  · intro hslot
    by_cases hother : other.IsLuminosity
    · exact absurd (hslot.symm.trans hother) hsingle
    · rw [← slot_eq_self hsingle, ← hslot, slot_eq_self hother]
  · intro heq
    rw [heq]

end Tag

/-- The quantity of a letter, if a report has it. -/
def get (w : Weather) : Tag → Option Int
  | .windDirection => w.windDirection.map Int.ofNat
  | .windSpeed => w.windSpeed.map Int.ofNat
  | .windGust => w.windGust.map Int.ofNat
  | .temperature => w.temperature
  | .rainHour => w.rainHour.map Int.ofNat
  | .rainDay => w.rainDay.map Int.ofNat
  | .rainMidnight => w.rainMidnight.map Int.ofNat
  | .humidity => w.humidity.map Int.ofNat
  | .pressure => w.pressure.map Int.ofNat
  | .luminosity | .highLuminosity => w.luminosity.map Int.ofNat

theorem get_of_isLuminosity (w : Weather) {tag : Tag} (hluminosity : tag.IsLuminosity) :
    w.get tag = w.get .luminosity := by
  obtain rfl | rfl := Tag.isLuminosity_iff.1 hluminosity <;> rfl

/-- A report is no more than its quantities. -/
theorem eq_of_get {w other : Weather} (hget : ∀ tag : Tag, ¬ tag.IsLuminosity → w.get tag = other.get tag)
    (hluminosity : w.get .luminosity = other.get .luminosity) : w = other := by
  have hnat {a b : Option Nat} (hmap : a.map Int.ofNat = b.map Int.ofNat) : a = b :=
    Option.map_injective (fun _ _ => Int.ofNat.inj) hmap
  obtain ⟨_, _, _, _, _, _, _, _, _, _⟩ := w
  obtain ⟨_, _, _, _, _, _, _, _, _, _⟩ := other
  rw [Weather.mk.injEq]
  exact ⟨hnat (hget .windDirection (by decide)), hnat (hget .windSpeed (by decide)),
    hnat (hget .windGust (by decide)), hget .temperature (by decide),
    hnat (hget .rainHour (by decide)), hnat (hget .rainDay (by decide)),
    hnat (hget .rainMidnight (by decide)), hnat (hget .humidity (by decide)),
    hnat (hget .pressure (by decide)), hnat hluminosity⟩

/-- A token changes the quantity of its letter if it has a value, and nothing else. -/
theorem get_insert {w : Weather} {token : Token} (hkept : ∀ q ∈ token.value, token.tag.Keeps q)
    (tag : Tag) :
    (w.insert token).get tag =
      if token.tag.slot = tag.slot then token.value.or (w.get tag) else w.get tag := by
  obtain ⟨actual, value⟩ := token
  cases value with
  | none => exact (ite_self _).symm
  | some q =>
    obtain rfl | hpositive := (hkept q rfl).nonneg
    · cases tag <;> rfl
    · obtain ⟨n, rfl⟩ := Int.eq_ofNat_of_zero_le hpositive
      cases actual <;> cases tag <;> rfl

/-- What tokens say of the quantity of a letter: the last number that one of them has for it. -/
def Token.lastValue (tokens : List Token) (tag : Tag) : Option Int :=
  ((tokens.filter fun token => token.tag.slot = tag.slot).filterMap (·.value)).getLast?

namespace Token

theorem lastValue_concat (tokens : List Token) (token : Token) (tag : Tag) :
    lastValue (tokens ++ [token]) tag =
      if token.tag.slot = tag.slot then token.value.or (lastValue tokens tag)
      else lastValue tokens tag := by
  obtain ⟨actual, value⟩ := token
  by_cases hslot : actual.slot = tag.slot
  · cases value with
    | none => simp [lastValue, hslot]
    | some q => simp [lastValue, hslot]
  · simp [lastValue, hslot]

/-- Tokens behind the one with a value that have none for the quantity leave it. -/
theorem lastValue_append_cons {front back : List Token} {token : Token} {tag : Tag}
    (hslot : token.tag.slot = tag.slot)
    (hback : ∀ other ∈ back, other.tag.slot = tag.slot → other.value = none) :
    lastValue (front ++ token :: back) tag = token.value.or (lastValue front tag) := by
  induction back using List.reverseRecOn with
  | nil => rw [lastValue_concat, if_pos hslot]
  | append_singleton back other ih =>
    have hother (hmatch : other.tag.slot = tag.slot) : other.value = none :=
      hback other (by simp) hmatch
    have hrest := ih fun t ht => hback t (List.mem_append_left _ ht)
    rw [← List.cons_append, ← List.append_assoc, lastValue_concat, hrest]
    split
    case isTrue hmatch => rw [hother hmatch, Option.none_or]
    case isFalse => rfl

theorem lastValue_eq_none {tokens : List Token} {tag : Tag}
    (hnone : ∀ token ∈ tokens, token.tag.slot = tag.slot → token.value = none) :
    lastValue tokens tag = none := by
  have hall : (tokens.filter fun token => token.tag.slot = tag.slot).filterMap (·.value) = [] := by
    rw [List.filterMap_eq_nil_iff]
    intro token hmem
    obtain ⟨htoken, hslot⟩ := List.mem_filter.1 hmem
    exact hnone token htoken (of_decide_eq_true hslot)
  rw [lastValue, hall, List.getLast?_nil]

/-- Where no letter is used twice, a quantity with one letter is what the token with that letter
says. -/
theorem lastValue_of_mem {tokens : List Token} (hdistinct : (tokens.map (·.tag)).Nodup)
    {token : Token} (hmem : token ∈ tokens) (hsingle : ¬ token.tag.IsLuminosity) :
    lastValue tokens token.tag = token.value := by
  obtain ⟨front, back, rfl⟩ := List.append_of_mem hmem
  rw [List.map_append, List.map_cons, List.nodup_middle, List.nodup_cons, List.mem_append] at hdistinct
  have hnone (other : Token) (hother : other ∈ front ∨ other ∈ back)
      (hslot : other.tag.slot = token.tag.slot) : other.value = none := by
    have htag := (Tag.slot_eq_iff hsingle).1 hslot
    rw [← htag] at hdistinct
    exact absurd (hother.imp List.mem_map_of_mem List.mem_map_of_mem) hdistinct.1
  rw [lastValue_append_cons rfl fun other hother => hnone other (.inr hother),
    lastValue_eq_none fun other hother => hnone other (.inl hother), Option.or_none]

end Token

/-- A report has for each quantity the last number that a token has for it. -/
theorem get_ofTokens {tokens : List Token}
    (hkept : ∀ token ∈ tokens, ∀ q ∈ token.value, token.tag.Keeps q) (tag : Tag) :
    (ofTokens tokens).get tag = Token.lastValue tokens tag := by
  induction tokens using List.reverseRecOn with
  | nil => cases tag <;> rfl
  | append_singleton tokens token ih =>
    -- The fold goes from the left, so it is the last token that overwrites.
    have hfront := ih fun other hother => hkept other (List.mem_append_left _ hother)
    have hstep : ofTokens (tokens ++ [token]) = (ofTokens tokens).insert token := by
      rw [ofTokens, ofTokens, List.foldl_append, List.foldl_cons, List.foldl_nil]
    rw [hstep, get_insert (hkept token (by simp)), hfront, Token.lastValue_concat]

end Aprs.Weather
