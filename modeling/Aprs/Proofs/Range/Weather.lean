import Aprs.Proofs.Decimal
import Aprs.Proofs.Weather
import Mathlib.Algebra.Group.Nat.Defs

namespace Aprs.Weather

namespace Tag

/-- The least quantity that a field has room for, as the report states it. -/
def least : Tag → Int
  | temperature => -99
  | humidity => 1
  | highLuminosity => 901
  | _ => 0

/-- The greatest quantity that a field has room for, as the report states it. -/
def greatest : Tag → Int
  | humidity => 100
  | pressure => 99999
  | highLuminosity => 1999
  | _ => 999

/-- A field that begins with a minus sign has one digit less. -/
theorem quantity?_bounds {tag : Tag} {n q : Int} (hlow : -n < (10 ^ (tag.width - 1) : Nat))
    (hhigh : n < (10 ^ tag.width : Nat)) (hquantity : tag.quantity? n = some q) :
    tag.least ≤ q ∧ q ≤ tag.greatest := by
  simp only [quantity?, Option.ite_none_right_eq_some, Option.some.injEq] at hquantity
  obtain ⟨hsign, rfl⟩ := hquantity
  cases tag with
  | humidity =>
    simp [width, least, greatest] at hsign hhigh ⊢
    split at hsign <;> omega
  | _ =>
    simp [width, least, greatest] at hsign hlow hhigh ⊢
    omega

end Tag

/-- A minus sign takes the place of one digit. -/
theorem readNumber?_bounds {text : List Char} {n : Int}
    (htext : readNumber? text = some (some n)) :
    -n < (10 ^ (text.length - 1) : Nat) ∧ n < (10 ^ text.length : Nat) := by
  have hpositive (width : Nat) : 0 < 10 ^ width := Nat.pow_pos (by decide)
  unfold readNumber? at htext
  split at htext
  case isTrue => cases htext
  case isFalse =>
    split at htext
    case h_1 => cases htext
    case h_2 digits _ _ =>
      simp only [Option.map_eq_some_iff, bind, Option.bind_eq_some_iff, pure, Option.some.injEq]
        at htext
      obtain ⟨_, ⟨d, hd, rfl⟩, rfl⟩ := htext
      have hroom := Decimal.lt_of_ofText? hd
      have hwhole := hpositive (digits.length + 1)
      rw [List.length_cons, Nat.add_sub_cancel]
      exact ⟨by omega, by omega⟩
    case h_3 =>
      simp only [Option.map_eq_some_iff, bind, Option.bind_eq_some_iff, pure, Option.some.injEq]
        at htext
      obtain ⟨_, ⟨d, hd, rfl⟩, rfl⟩ := htext
      have hroom := Decimal.lt_of_ofText? hd
      have hshort := hpositive (text.length - 1)
      exact ⟨by omega, by omega⟩

namespace Token

/-- The value of a token, if it has one, is what the field of its letter has room for. -/
def InRange (token : Token) : Prop :=
  ∀ q ∈ token.value, token.tag.least ≤ q ∧ q ≤ token.tag.greatest

/-- A token is in range by the width of its field. -/
theorem inRange_of_ofText? {tag : Tag} {text : List Char} {token : Token}
    (hlength : text.length = tag.width) (htext : ofText? tag text = some token) :
    token.InRange := by
  unfold ofText? at htext
  split at htext
  case h_1 => cases htext
  case h_2 =>
    cases htext
    rintro _ ⟨⟩
  case h_3 n hnumber =>
    obtain ⟨q, hquantity, rfl⟩ := Option.map_eq_some_iff.1 htext
    obtain ⟨hlow, hhigh⟩ := readNumber?_bounds hnumber
    rw [hlength] at hlow hhigh
    rintro _ ⟨⟩
    exact Tag.quantity?_bounds hlow hhigh hquantity

theorem inRange_of_next? {b rest : Bytes} {token : Token}
    (hnext : next? b = some (token, rest)) : token.InRange := by
  cases b with
  | nil => cases hnext
  | cons first b =>
    simp only [next?, bind, Option.bind_eq_some_iff] at hnext
    obtain ⟨tag, _, ⟨field, after⟩, hsplit, actual, htext, heq⟩ := hnext
    obtain ⟨_, hlength⟩ := splitAt?_eq_some_iff.1 hsplit
    obtain ⟨rfl, rfl⟩ := Prod.mk.inj (Option.some.inj heq)
    exact inRange_of_ofText? (by rw [Latin1.length_decode, hlength]) htext

theorem inRange_of_mem_readAll {used : List Tag} {b : Bytes} :
    ∀ token ∈ (readAll used b).1, token.InRange := by
  fun_induction readAll used b with
  | case1 => simp
  | case2 => simp
  | case3 used b token rest hnext _ _ ih =>
    intro other hmem
    rcases List.mem_cons.1 hmem with rfl | hmem
    · exact inRange_of_next? hnext
    · exact ih other hmem

theorem inRange_of_mem_readWind? {b rest : Bytes} {wind : List Token}
    (hwind : readWind? b = some (wind, rest)) : ∀ token ∈ wind, token.InRange := by
  simp only [readWind?, bind, Option.bind_eq_some_iff] at hwind
  obtain ⟨⟨block, after⟩, _, hwind⟩ := hwind
  split at hwind
  case h_2 => cases hwind
  case h_1 =>
    simp only [Option.bind_eq_some_iff, Option.some.injEq, Prod.mk.injEq] at hwind
    obtain ⟨direction, hdirection, speed, hspeed, rfl, _⟩ := hwind
    simp only [List.mem_cons, List.not_mem_nil, or_false, forall_eq_or_imp, forall_eq]
    exact ⟨inRange_of_ofText? rfl hdirection, inRange_of_ofText? rfl hspeed⟩

end Token

/-- What the fields of a report have room for. Two digits are a percentage that is never zero,
and only a temperature can be below zero. -/
structure InRange (w : Weather) : Prop where
  windDirection : ∀ n ∈ w.windDirection, n ≤ 999
  windSpeed : ∀ n ∈ w.windSpeed, n ≤ 999
  windGust : ∀ n ∈ w.windGust, n ≤ 999
  temperature : ∀ n ∈ w.temperature, -99 ≤ n ∧ n ≤ 999
  rainHour : ∀ n ∈ w.rainHour, n ≤ 999
  rainDay : ∀ n ∈ w.rainDay, n ≤ 999
  rainMidnight : ∀ n ∈ w.rainMidnight, n ≤ 999
  humidity : ∀ n ∈ w.humidity, 1 ≤ n ∧ n ≤ 100
  pressure : ∀ n ∈ w.pressure, n ≤ 99999
  luminosity : ∀ n ∈ w.luminosity, n ≤ 1999

/-- One token more sets one field or none, and leaves the others as they are. -/
theorem InRange.insert {w : Weather} (hw : w.InRange) {token : Token} (htoken : token.InRange) :
    (w.insert token).InRange := by
  obtain ⟨tag, value⟩ := token
  cases value with
  | none => exact hw
  | some q =>
    obtain ⟨hleast, hgreatest⟩ := htoken q rfl
    have hroom : q.toNat ≤ tag.greatest.toNat := Int.toNat_le_toNat hgreatest
    cases tag with
    | windDirection => exact { hw with windDirection := by rintro _ ⟨⟩; exact hroom }
    | windSpeed => exact { hw with windSpeed := by rintro _ ⟨⟩; exact hroom }
    | windGust => exact { hw with windGust := by rintro _ ⟨⟩; exact hroom }
    | temperature => exact { hw with temperature := by rintro _ ⟨⟩; exact ⟨hleast, hgreatest⟩ }
    | rainHour => exact { hw with rainHour := by rintro _ ⟨⟩; exact hroom }
    | rainDay => exact { hw with rainDay := by rintro _ ⟨⟩; exact hroom }
    | rainMidnight => exact { hw with rainMidnight := by rintro _ ⟨⟩; exact hroom }
    | humidity =>
      have hpositive : 1 ≤ q.toNat := Int.toNat_le_toNat hleast
      exact { hw with humidity := by rintro _ ⟨⟩; exact ⟨hpositive, hroom⟩ }
    | pressure => exact { hw with pressure := by rintro _ ⟨⟩; exact hroom }
    | luminosity =>
      exact { hw with luminosity := by rintro _ ⟨⟩; exact Nat.le_trans hroom (by decide) }
    | highLuminosity => exact { hw with luminosity := by rintro _ ⟨⟩; exact hroom }

theorem inRange_ofTokens {tokens : List Token} (htokens : ∀ token ∈ tokens, token.InRange) :
    (ofTokens tokens).InRange := by
  have hempty : ({} : Weather).InRange := by constructor <;> simp
  unfold ofTokens
  generalize ({} : Weather) = w at hempty ⊢
  induction tokens generalizing w with
  | nil => exact hempty
  | cons token tokens ih =>
    obtain ⟨hfirst, hrest⟩ := List.forall_mem_cons.1 htokens
    exact ih hrest _ (hempty.insert hfirst)

theorem inRange_of_decode {b rest : Bytes} {w : Weather} (hdecode : decode b = .ok (w, rest)) :
    w.InRange := by
  obtain ⟨rfl, _⟩ := Prod.mk.inj (Except.ok.inj hdecode)
  refine inRange_ofTokens fun token hmem => ?_
  rcases List.mem_append.1 hmem with hmem | hmem
  · cases hwind : Token.readWind? b with
    | none => simp [hwind] at hmem
    | some result =>
      rw [hwind] at hmem
      exact Token.inRange_of_mem_readWind? hwind token hmem
  · exact Token.inRange_of_mem_readAll token hmem

end Aprs.Weather
