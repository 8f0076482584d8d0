import Aprs.Proofs.Decimal
import Aprs.Proofs.Exact
import Aprs.Text.Latin1

namespace Aprs

namespace Coordinate

/-- The number that digits write if `blanks` zeros follow them. -/
def number (digits : List Char) (blanks : Nat) : Nat := Decimal.value digits * 10 ^ blanks

/-- Hundredths of a minute in a number of degrees, minutes and hundredths, the last two of two
digits each. -/
def units (n : Nat) : Nat := 6000 * (n / 10000) + 100 * (n / 100 % 100) + n % 100

/-- The places of digits with a point in front of the last two, and the letter behind them. -/
def withPoint (places : List Char) (side : Char) : List Char :=
  places.take (places.length - 2) ++ '.' :: places.drop (places.length - 2) ++ [side]

end Coordinate

open Coordinate

/-- An angle written in `width` places for the digits of degrees, minutes and hundredths of a
minute. The last `blanks` of them count as zeros, and only the digits in front of them are
known. -/
structure Angle (width blanks limit : Nat) where
  digits : List Char
  /-- North of the equator or east of the prime meridian. -/
  positive : Bool
  isDigit : ∀ c ∈ digits, c.isDigit
  length_eq : digits.length + blanks = width
  minutes_lt : number digits blanks / 100 % 100 < 60
  units_le : units (number digits blanks) ≤ 6000 * limit

namespace Angle

variable {width blanks limit : Nat}

/-- The size of an angle in hundredths of a minute, on whichever side of zero it lies. -/
def units (a : Angle width blanks limit) : Nat := Coordinate.units (number a.digits blanks)

/-- The angle in degrees, with a sign of its own also if it is zero. -/
def toExact (a : Angle width blanks limit) : Exact :=
  let x : Rat := a.units / 6000
  .ofValue (if a.positive then x else -x) (!a.positive)

/-- The text of an angle, with `filler` in the places that count for nothing. -/
def text (a : Angle width blanks limit) (filler : List Char) (positive negative : Char) :
    List Char :=
  withPoint (a.digits ++ filler) (if a.positive then positive else negative)

end Angle

namespace Coordinate

open Arithmetic

theorem mem_withPoint_iff {places : List Char} {side c : Char} :
    c ∈ withPoint places side ↔ c ∈ places ∨ c = '.' ∨ c = side := by
  have hplaces : c ∈ places ↔
      c ∈ places.take (places.length - 2) ∨ c ∈ places.drop (places.length - 2) := by
    rw [← List.mem_append, List.take_append_drop]
  rw [hplaces]
  simp only [withPoint, List.mem_append, List.mem_cons, List.not_mem_nil, or_false]
  tauto

theorem readSide?_eq_some_iff {positive negative c : Char} (hsides : positive ≠ negative)
    {side : Bool} :
    readSide? positive negative c = some side ↔ c = if side then positive else negative := by
  unfold readSide?
  by_cases hpositive : c = positive
  · cases side <;> simp [hpositive, hsides]
  · by_cases hnegative : c = negative
    · cases side <;> simp [hnegative, Ne.symm hsides]
    · cases side <;> simp [hpositive, hnegative]

/-- Digits are read up to the places that count for nothing. -/
theorem readDigits?_eq_some_iff {digits filler : List Char} {blanks : Nat}
    (hfiller : filler.length = blanks) {degrees minutes hundredths : Nat} :
    readDigits? blanks (digits ++ filler) = some (degrees, minutes, hundredths) ↔
      (∀ c ∈ digits, c.isDigit) ∧ number digits blanks / 100 % 100 < 60 ∧
        degrees = number digits blanks / 10000 ∧
        minutes = number digits blanks / 100 % 100 ∧
        hundredths = number digits blanks % 100 := by
  have htake : (digits ++ filler).take ((digits ++ filler).length - blanks) = digits := by
    simp [hfiller]
  have hvalue : Decimal.value (digits ++ List.replicate blanks '0') = number digits blanks := by
    rw [Decimal.value_append, Decimal.value_zeros, List.length_replicate]
    rfl
  have hdigits : (digits ++ List.replicate blanks '0').all Char.isDigit = true ↔
      ∀ c ∈ digits, c.isDigit := by
    rw [List.all_append, Bool.and_eq_true, List.all_eq_true]
    exact and_iff_left (by simp)
  simp only [readDigits?, htake, Decimal.ofText?, bind, Option.bind_eq_some_iff,
    Option.ite_none_right_eq_some, Option.some.injEq, Prod.mk.injEq, hdigits]
  constructor
  · rintro ⟨n, ⟨hall, rfl⟩, hminutes, rfl, rfl, rfl⟩
    rw [hvalue] at hminutes ⊢
    exact ⟨hall, hminutes, rfl, rfl, rfl⟩
  · rintro ⟨hall, hminutes, rfl, rfl, rfl⟩
    exact ⟨_, ⟨hall, hvalue⟩, hminutes, rfl, rfl, rfl⟩

/-- Nothing is lost when minutes and hundredths are added to degrees as exact numbers, and all of
them count away from zero. -/
theorem ofParts_eq (degrees minutes hundredths : Nat) (positive : Bool) :
    (ofParts degrees minutes hundredths positive : Exact) =
      let x : Rat := (6000 * degrees + 100 * minutes + hundredths : Nat) / 6000
      .ofValue (if positive then x else -x) (!positive) := by
  have hvalue : (whole degrees + whole minutes / whole 60 + whole hundredths / whole 6000 :
      Exact).value = (6000 * degrees + 100 * minutes + hundredths : Nat) / 6000 := by
    simp only [Exact.value_add, Exact.value_div, Exact.value_whole]
    push_cast
    ring
  have hnegative : (whole degrees + whole minutes / whole 60 + whole hundredths / whole 6000 :
      Exact).negative = false := by
    refine Exact.negative_add (Exact.negative_add (Exact.negative_whole degrees) ?_) ?_
    · exact Exact.negative_div (Exact.negative_whole minutes) (Exact.negative_whole 60)
    · exact Exact.negative_div (Exact.negative_whole hundredths) (Exact.negative_whole 6000)
  have hpositive := Exact.value_nonneg hnegative
  rw [hvalue] at hpositive
  unfold ofParts
  refine Exact.eq_iff.2 ⟨?value, ?sign⟩
  case value => cases positive <;> simp [hvalue, Exact.ofValue]
  case sign =>
    cases positive with
    | true => exact hnegative.trans (Exact.negative_ofValue (by simpa using hpositive)).symm
    | false =>
      refine Eq.trans ?_ (Exact.negative_ofValue (by simpa using hpositive)).symm
      rw [if_neg (by decide), Exact.negative_neg, hnegative]

/-- An angle has to be within the limit on either side of zero. -/
theorem isWithin_ofParts {limit degrees minutes hundredths : Nat} {positive : Bool} :
    isWithin limit (ofParts degrees minutes hundredths positive : Exact) ↔
      6000 * degrees + 100 * minutes + hundredths ≤ 6000 * limit := by
  have hsum : (0 : Rat) ≤ (6000 * degrees + 100 * minutes + hundredths : Nat) := Nat.cast_nonneg _
  rw [Exact.isWithin_iff, ofParts_eq, ← Nat.cast_le (α := Rat), Nat.cast_mul,
    Nat.cast_ofNat]
  cases positive with
  | true =>
    simp only [Exact.ofValue, if_true]
    constructor
    · rintro ⟨_, habove⟩
      linarith
    · intro habove
      constructor <;> linarith
  | false =>
    simp only [Exact.ofValue, Bool.false_eq_true, if_false]
    constructor
    · rintro ⟨hbelow, _⟩
      linarith
    · intro hbelow
      constructor <;> linarith

/-- Digits are read as an angle up to the places that count for nothing, and whatever stands
there. -/
theorem readDigits?_ofParts_iff {width blanks limit : Nat} {digits filler : List Char}
    (hwidth : digits.length + blanks = width) (hfiller : filler.length = blanks)
    {positive : Bool} {x : Exact} :
    (∃ parts, readDigits? blanks (digits ++ filler) = some parts ∧
        isWithin limit (ofParts parts.1 parts.2.1 parts.2.2 positive : Exact) ∧
        ofParts parts.1 parts.2.1 parts.2.2 positive = x) ↔
      ∃ a : Angle width blanks limit, a.digits = digits ∧ a.positive = positive ∧ a.toExact = x := by
  simp only [isWithin_ofParts]
  constructor
  · rintro ⟨⟨_, _, _⟩, hread, hlimit, rfl⟩
    obtain ⟨hdigits, hminutes, rfl, rfl, rfl⟩ := (readDigits?_eq_some_iff hfiller).1 hread
    exact ⟨⟨digits, positive, hdigits, hwidth, hminutes, hlimit⟩, rfl, rfl, (ofParts_eq ..).symm⟩
  · rintro ⟨⟨_, _, hdigits, _, hminutes, hlimit⟩, rfl, rfl, rfl⟩
    exact ⟨_, (readDigits?_eq_some_iff hfiller).2 ⟨hdigits, hminutes, rfl, rfl, rfl⟩, hlimit,
      ofParts_eq ..⟩

/-- The blanks behind digits are all the places that are blank at the end. -/
theorem length_trailing {digits : List Char} (hdigits : ∀ c ∈ digits, c.isDigit) (n : Nat) :
    ((digits ++ List.replicate n ' ').reverse.takeWhile (· = ' ')).length = n := by
  have hnone : digits.reverse.takeWhile (· = ' ') = [] := by
    rcases hlast : digits.reverse with _ | ⟨c, rest⟩
    · rfl
    · have hc : c.isDigit := hdigits c (List.mem_reverse.1 (hlast ▸ List.mem_cons_self))
      refine List.takeWhile_cons_of_neg ?_
      rw [decide_eq_true_eq]
      rintro rfl
      cases hc
  rw [List.reverse_append, List.reverse_replicate, List.takeWhile_append_of_pos (by simp), hnone,
    List.append_nil, List.length_replicate]

theorem exists_trailing (places : List Char) :
    ∃ front, places =
      front ++ List.replicate (places.reverse.takeWhile (· = ' ')).length ' ' := by
  have hblank : places.reverse.takeWhile (· = ' ') =
      List.replicate (places.reverse.takeWhile (· = ' ')).length ' ' := by
    refine List.eq_replicate_of_mem fun c hc => ?_
    simpa using List.all_eq_true.1 (List.all_takeWhile (l := places.reverse)) c hc
  refine ⟨(places.reverse.dropWhile (· = ' ')).reverse, ?_⟩
  rw [← List.reverse_inj, List.reverse_append, List.reverse_replicate, ← hblank,
    List.reverse_reverse, List.takeWhile_append_dropWhile]

end Coordinate

namespace Angle

variable {width blanks limit : Nat} (a : Angle width blanks limit)

theorem length_text {filler : List Char} (hfiller : filler.length = blanks) (hwidth : 2 ≤ width)
    (positive negative : Char) : (a.text filler positive negative).length = width + 2 := by
  have hplaces : (a.digits ++ filler).length = width := by
    rw [List.length_append, hfiller, a.length_eq]
  simp only [text, withPoint, List.length_append, List.length_take, List.length_cons,
    List.length_drop, List.length_nil, hplaces]
  omega

/-- An angle is written in octets if the places that count for nothing hold octets. -/
theorem toNat_lt_of_mem_text {filler : List Char} (hfiller : ∀ c ∈ filler, c.toNat < 256)
    {positive negative : Char} (hpositive : positive.toNat < 256) (hnegative : negative.toNat < 256) :
    ∀ c ∈ a.text filler positive negative, c.toNat < 256 := by
  intro c hc
  rcases mem_withPoint_iff.1 hc with hplace | rfl | rfl
  · rcases List.mem_append.1 hplace with hdigit | hfill
    · exact Latin1.toNat_lt_of_isDigit (a.isDigit c hdigit)
    · exact hfiller c hfill
  · decide
  · split <;> assumption

/-- An angle begins with a digit if there are places in front of the point and not all are
blank. -/
theorem head?_text (hblanks : blanks < width) {filler : List Char} (hfiller : filler.length = blanks)
    (hwidth : 2 < width) (positive negative : Char) :
    ∃ c ∈ (a.text filler positive negative).head?, c.isDigit := by
  have hlength := a.length_eq
  obtain ⟨c, digits, hdigits⟩ := List.exists_cons_of_length_pos (l := a.digits) (by omega)
  refine ⟨c, ?_, a.isDigit c (hdigits ▸ List.mem_cons_self)⟩
  have hfront : (c :: digits ++ filler).length - 2 ≠ 0 := by
    rw [← hdigits, List.length_append]
    omega
  rw [text, withPoint, hdigits, List.head?_append, List.head?_append, List.head?_take,
    if_neg hfront]
  rfl

end Angle

theorem Precision.blanks_le (precision : Precision) : precision.blanks ≤ 5 := by
  cases precision <;> decide

theorem Precision.ofBlanks?_eq_some_iff {n : Nat} {precision : Precision} :
    ofBlanks? n = some precision ↔ precision.blanks = n := by
  constructor
  · intro hread
    unfold ofBlanks? at hread
    split at hread <;> cases hread <;> rfl
  · rintro rfl
    cases precision <;> rfl

/-- Up to five digits may be blank. -/
theorem Precision.exists_blanks {n : Nat} (hn : n ≤ 5) :
    ∃ precision : Precision, precision.blanks = n := by
  have hread : ∀ n ≤ 5, (ofBlanks? n).isSome := by decide
  obtain ⟨precision, hprecision⟩ := Option.isSome_iff_exists.1 (hread n hn)
  exact ⟨precision, ofBlanks?_eq_some_iff.1 hprecision⟩

namespace Latitude

theorem withPoint_of_ofText? {R : Type} [Arithmetic R] {text : List Char}
    {result : Latitude R × Precision} (hread : ofText? text = some result) :
    ∃ places side, places.length = 6 ∧ text = withPoint places side := by
  unfold ofText? at hread
  split at hread
  case h_1 d₁ d₂ m₁ m₂ h₁ h₂ side => exact ⟨[d₁, d₂, m₁, m₂, h₁, h₂], side, rfl, rfl⟩
  case h_2 => cases hread

/-- A latitude with its point is read off its digits and its side, and the blanks at its end are
counted. -/
theorem ofText?_withPoint_iff {places : List Char} (hplaces : places.length = 6) {side : Char}
    {latitude : Latitude Exact} {precision : Precision} :
    ofText? (withPoint places side) = some (latitude, precision) ↔
      ∃ north, side = (if north then 'N' else 'S') ∧
        (places.reverse.takeWhile (· = ' ')).length = precision.blanks ∧
        ∃ parts, readDigits? precision.blanks places = some parts ∧
          isWithin 90 (ofParts parts.1 parts.2.1 parts.2.2 north : Exact) ∧
          ofParts parts.1 parts.2.1 parts.2.2 north = latitude.degrees := by
  match places, hplaces with
  | [d₁, d₂, m₁, m₂, h₁, h₂], _ =>
    have hpoint : withPoint [d₁, d₂, m₁, m₂, h₁, h₂] side =
        [d₁, d₂, m₁, m₂, '.', h₁, h₂, side] := rfl
    simp only [hpoint, ofText?, bind, Option.bind_eq_some_iff, Prod.exists,
      readSide?_eq_some_iff (by decide : 'N' ≠ 'S'), Precision.ofBlanks?_eq_some_iff, ofParts?,
      ofDegrees?, Option.ite_none_right_eq_some, Option.some.injEq, Prod.mk.injEq]
    constructor
    · rintro ⟨north, hside, _, hcount, degrees, minutes, hundredths, hdigits, _, ⟨hlimit, rfl⟩,
        rfl, rfl⟩
      exact ⟨north, hside, hcount.symm, degrees, minutes, hundredths, hdigits, hlimit, rfl⟩
    · rintro ⟨north, hside, hcount, degrees, minutes, hundredths, hdigits, hlimit, hx⟩
      exact ⟨north, hside, precision, hcount.symm, degrees, minutes, hundredths, hdigits, latitude,
        ⟨hlimit, by rw [hx]⟩, rfl, rfl⟩

/-- A latitude is written in digits and then blanks, as many as its precision says. -/
theorem ofText?_eq_some_iff {text : List Char} {latitude : Latitude Exact}
    {precision : Precision} :
    ofText? text = some (latitude, precision) ↔ ∃ a : Angle 6 precision.blanks 90,
      text = a.text (List.replicate precision.blanks ' ') 'N' 'S' ∧ latitude = ⟨a.toExact⟩ := by
  constructor
  · intro hread
    obtain ⟨places, side, hplaces, rfl⟩ := withPoint_of_ofText? hread
    obtain ⟨north, rfl, hcount, hdigits⟩ := (ofText?_withPoint_iff hplaces).1 hread
    obtain ⟨front, hfront⟩ := exists_trailing places
    rw [hcount] at hfront
    rw [hfront] at hplaces hdigits ⊢
    rw [List.length_append, List.length_replicate] at hplaces
    obtain ⟨a, rfl, rfl, hx⟩ :=
      (readDigits?_ofParts_iff hplaces List.length_replicate).1 hdigits
    exact ⟨a, rfl, by rw [hx]⟩
  · rintro ⟨a, rfl, rfl⟩
    refine (ofText?_withPoint_iff ?_).2 ⟨a.positive, rfl, length_trailing a.isDigit _, ?_⟩
    · rw [List.length_append, List.length_replicate, a.length_eq]
    · exact (readDigits?_ofParts_iff a.length_eq List.length_replicate).2 ⟨a, rfl, rfl, rfl⟩

end Latitude

namespace Longitude

theorem withPoint_of_ofText? {R : Type} [Arithmetic R] {precision : Precision} {text : List Char}
    {longitude : Longitude R} (hread : ofText? precision text = some longitude) :
    ∃ places side, places.length = 7 ∧ text = withPoint places side := by
  unfold ofText? at hread
  split at hread
  case h_1 d₁ d₂ d₃ m₁ m₂ h₁ h₂ side => exact ⟨[d₁, d₂, d₃, m₁, m₂, h₁, h₂], side, rfl, rfl⟩
  case h_2 => cases hread

/-- A longitude with its point is read off its digits and its side, for the precision of a
latitude. -/
theorem ofText?_withPoint_iff {places : List Char} (hplaces : places.length = 7) {side : Char}
    {longitude : Longitude Exact} {precision : Precision} :
    ofText? precision (withPoint places side) = some longitude ↔
      ∃ east, side = (if east then 'E' else 'W') ∧
        ∃ parts, readDigits? precision.blanks places = some parts ∧
          isWithin 180 (ofParts parts.1 parts.2.1 parts.2.2 east : Exact) ∧
          ofParts parts.1 parts.2.1 parts.2.2 east = longitude.degrees := by
  match places, hplaces with
  | [d₁, d₂, d₃, m₁, m₂, h₁, h₂], _ =>
    have hpoint : withPoint [d₁, d₂, d₃, m₁, m₂, h₁, h₂] side =
        [d₁, d₂, d₃, m₁, m₂, '.', h₁, h₂, side] := rfl
    simp only [hpoint, ofText?, bind, Option.bind_eq_some_iff, Prod.exists,
      readSide?_eq_some_iff (by decide : 'E' ≠ 'W'), ofParts?, ofDegrees?,
      Option.ite_none_right_eq_some, Option.some.injEq]
    constructor
    · rintro ⟨east, hside, degrees, minutes, hundredths, hdigits, hlimit, rfl⟩
      exact ⟨east, hside, degrees, minutes, hundredths, hdigits, hlimit, rfl⟩
    · rintro ⟨east, hside, degrees, minutes, hundredths, hdigits, hlimit, hx⟩
      exact ⟨east, hside, degrees, minutes, hundredths, hdigits, hlimit, by rw [hx]⟩

/-- A longitude is written in digits and then anything, in as many places as the latitude left
blank. -/
theorem ofText?_eq_some_iff {text : List Char} {longitude : Longitude Exact}
    {precision : Precision} :
    ofText? precision text = some longitude ↔ ∃ (a : Angle 7 precision.blanks 180)
      (ignored : List Char), ignored.length = precision.blanks ∧
        text = a.text ignored 'E' 'W' ∧ longitude = ⟨a.toExact⟩ := by
  constructor
  · intro hread
    obtain ⟨places, side, hplaces, rfl⟩ := withPoint_of_ofText? hread
    obtain ⟨east, rfl, hdigits⟩ := (ofText?_withPoint_iff hplaces).1 hread
    obtain ⟨digits, ignored, rfl, hignored⟩ : ∃ digits ignored,
        places = digits ++ ignored ∧ ignored.length = precision.blanks := by
      have hblanks := precision.blanks_le
      refine ⟨_, _, (List.take_append_drop (7 - precision.blanks) places).symm, ?_⟩
      rw [List.length_drop]
      omega
    rw [List.length_append, hignored] at hplaces
    obtain ⟨a, rfl, rfl, hx⟩ := (readDigits?_ofParts_iff hplaces hignored).1 hdigits
    exact ⟨a, ignored, hignored, rfl, by rw [hx]⟩
  · rintro ⟨a, ignored, hignored, rfl, rfl⟩
    refine (ofText?_withPoint_iff ?_).2 ⟨a.positive, rfl, ?_⟩
    · rw [List.length_append, hignored, a.length_eq]
    · exact (readDigits?_ofParts_iff a.length_eq hignored).2 ⟨a, rfl, rfl, rfl⟩

end Longitude

end Aprs
