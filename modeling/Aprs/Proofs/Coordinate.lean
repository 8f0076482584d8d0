import Aprs.Proofs.Base91
import Aprs.Proofs.Exact

namespace Aprs

open Arithmetic

/-- There are as many steps from pole to pole as around the equator, and four digits have
room for the nearest number of them. -/
theorem Base91.decode?_encode_round {x : Exact} (hpositive : 0 ≤ x.value)
    (hx : x.value ≤ 68566680) :
    round x ≤ 68566680 ∧ round x < 91 ^ 4 ∧ decode? (encode 4 (round x)) = some (round x) ∧
      |(round x : Rat) - x.value| ≤ 1 / 2 := by
  obtain ⟨hlimit, hbelow, habove⟩ :=
    Exact.round_bounds 68566680 (by decide) hpositive (by exact_mod_cast hx)
  have hroom : round x < 91 ^ 4 := by omega
  refine ⟨hlimit, hroom, decode?_encode hroom (by omega), ?_⟩
  rw [abs_le]
  constructor <;> linarith

/-- A number that was read is written with the digits that it was read from. -/
theorem Base91.encode_round {b : Bytes} {n : Nat} {x : Exact} (hdecode : decode? b = some n)
    (hx : x.value = n) : encode b.length (round x) = b := by
  obtain ⟨_, _, hsize⟩ := decode?_eq_some_iff.1 hdecode
  rw [Exact.round_of_value_eq hsize hx]
  exact encode_of_decode? hdecode

namespace Latitude

/-- How far south of the north pole a latitude is, in whole steps of a compressed position. -/
def units {R : Type} [Arithmetic R] (latitude : Latitude R) : Nat :=
  round ((whole 90 - latitude.degrees) * whole 380926)

theorem length_toBase91 {R : Type} [Arithmetic R] (latitude : Latitude R) :
    latitude.toBase91.length = 4 := Base91.length_encode _ _

/-- Digits are a latitude exactly if they count no further than to the south pole. -/
theorem ofBase91?_eq_some_iff {b : Bytes} {latitude : Latitude Exact} :
    ofBase91? b = some latitude ↔ ∃ n, Base91.decode? b = some n ∧ n ≤ 68566680 ∧
      latitude = ⟨whole 90 - whole n / whole 380926⟩ := by
  have hwithin (n : Nat) :
      Coordinate.isWithin 90 (whole 90 - whole n / whole 380926 : Exact) ↔ n ≤ 68566680 := by
    have hn : (0 : Rat) ≤ n := Nat.cast_nonneg n
    rw [Exact.isWithin_iff, ← Nat.cast_le (α := Rat)]
    simp only [Exact.value_sub, Exact.value_div, Exact.value_whole]
    push_cast
    constructor
    · rintro ⟨hsouth, _⟩
      linarith
    · intro hsouth
      constructor <;> linarith
  simp only [ofBase91?, ofDegrees?, bind, Option.bind_eq_some_iff, Option.ite_none_right_eq_some,
    Option.some.injEq, hwithin]
  exact exists_congr fun n => and_congr_right' (and_congr_right' eq_comm)

theorem toBase91_of_ofBase91? {b : Bytes} {latitude : Latitude Exact} (hb : b.length = 4)
    (hread : ofBase91? b = some latitude) : latitude.toBase91 = b := by
  obtain ⟨n, hdecode, _, rfl⟩ := ofBase91?_eq_some_iff.1 hread
  have hencode : Base91.encode b.length
      (round ((whole 90 - (whole 90 - whole n / whole 380926)) * whole 380926 : Exact)) = b := by
    refine Base91.encode_round hdecode ?_
    simp only [Exact.value_mul, Exact.value_sub, Exact.value_div, Exact.value_whole]
    push_cast
    ring
  rw [hb] at hencode
  exact hencode

/-- What is read back of a latitude is at most half a step away from it. -/
theorem ofBase91?_toBase91 {latitude : Latitude Exact}
    (hlatitude : Coordinate.isWithin 90 latitude.degrees) :
    latitude.units < 91 ^ 4 ∧ ∃ found : Latitude Exact,
      ofBase91? latitude.toBase91 = some found ∧
      |found.degrees.value - latitude.degrees.value| ≤ 1 / (2 * 380926) := by
  obtain ⟨hsouth, hnorth⟩ := Exact.isWithin_iff.1 hlatitude
  have hvalue : ((whole 90 - latitude.degrees) * whole 380926).value =
      (90 - latitude.degrees.value) * 380926 := by
    simp only [Exact.value_mul, Exact.value_sub, Exact.value_whole]
    push_cast
    rfl
  push_cast at hsouth hnorth
  obtain ⟨hlimit, hroom, hdecode, hnear⟩ :=
    Base91.decode?_encode_round (x := (whole 90 - latitude.degrees) * whole 380926)
      (by rw [hvalue]; linarith) (by rw [hvalue]; linarith)
  refine ⟨hroom, _, ofBase91?_eq_some_iff.2 ⟨_, hdecode, hlimit, rfl⟩, ?_⟩
  rw [hvalue, abs_le] at hnear
  simp only [Exact.value_sub, Exact.value_div, Exact.value_whole]
  push_cast
  rw [abs_le]
  constructor <;> linarith

end Latitude

namespace Longitude

/-- How far east of the date line a longitude is, in whole steps of a compressed position. -/
def units {R : Type} [Arithmetic R] (longitude : Longitude R) : Nat :=
  round ((whole 180 + longitude.degrees) * whole 190463)

theorem length_toBase91 {R : Type} [Arithmetic R] (longitude : Longitude R) :
    longitude.toBase91.length = 4 := Base91.length_encode _ _

/-- Digits are a longitude exactly if they count no further than once around. -/
theorem ofBase91?_eq_some_iff {b : Bytes} {longitude : Longitude Exact} :
    ofBase91? b = some longitude ↔ ∃ n, Base91.decode? b = some n ∧ n ≤ 68566680 ∧
      longitude = ⟨whole n / whole 190463 - whole 180⟩ := by
  have hwithin (n : Nat) :
      Coordinate.isWithin 180 (whole n / whole 190463 - whole 180 : Exact) ↔ n ≤ 68566680 := by
    have hn : (0 : Rat) ≤ n := Nat.cast_nonneg n
    rw [Exact.isWithin_iff, ← Nat.cast_le (α := Rat)]
    simp only [Exact.value_sub, Exact.value_div, Exact.value_whole]
    push_cast
    constructor
    · rintro ⟨_, heast⟩
      linarith
    · intro heast
      constructor <;> linarith
  simp only [ofBase91?, ofDegrees?, bind, Option.bind_eq_some_iff, Option.ite_none_right_eq_some,
    Option.some.injEq, hwithin]
  exact exists_congr fun n => and_congr_right' (and_congr_right' eq_comm)

theorem toBase91_of_ofBase91? {b : Bytes} {longitude : Longitude Exact} (hb : b.length = 4)
    (hread : ofBase91? b = some longitude) : longitude.toBase91 = b := by
  obtain ⟨n, hdecode, _, rfl⟩ := ofBase91?_eq_some_iff.1 hread
  have hencode : Base91.encode b.length
      (round ((whole 180 + (whole n / whole 190463 - whole 180)) * whole 190463 : Exact)) = b := by
    refine Base91.encode_round hdecode ?_
    simp only [Exact.value_mul, Exact.value_add, Exact.value_sub, Exact.value_div,
      Exact.value_whole]
    push_cast
    ring
  rw [hb] at hencode
  exact hencode

/-- What is read back of a longitude is at most half a step away from it. -/
theorem ofBase91?_toBase91 {longitude : Longitude Exact}
    (hlongitude : Coordinate.isWithin 180 longitude.degrees) :
    longitude.units < 91 ^ 4 ∧ ∃ found : Longitude Exact,
      ofBase91? longitude.toBase91 = some found ∧
      |found.degrees.value - longitude.degrees.value| ≤ 1 / (2 * 190463) := by
  obtain ⟨hwest, heast⟩ := Exact.isWithin_iff.1 hlongitude
  have hvalue : ((whole 180 + longitude.degrees) * whole 190463).value =
      (180 + longitude.degrees.value) * 190463 := by
    simp only [Exact.value_mul, Exact.value_add, Exact.value_whole]
    push_cast
    rfl
  push_cast at hwest heast
  obtain ⟨hlimit, hroom, hdecode, hnear⟩ :=
    Base91.decode?_encode_round (x := (whole 180 + longitude.degrees) * whole 190463)
      (by rw [hvalue]; linarith) (by rw [hvalue]; linarith)
  refine ⟨hroom, _, ofBase91?_eq_some_iff.2 ⟨_, hdecode, hlimit, rfl⟩, ?_⟩
  rw [hvalue, abs_le] at hnear
  simp only [Exact.value_sub, Exact.value_div, Exact.value_whole]
  push_cast
  rw [abs_le]
  constructor <;> linarith

end Longitude

end Aprs
