import Aprs.Coordinate.Basic
import Aprs.Coordinate.Exact
import Mathlib.Data.Rat.Floor
import Mathlib.Tactic.Linarith

namespace Aprs.Exact

open Arithmetic

@[simp] theorem value_whole (n : Nat) : (whole n : Exact).value = n := rfl

@[simp] theorem value_add (x y : Exact) : (x + y).value = x.value + y.value := rfl

@[simp] theorem value_sub (x y : Exact) : (x - y).value = x.value - y.value := rfl

@[simp] theorem value_mul (x y : Exact) : (x * y).value = x.value * y.value := rfl

@[simp] theorem value_div (x y : Exact) : (x / y).value = x.value / y.value := rfl

@[simp] theorem value_neg (x : Exact) : (-x).value = -x.value := rfl

theorem eq_iff {x y : Exact} : x = y ↔ x.value = y.value ∧ x.negative = y.negative := by
  obtain ⟨_, _, _⟩ := x
  obtain ⟨_, _, _⟩ := y
  simp

/-- The sign that is asked for is the sign, unless the value is on the other side of zero. -/
theorem negative_ofValue {q : Rat} {negative : Bool} (hq : if negative then q ≤ 0 else 0 ≤ q) :
    (ofValue q negative).negative = negative := by
  unfold ofValue
  by_cases hzero : q = 0
  · simp [hzero]
  · cases negative with
    | false => simpa [hzero] using hq
    | true => simpa [hzero] using lt_of_le_of_ne hq hzero

theorem value_nonneg {x : Exact} (hx : x.negative = false) : 0 ≤ x.value := by
  by_contra hbelow
  have hsign := x.negative_eq (ne_of_lt (not_le.1 hbelow))
  rw [hx] at hsign
  exact of_decide_eq_false hsign.symm (not_le.1 hbelow)

@[simp] theorem negative_whole (n : Nat) : (whole n : Exact).negative = false :=
  negative_ofValue (Nat.cast_nonneg n)

/-- A number that is not negative is zero or above it, and one that is not positive zero or
below it. -/
theorem value_bound (x : Exact) : if x.negative then x.value ≤ 0 else 0 ≤ x.value := by
  rcases hsign : x.negative with _ | _
  · exact value_nonneg hsign
  · by_contra habove
    have hsame := x.negative_eq (ne_of_gt (not_le.1 habove))
    rw [hsign] at hsame
    exact habove (le_of_lt (of_decide_eq_true hsame.symm))

/-- The negation of a zero is the other zero. -/
@[simp] theorem negative_neg (x : Exact) : (-x).negative = !x.negative := by
  refine negative_ofValue ?_
  have hbound := x.value_bound
  rcases hsign : x.negative with _ | _ <;> simpa [hsign] using hbound

theorem negative_add {x y : Exact} (hx : x.negative = false) (hy : y.negative = false) :
    (x + y).negative = false := by
  change (ofValue (x.value + y.value) (x.negative && y.negative)).negative = false
  rw [hx]
  exact negative_ofValue (add_nonneg (value_nonneg hx) (value_nonneg hy))

theorem negative_div {x y : Exact} (hx : x.negative = false) (hy : y.negative = false) :
    (x / y).negative = false := by
  change (ofValue (x.value / y.value) (x.negative ^^ y.negative)).negative = false
  rw [hx, hy]
  exact negative_ofValue (div_nonneg (value_nonneg hx) (value_nonneg hy))

/-- A difference from a number that is not negative is a zero without a sign, if it is zero. -/
theorem sub_eq_ofValue {x : Exact} (hx : x.negative = false) (y : Exact) :
    x - y = ofValue (x.value - y.value) false := by
  change ofValue (x.value - y.value) (x.negative && !y.negative) = _
  rw [hx, Bool.false_and]

theorem isWithin_iff {limit : Nat} {x : Exact} :
    Coordinate.isWithin limit x ↔ -(limit : Rat) ≤ x.value ∧ x.value ≤ limit := by
  have hle (a b : Exact) : le a b = true ↔ a.value ≤ b.value := decide_eq_true_iff
  rw [Coordinate.isWithin, Bool.and_eq_true, hle, hle, value_neg, value_whole]

/-- A number from zero to a limit of 32 bits is rounded to one that is no more than half a
unit away and not past the limit. -/
theorem round_bounds {x : Exact} (limit : Nat) (hlimit : limit ≤ 0xFFFFFFFF)
    (hpositive : 0 ≤ x.value) (hx : x.value ≤ limit) :
    round x ≤ limit ∧ (round x : Rat) - 1 / 2 ≤ x.value ∧ x.value < round x + 1 / 2 := by
  have hbelow := Rat.floor_le (x.value + 1 / 2)
  have habove := Rat.lt_floor_add_one (x.value + 1 / 2)
  rw [Rat.intCast_add, Rat.intCast_one] at habove
  have hzero : 0 ≤ (x.value + 1 / 2).floor := Rat.le_floor_iff.2 (by push_cast; linarith)
  have hmax : (x.value + 1 / 2).floor < limit + 1 :=
    Rat.floor_lt_iff.2 (by push_cast; linarith)
  have hround : round x = (x.value + 1 / 2).floor.toNat := by
    change min (x.value + 1 / 2).floor.toNat 0xFFFFFFFF = _
    omega
  have hcast : (round x : Rat) = ((x.value + 1 / 2).floor : Rat) := by
    rw [hround]
    exact_mod_cast Int.toNat_of_nonneg hzero
  rw [hcast]
  exact ⟨by omega, by linarith, by linarith⟩

/-- A whole number is rounded to itself. -/
theorem round_of_value_eq {x : Exact} {n : Nat} (hsize : n ≤ 0xFFFFFFFF) (hx : x.value = n) :
    round x = n := by
  obtain ⟨_, hbelow, habove⟩ :=
    round_bounds n hsize (by rw [hx]; exact Nat.cast_nonneg n) (le_of_eq hx)
  rw [hx] at hbelow habove
  have hlow : (round x : Rat) < (n + 1 : Nat) := by push_cast; linarith
  have hhigh : (n : Rat) < (round x + 1 : Nat) := by push_cast; linarith
  have hlow := Nat.cast_lt.1 hlow
  have hhigh := Nat.cast_lt.1 hhigh
  omega

end Aprs.Exact
