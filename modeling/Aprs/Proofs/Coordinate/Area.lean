import Aprs.Proofs.Coordinate.Angle

namespace Aprs

open Arithmetic Coordinate

/-- Bounds of a coordinate that was read from what is known of it. They begin at the edge that
was read and extend away from zero. The sign tells to which side, also if the edge is zero. -/
structure Encloses (bounds : Exact × Exact) (edge x : Exact) (width : Rat) : Prop where
  sign : edge.negative = x.negative
  nearest : if x.negative then bounds.2 = edge ∧ edge.value ≤ 0
    else bounds.1 = edge ∧ 0 ≤ edge.value
  width : bounds.2.value - bounds.1.value = width
  below : bounds.1.value ≤ x.value
  above : x.value ≤ bounds.2.value

namespace Precision

/-- The width of the place of the last known digit, in hundredths of a minute. -/
def hundredths : Precision → Nat
  | hundredthMinute => 1
  | tenthMinute => 10
  | oneMinute => 100
  | tenMinutes => 1000
  | oneDegree => 6000
  | tenDegrees => 60000

theorem value_width (precision : Precision) :
    (precision.width : Exact).value = precision.hundredths / 6000 := by
  cases precision <;> norm_num [width, hundredths]

/-- Zeros in place of the last digits take less from a number of degrees, minutes and hundredths
than the place of the last known digit is wide. -/
theorem units_truncate (precision : Precision) {n : Nat} (hminutes : n / 100 % 100 < 60) :
    let known := n / 10 ^ precision.blanks * 10 ^ precision.blanks
    known / 100 % 100 < 60 ∧ units known ≤ units n ∧
      units n < units known + precision.hundredths := by
  cases precision <;> simp only [blanks, hundredths, units, Nat.reducePow] <;> omega

/-- A coordinate lies in the bounds of an edge on its side of zero that is nearer to zero, and
nearer by no more than the width. -/
theorem encloses_bounds {precision : Precision} {edge x : Exact}
    (hsign : edge.negative = x.negative) (hnear : |edge.value| ≤ |x.value|)
    (hfar : |x.value| ≤ |edge.value| + (precision.width : Exact).value) :
    Encloses (precision.bounds edge) edge x (precision.width : Exact).value := by
  have hedge := edge.value_bound
  have hx := x.value_bound
  rw [hsign] at hedge
  unfold bounds
  cases hside : x.negative with
  | true =>
    have hnegative : isNegative edge = true := hsign.trans hside
    rw [hside, if_pos rfl] at hedge hx
    rw [abs_of_nonpos hedge, abs_of_nonpos hx] at hnear hfar
    rw [if_pos hnegative]
    constructor
    case sign => exact hsign
    case nearest => simpa [hside] using hedge
    case width => simp
    case below => rw [Exact.value_sub]; linarith
    case above => linarith
  | false =>
    have hpositive : isNegative edge = false := hsign.trans hside
    rw [hside, if_neg (by decide)] at hedge hx
    rw [abs_of_nonneg hedge, abs_of_nonneg hx] at hnear hfar
    rw [hpositive, if_neg (by decide)]
    constructor
    case sign => exact hsign
    case nearest => simpa [hside] using hedge
    case width => simp
    case below => linarith
    case above => rw [Exact.value_add]; linarith

end Precision

namespace Angle

variable {width blanks limit : Nat}

theorem negative_toExact (a : Angle width blanks limit) : a.toExact.negative = !a.positive := by
  have hunits : (0 : Rat) ≤ a.units / 6000 := by positivity
  refine Exact.negative_ofValue ?_
  cases a.positive <;> simpa using hunits

theorem abs_value_toExact (a : Angle width blanks limit) :
    |a.toExact.value| = (a.units : Rat) / 6000 := by
  have hunits : (0 : Rat) ≤ a.units / 6000 := by positivity
  change |if a.positive then (a.units : Rat) / 6000 else -(a.units / 6000)| = _
  cases a.positive <;> simp [abs_of_nonneg hunits]

theorem number_take (a : Angle width blanks limit) (hblanks : blanks = 0) {n : Nat}
    (hn : n ≤ width) :
    number (a.digits.take (a.digits.length - n)) n = number a.digits blanks / 10 ^ n * 10 ^ n := by
  subst hblanks
  have hroom : n ≤ a.digits.length := by
    have hlength := a.length_eq
    omega
  rw [number, number, Decimal.value_take a.isDigit hroom, Nat.pow_zero, Nat.mul_one]

/-- What is known of an angle if only as many digits are given as a precision says. -/
def truncate (a : Angle width blanks limit) (hblanks : blanks = 0) (hwidth : 5 ≤ width)
    (precision : Precision) : Angle width precision.blanks limit where
  digits := a.digits.take (a.digits.length - precision.blanks)
  positive := a.positive
  isDigit c hc := a.isDigit c (List.mem_of_mem_take hc)
  length_eq := by
    have hlength := a.length_eq
    have hmost := precision.blanks_le
    rw [List.length_take]
    omega
  minutes_lt := by
    rw [a.number_take hblanks (precision.blanks_le.trans hwidth)]
    exact (precision.units_truncate a.minutes_lt).1
  units_le := by
    rw [a.number_take hblanks (precision.blanks_le.trans hwidth)]
    exact (precision.units_truncate a.minutes_lt).2.1.trans a.units_le

/-- An angle lies in the bounds of what is known of it, however little that is. -/
theorem encloses_truncate (a : Angle width blanks limit) (hblanks : blanks = 0)
    (hwidth : 5 ≤ width) (precision : Precision) :
    let edge := (a.truncate hblanks hwidth precision).toExact
    Encloses (precision.bounds edge) edge a.toExact (precision.width : Exact).value := by
  have hunits : (a.truncate hblanks hwidth precision).units =
      Coordinate.units (number a.digits blanks / 10 ^ precision.blanks * 10 ^ precision.blanks) :=
    congrArg Coordinate.units (a.number_take hblanks (precision.blanks_le.trans hwidth))
  obtain ⟨_, hbelow, habove⟩ := precision.units_truncate a.minutes_lt
  rw [← hunits] at hbelow habove
  refine Precision.encloses_bounds ?_ ?_ ?_
  · rw [negative_toExact, negative_toExact]
    rfl
  · rw [abs_value_toExact, abs_value_toExact]
    have hbelow : ((a.truncate hblanks hwidth precision).units : Rat) ≤ a.units := by
      exact_mod_cast hbelow
    linarith
  · rw [abs_value_toExact, abs_value_toExact, Precision.value_width]
    have habove : (a.units : Rat) <
        (a.truncate hblanks hwidth precision).units + precision.hundredths := by
      exact_mod_cast habove
    linarith

end Angle

end Aprs
