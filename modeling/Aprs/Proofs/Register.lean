import Mathlib.Algebra.Group.Nat.Defs

namespace Aprs

/-- A difference in a register of eight bits, which has none below zero. -/
def difference? (x y : UInt8) : Option UInt8 := if y ≤ x then some (x - y) else none

/-- A product in a register of 32 bits, which has none that does not fit. -/
def product? (x y : UInt32) : Option UInt32 :=
  if x.toNat * y.toNat < 2 ^ 32 then some (x * y) else none

/-- A sum in a register of 32 bits, which has none that does not fit. -/
def sum? (x y : UInt32) : Option UInt32 :=
  if x.toNat + y.toNat < 2 ^ 32 then some (x + y) else none

/-- A power in a register of 32 bits, one product after the other. -/
def power? (x : UInt32) : Nat → Option UInt32
  | 0 => some 1
  | n + 1 => (power? x n).bind (product? · x)

theorem difference?_eq_some_iff {x y z : UInt8} :
    difference? x y = some z ↔ y ≤ x ∧ z.toNat = x.toNat - y.toNat := by
  unfold difference?
  rw [Option.ite_none_right_eq_some, Option.some.injEq]
  refine and_congr_right fun hle => ?_
  rw [← UInt8.toNat_inj, UInt8.toNat_sub_of_le _ _ hle, eq_comm]

/-- What is kept of a number in 32 bits is the number, if it fits. -/
theorem fits_iff {n : Nat} {x z : UInt32} (hx : x.toNat = n % 2 ^ 32) :
    n < 2 ^ 32 ∧ x = z ↔ n = z.toNat := by
  have hz := z.toNat_lt
  rw [← UInt32.toNat_inj, hx]
  omega

theorem product?_eq_some_iff {x y z : UInt32} :
    product? x y = some z ↔ x.toNat * y.toNat = z.toNat := by
  unfold product?
  rw [Option.ite_none_right_eq_some, Option.some.injEq, fits_iff (UInt32.toNat_mul x y)]

theorem sum?_eq_some_iff {x y z : UInt32} :
    sum? x y = some z ↔ x.toNat + y.toNat = z.toNat := by
  unfold sum?
  rw [Option.ite_none_right_eq_some, Option.some.injEq, fits_iff (UInt32.toNat_add x y)]

/-- A power fits if the last of its products does. -/
theorem power?_eq_some_iff {x z : UInt32} (hx : 0 < x.toNat) {n : Nat} :
    power? x n = some z ↔ x.toNat ^ n = z.toNat := by
  induction n generalizing z with
  | zero => simp [power?, ← UInt32.toNat_inj]
  | succ n ih =>
    simp only [power?, Option.bind_eq_some_iff, ih, product?_eq_some_iff, Nat.pow_succ]
    constructor
    · rintro ⟨y, hy, hz⟩
      rw [hy, hz]
    · intro hz
      -- no power on the way is larger than the last one
      have hsmall : x.toNat ^ n < 2 ^ 32 :=
        Nat.lt_of_le_of_lt (Nat.le_mul_of_pos_right _ hx) (hz ▸ z.toNat_lt)
      refine ⟨UInt32.ofNat (x.toNat ^ n), ?_, ?_⟩
      · rw [UInt32.toNat_ofNat_of_lt' hsmall]
      · rw [UInt32.toNat_ofNat_of_lt' hsmall, hz]

end Aprs
