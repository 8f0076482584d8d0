import Aprs.Proofs.Base91
import Aprs.Proofs.Register
import Mathlib.Algebra.BigOperators.Fin

namespace Aprs.Base91

/-- The sum of the digits by their weights. The last digit weighs 1, and any other one 91 times as
much as the one behind it. -/
def weightedSum (x : Bytes) : Nat :=
  ∑ i : Fin x.length, ((x.get i).toNat - 0x21) * 91 ^ (x.length - 1 - i)

theorem weightedSum_cons (b : UInt8) (x : Bytes) :
    weightedSum (b :: x) = (b.toNat - 0x21) * 91 ^ x.length + weightedSum x := by
  have hweight (i : Fin x.length) : x.length + 1 - 1 - (i + 1) = x.length - 1 - i := by omega
  refine (Fin.sum_univ_succ _).trans (congrArg (_ + ·) (Finset.sum_congr rfl fun i _ => ?_))
  change ((x.get i).toNat - 0x21) * 91 ^ (x.length + 1 - 1 - (i + 1)) = _
  rw [hweight]

theorem value_cons (b : UInt8) (x : Bytes) :
    value (b :: x) = (b.toNat - 0x21) * 91 ^ x.length + value x := by
  induction x using List.reverseRecOn with
  | nil => simp [value]
  | append_singleton x last ih =>
    rw [← List.cons_append, value_concat, value_concat, ih, List.length_append,
      List.length_singleton, Nat.pow_succ, Nat.mul_comm (91 ^ x.length), Nat.mul_add,
      Nat.mul_left_comm, Nat.add_assoc]

/-- The number that digits write is counted up digit by digit, from the front. -/
theorem value_eq_weightedSum (x : Bytes) : value x = weightedSum x := by
  induction x with
  | nil => rfl
  | cons b x ih => rw [value_cons, weightedSum_cons, ih]

/-- Appends one digit in a register of 32 bits. Neither the product nor the sum may leave it. -/
def pushInRegister? (n : UInt32) (b : UInt8) : Option UInt32 := do
  let d ← digit? b
  let product ← product? n 91
  sum? product (UInt32.ofNat d)

/-- The number that digits write, as a register of 32 bits counts it up. -/
def decodeInRegister? (x : Bytes) : Option UInt32 := x.foldlM pushInRegister? 0

/-- A digit is appended to a register exactly if the number with that digit fits it. -/
theorem pushInRegister?_eq_some_iff {n m : UInt32} {b : UInt8} :
    pushInRegister? n b = some m ↔ push? n.toNat b = some m.toNat := by
  have hninety : (91 : UInt32).toNat = 91 := rfl
  have hm := m.toNat_lt
  simp only [pushInRegister?, push?, bind, Option.bind_eq_some_iff, product?_eq_some_iff,
    sum?_eq_some_iff, hninety, Option.ite_none_right_eq_some, Option.some.injEq]
  refine exists_congr fun d => and_congr_right fun hdigit => ?_
  have hd : (UInt32.ofNat d).toNat = d :=
    UInt32.toNat_ofNat_of_lt' (Nat.lt_trans (digit?_eq_some_iff.1 hdigit).1 (by decide))
  rw [hd]
  constructor
  · rintro ⟨product, hproduct, hsum⟩
    omega
  · rintro ⟨_, hsum⟩
    -- the product is no larger than the sum, so it fits where the sum does
    have hproduct : (UInt32.ofNat (n.toNat * 91)).toNat = n.toNat * 91 :=
      UInt32.toNat_ofNat_of_lt' (show n.toNat * 91 < 2 ^ 32 by omega)
    exact ⟨_, hproduct.symm, by omega⟩

theorem map_pushInRegister? (n : UInt32) (b : UInt8) :
    (pushInRegister? n b).map UInt32.toNat = push? n.toNat b := by
  refine Option.ext fun m => ?_
  rw [Option.map_eq_some_iff]
  constructor
  · rintro ⟨register, hpush, rfl⟩
    exact pushInRegister?_eq_some_iff.1 hpush
  · intro hpush
    have hm : m < 2 ^ 32 := by
      simp only [push?, bind, Option.bind_eq_some_iff, Option.ite_none_right_eq_some,
        Option.some.injEq] at hpush
      omega
    have hregister : (UInt32.ofNat m).toNat = m := UInt32.toNat_ofNat_of_lt' hm
    exact ⟨UInt32.ofNat m, pushInRegister?_eq_some_iff.2 (by rw [hregister, hpush]), hregister⟩

/-- A step that does not fit the register is followed by none that would. -/
theorem map_decodeInRegister? (x : Bytes) :
    (decodeInRegister? x).map UInt32.toNat = decode? x := by
  have hrun (n : UInt32) :
      (x.foldlM pushInRegister? n).map UInt32.toNat = x.foldlM push? n.toNat := by
    induction x generalizing n with
    | nil => rfl
    | cons b x ih =>
      rw [List.foldlM_cons, List.foldlM_cons, ← map_pushInRegister?]
      cases pushInRegister? n b with
      | none => rfl
      | some m => exact ih m
  exact hrun 0

/-- The digits of a register, of which the last is split off first. -/
def digitsOfRegister : Nat → UInt32 → Bytes
  | 0, _ => []
  | width + 1, n => digitsOfRegister width (n / 91) ++ [(n % 91).toUInt8 + 0x21]

/-- The digits of a register are those of its number, as dividing never leaves the register. -/
theorem digitsOfRegister_eq (width : Nat) (n : UInt32) :
    digitsOfRegister width n = digits width n.toNat := by
  induction width generalizing n with
  | zero => rfl
  | succ width ih =>
    have hrest : (n / 91).toNat = n.toNat / 91 := UInt32.toNat_div n 91
    have hdigit : (n % 91).toUInt8 + 0x21 = ofDigit (n.toNat % 91) := by
      have hmod : (n % 91).toNat = n.toNat % 91 := UInt32.toNat_mod n 91
      rw [← UInt8.toNat_inj, UInt8.toNat_add, UInt32.toNat_toUInt8, hmod, ofDigit,
        UInt8.toNat_ofNat', Nat.mod_add_mod]
      rfl
    rw [digitsOfRegister, digits, ih, hrest, hdigit]

/-- A number in a register of 64 bits, which holds none that does not fit. -/
def wide? (n : Nat) : Option UInt64 := if n < 2 ^ 64 then some (UInt64.ofNat n) else none

/-- A number of 32 bits written in registers. The largest number of `width` digits is computed in
64 bits, and cut down to 32 only if it takes the place of one that is larger. -/
def encodeInRegisters? (width : Nat) (n : UInt32) : Option Bytes := do
  let power ← wide? (91 ^ width)
  let largest := power - 1
  return digitsOfRegister width (if largest < n.toUInt64 then largest.toUInt32 else n)

theorem pow_lt_two_pow_iff {width : Nat} : 91 ^ width < 2 ^ 64 ↔ width ≤ 9 := by
  constructor
  · intro hfits
    by_contra hwidth
    have hten : 91 ^ 10 ≤ 91 ^ width := Nat.pow_le_pow_right (by decide) (by omega)
    omega
  · intro hwidth
    exact Nat.lt_of_le_of_lt (Nat.pow_le_pow_right (by decide) hwidth) (by decide)

theorem toNat_largest {width : Nat} (hfits : 91 ^ width < 2 ^ 64) :
    (UInt64.ofNat (91 ^ width) - 1).toNat = 91 ^ width - 1 := by
  have hpower : (UInt64.ofNat (91 ^ width)).toNat = 91 ^ width := UInt64.toNat_ofNat_of_lt' hfits
  have hone : 1 ≤ UInt64.ofNat (91 ^ width) := by
    rw [UInt64.le_iff_toNat_le, hpower]
    exact Nat.pow_pos (by decide)
  rw [UInt64.toNat_sub_of_le _ _ hone, hpower]
  rfl

/-- A limit that is under a number of 32 bits loses nothing when it is cut down to as many. -/
theorem toNat_limited (limit : UInt64) (n : UInt32) :
    (if limit < n.toUInt64 then limit.toUInt32 else n).toNat = min n.toNat limit.toNat := by
  have hn := n.toNat_lt
  have hover : limit < n.toUInt64 ↔ limit.toNat < n.toNat := UInt64.lt_iff_toNat_lt
  simp only [hover]
  split
  case isTrue hover =>
    rw [UInt64.toNat_toUInt32, Nat.mod_eq_of_lt (by omega), Nat.min_eq_right (by omega)]
  case isFalse hunder => rw [Nat.min_eq_left (by omega)]

/-- Nine digits are the most whose largest number can be computed. -/
theorem encodeInRegisters?_eq (width : Nat) (n : UInt32) :
    encodeInRegisters? width n = if width ≤ 9 then some (encode width n.toNat) else none := by
  unfold encodeInRegisters? wide?
  simp only [pow_lt_two_pow_iff]
  split
  case isFalse => rfl
  case isTrue hwidth =>
    have hlargest := toNat_largest (pow_lt_two_pow_iff.2 hwidth)
    refine congrArg some ?_
    rw [digitsOfRegister_eq, toNat_limited, hlargest]
    rfl

/-- Digits and the number they write. Digits are read exactly if their sum by weights fits 32 bits,
and no register is left on the way that would not be left at the end. A number of 32 bits is read
again from up to nine digits, or the largest that they write if they have no room for it, and
digits are written again from what was read off them. -/
theorem numerals_exact :
    (∀ x n, decode? x = some n ↔
      (∀ b ∈ x, IsDigit b) ∧ weightedSum x < 2 ^ 32 ∧ n = weightedSum x) ∧
    (∀ x, (decodeInRegister? x).map UInt32.toNat = decode? x) ∧
    (∀ width ≤ 9, ∀ n : UInt32,
      encodeInRegisters? width n = some (encode width n.toNat) ∧
      (encode width n.toNat).length = width ∧ (∀ b ∈ encode width n.toNat, IsDigit b) ∧
      decode? (encode width n.toNat) = some (min n.toNat (91 ^ width - 1))) ∧
    ∀ (x : Bytes) (n : UInt32), x.length ≤ 9 → (∀ b ∈ x, IsDigit b) → n.toNat = weightedSum x →
      encode x.length n.toNat = x := by
  have hdecode (x : Bytes) (n : Nat) : decode? x = some n ↔
      (∀ b ∈ x, IsDigit b) ∧ weightedSum x < 2 ^ 32 ∧ n = weightedSum x := by
    rw [decode?_eq_some_iff_value, value_eq_weightedSum]
    refine and_congr_right fun _ => ?_
    constructor
    · rintro ⟨rfl, hsize⟩
      exact ⟨by omega, rfl⟩
    · rintro ⟨hsize, rfl⟩
      exact ⟨rfl, by omega⟩
  refine ⟨hdecode, map_decodeInRegister?, fun width hwidth n => ?_, fun x n _ hdigits hn => ?_⟩
  · have hn := n.toNat_lt
    have hread := decode?_encode_min width (show n.toNat ≤ 0xFFFFFFFF by omega)
    exact ⟨(encodeInRegisters?_eq width n).trans (if_pos hwidth), length_encode _ _,
      (decode?_eq_some_iff_value.1 hread).1, hread⟩
  · have hsize : weightedSum x < 2 ^ 32 := hn ▸ n.toNat_lt
    exact encode_of_decode? ((hdecode x n.toNat).2 ⟨hdigits, hsize, hn⟩)

/-- A number that two digits have no room for, and one with two digits to spare. -/
theorem numerals_exact_room :
    decode? (encode 2 (0xFFFFFFFF : UInt32).toNat) = some 8280 ∧
    encode 6 (20427156 : UInt32).toNat = [0x21, 0x21, 0x3C, 0x2A, 0x65, 0x37] := by
  obtain ⟨_, _, hencode, hdigits⟩ := numerals_exact
  refine ⟨(hencode 2 (by decide) 0xFFFFFFFF).2.2.2, ?_⟩
  refine hdigits [0x21, 0x21, 0x3C, 0x2A, 0x65, 0x37] 20427156 (by decide) (by simp [IsDigit]) ?_
  rw [← value_eq_weightedSum]
  rfl

end Aprs.Base91
