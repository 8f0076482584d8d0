import Aprs.Base91
import Mathlib.Algebra.Group.Nat.Defs
import Mathlib.Data.List.Induction

namespace Aprs.Base91

theorem digit?_eq_some_iff {b : UInt8} {d : Nat} : digit? b = some d ↔ d < 91 ∧ b = ofDigit d := by
  have hbounds : 0x21 ≤ b ∧ b ≤ 0x7B ↔ 33 ≤ b.toNat ∧ b.toNat ≤ 123 := Iff.rfl
  have hdigit : b = ofDigit d ↔ b.toNat = (d + 33) % 256 := by
    rw [← UInt8.toNat_inj, ofDigit, UInt8.toNat_ofNat']
  unfold digit?
  rw [hdigit]
  split
  case isTrue h =>
    rw [hbounds] at h
    rw [Option.some.injEq]
    have hfirst : (0x21 : UInt8).toNat = 33 := rfl
    omega
  case isFalse h =>
    rw [hbounds] at h
    simp only [reduceCtorEq, false_iff, not_and]
    omega

/-- The last digit of a number is what is left of it after a division by 91. -/
theorem decode?_concat_eq_some_iff {x : Bytes} {b : UInt8} {n : Nat} :
    decode? (x ++ [b]) = some n ↔
      decode? x = some (n / 91) ∧ b = ofDigit (n % 91) ∧ n ≤ 0xFFFFFFFF := by
  have hconcat : decode? (x ++ [b]) = (decode? x).bind (push? · b) := by
    simp [decode?, List.foldlM_append]
  simp only [hconcat, push?, bind, Option.bind_eq_some_iff, digit?_eq_some_iff,
    Option.ite_none_right_eq_some, Option.some.injEq]
  constructor
  · rintro ⟨front, hfront, d, ⟨hd, rfl⟩, hsize, rfl⟩
    have hdigit : (91 * front + d) % 91 = d := by omega
    have hrest : (91 * front + d) / 91 = front := by omega
    rw [hdigit, hrest]
    exact ⟨hfront, rfl, hsize⟩
  · rintro ⟨hfront, rfl, hsize⟩
    exact ⟨n / 91, hfront, n % 91, ⟨by omega, rfl⟩, by omega, by omega⟩

theorem length_digits (width n : Nat) : (digits width n).length = width := by
  induction width generalizing n with
  | zero => rfl
  | succ width ih => rw [digits, List.length_append, ih, List.length_singleton]

/-- Octets are decoded exactly if they are the digits of a number, which has to fit both the
digits there are and 32 bits. -/
theorem decode?_eq_some_iff {x : Bytes} {n : Nat} :
    decode? x = some n ↔ x = digits x.length n ∧ n < 91 ^ x.length ∧ n ≤ 0xFFFFFFFF := by
  induction x using List.reverseRecOn generalizing n with
  | nil =>
    have hempty : decode? [] = some 0 := rfl
    rw [hempty, Option.some.injEq, List.length_nil, Nat.pow_zero]
    simp only [digits, true_and]
    omega
  | append_singleton x b ih =>
    rw [decode?_concat_eq_some_iff, ih, List.length_append, List.length_singleton, digits,
      List.append_singleton_inj, Nat.pow_succ]
    constructor
    · rintro ⟨⟨hx, hfront, _⟩, hb, hsize⟩
      exact ⟨⟨hx, hb⟩, by omega, hsize⟩
    · rintro ⟨⟨hx, hb⟩, hroom, hsize⟩
      exact ⟨⟨hx, by omega, by omega⟩, hb, hsize⟩

/-- The octets that are digits. -/
def IsDigit (b : UInt8) : Prop := 0x21 ≤ b.toNat ∧ b.toNat ≤ 0x7B

instance : DecidablePred IsDigit := fun b =>
  inferInstanceAs (Decidable (0x21 ≤ b.toNat ∧ b.toNat ≤ 0x7B))

theorem digit?_eq_some_iff_isDigit {b : UInt8} {d : Nat} :
    digit? b = some d ↔ IsDigit b ∧ d = b.toNat - 0x21 := by
  have hdigit : 0x21 ≤ b ∧ b ≤ 0x7B ↔ IsDigit b := Iff.rfl
  rw [digit?, Option.ite_none_right_eq_some, hdigit, Option.some.injEq, eq_comm]

/-- The number that octets write in base 91, the first of them weighing most. -/
def value (x : Bytes) : Nat := x.foldl (fun n b => 91 * n + (b.toNat - 0x21)) 0

theorem value_concat (x : Bytes) (b : UInt8) :
    value (x ++ [b]) = 91 * value x + (b.toNat - 0x21) := by
  rw [value, List.foldl_append]
  rfl

/-- Digits are read as the number that they write, as far as it fits 32 bits. -/
theorem decode?_eq_some_iff_value {x : Bytes} {n : Nat} :
    decode? x = some n ↔ (∀ b ∈ x, IsDigit b) ∧ n = value x ∧ n ≤ 0xFFFFFFFF := by
  induction x using List.reverseRecOn generalizing n with
  | nil =>
    have hempty : decode? [] = some 0 := rfl
    have hvalue : value [] = 0 := rfl
    rw [hempty, hvalue, Option.some.injEq]
    simp only [List.not_mem_nil, false_implies, implies_true, true_and]
    omega
  | append_singleton x b ih =>
    have hlast : b = ofDigit (n % 91) ↔ IsDigit b ∧ n % 91 = b.toNat - 0x21 := by
      rw [← digit?_eq_some_iff_isDigit, digit?_eq_some_iff]
      exact (and_iff_right (Nat.mod_lt n (by decide))).symm
    rw [decode?_concat_eq_some_iff, ih, hlast, value_concat, List.forall_mem_append,
      List.forall_mem_singleton]
    constructor
    · intro ⟨⟨hx, hfront, _⟩, ⟨hb, hdigit⟩, hsize⟩
      exact ⟨⟨hx, hb⟩, by omega, hsize⟩
    · intro ⟨⟨hx, hb⟩, hn, hsize⟩
      obtain ⟨hlow, hhigh⟩ := hb
      exact ⟨⟨hx, by omega, by omega⟩, ⟨⟨hlow, hhigh⟩, by omega⟩, hsize⟩

/-- A number that its digits have room for is written as it is. -/
theorem encode_of_lt {width n : Nat} (hroom : n < 91 ^ width) : encode width n = digits width n := by
  have hmin : min n (Nat.pow 91 width - 1) = n := Nat.min_eq_left (Nat.le_sub_one_of_lt hroom)
  rw [encode, hmin]

theorem length_encode (width n : Nat) : (encode width n).length = width := length_digits _ _

/-- A number that its digits have no room for is read again as the largest that they have. -/
theorem decode?_encode_min (width : Nat) {n : Nat} (hsize : n ≤ 0xFFFFFFFF) :
    decode? (encode width n) = some (min n (91 ^ width - 1)) := by
  have hpositive : 0 < 91 ^ width := Nat.pow_pos (by decide)
  have hpow : Nat.pow 91 width = 91 ^ width := rfl
  rw [encode, decode?_eq_some_iff, length_digits, hpow]
  exact ⟨rfl, by omega, by omega⟩

theorem decode?_encode {width n : Nat} (hroom : n < 91 ^ width) (hsize : n ≤ 0xFFFFFFFF) :
    decode? (encode width n) = some n := by
  rw [decode?_encode_min width hsize, Nat.min_eq_left (Nat.le_sub_one_of_lt hroom)]

theorem encode_of_decode? {x : Bytes} {n : Nat} (hdecode : decode? x = some n) :
    encode x.length n = x := by
  obtain ⟨hx, hroom, _⟩ := decode?_eq_some_iff.1 hdecode
  rw [encode_of_lt hroom, ← hx]

end Aprs.Base91
