import Aprs.Decimal.Digits
import Mathlib.Algebra.Group.Nat.Defs
import Mathlib.Data.List.Induction

namespace Aprs.Decimal

theorem eq_digitChar_iff {c : Char} {d : Nat} (hd : d < 10) :
    c = Nat.digitChar d ↔ c.isDigit ∧ c.toNat - 0x30 = d := by
  have hzero : '0'.toNat = 48 := rfl
  have hnine : '9'.toNat = 57 := rfl
  rw [← Char.toNat_inj, Nat.toNat_digitChar_of_lt_ten hd, Char.isDigit_iff_toNat]
  omega

/-- The last digit of a number is what is left of it after a division by ten. -/
theorem ofText?_concat_eq_some_iff {text : List Char} {c : Char} {n : Nat} :
    ofText? (text ++ [c]) = some n ↔
      ofText? text = some (n / 10) ∧ c = Nat.digitChar (n % 10) := by
  have hvalue : value (text ++ [c]) = 10 * value text + (c.toNat - 0x30) := by simp [value]
  have hdigit : c.isDigit → c.toNat - 0x30 < 10 := by
    have hnine : '9'.toNat = 57 := rfl
    rw [Char.isDigit_iff_toNat]
    omega
  rw [eq_digitChar_iff (Nat.mod_lt n (by decide))]
  simp only [ofText?, Option.ite_none_right_eq_some, Option.some.injEq, hvalue, List.all_append,
    List.all_cons, List.all_nil, Bool.and_true, Bool.and_eq_true]
  constructor
  · rintro ⟨⟨htext, hc⟩, hn⟩
    have hsmall := hdigit hc
    exact ⟨⟨htext, by omega⟩, hc, by omega⟩
  · rintro ⟨⟨htext, hfront⟩, hc, hlast⟩
    exact ⟨⟨htext, hc⟩, by omega⟩

/-- A text is read as a number exactly if it holds the digits of that number, as many as there
are places. -/
theorem ofText?_eq_some_iff {text : List Char} {n : Nat} :
    ofText? text = some n ↔ text = padded text.length n ∧ n < 10 ^ text.length := by
  induction text using List.reverseRecOn generalizing n with
  | nil =>
    have hempty : ofText? [] = some 0 := rfl
    rw [hempty, Option.some.injEq, List.length_nil, Nat.pow_zero]
    simp only [padded, true_and]
    omega
  | append_singleton text c ih =>
    rw [ofText?_concat_eq_some_iff, ih, List.length_append, List.length_singleton, padded,
      List.append_singleton_inj, Nat.pow_succ]
    constructor
    · rintro ⟨⟨htext, hfront⟩, hc⟩
      exact ⟨⟨htext, hc⟩, by omega⟩
    · rintro ⟨⟨htext, hc⟩, hroom⟩
      exact ⟨⟨htext, by omega⟩, hc⟩

theorem length_padded (width n : Nat) : (padded width n).length = width := by
  induction width generalizing n with
  | zero => rfl
  | succ width ih => rw [padded, List.length_append, ih, List.length_singleton]

theorem ofText?_eq_some_iff_padded {text : List Char} (width : Nat) {n : Nat}
    (hwidth : text.length = width) :
    ofText? text = some n ↔ n < 10 ^ width ∧ padded width n = text := by
  rw [ofText?_eq_some_iff, hwidth, and_comm]
  exact and_congr_right fun _ => eq_comm

/-- A number that the places have room for is read from its digits. -/
theorem ofText?_padded (width : Nat) {n : Nat} (hroom : n < 10 ^ width) :
    ofText? (padded width n) = some n :=
  (ofText?_eq_some_iff_padded width (length_padded width n)).2 ⟨hroom, rfl⟩

theorem padded_zero (width : Nat) : padded width 0 = List.replicate width '0' := by
  induction width with
  | zero => rfl
  | succ width ih =>
    rw [padded, Nat.zero_div, ih, List.replicate_succ']
    rfl

/-- Where a number has room, its places are its digits behind as many zeros as it lacks. -/
theorem zeroFilled_eq_padded {width n : Nat} (hwidth : width ≠ 0) (hroom : n < 10 ^ width) :
    zeroFilled width n = padded width n := by
  unfold zeroFilled digits List.leftpad
  induction width generalizing n with
  | zero => exact absurd rfl hwidth
  | succ width ih =>
    rw [Nat.pow_succ] at hroom
    by_cases hdigit : n < 10
    · rw [Nat.toDigits_of_lt_base hdigit, padded, Nat.div_eq_of_lt hdigit, padded_zero,
        Nat.mod_eq_of_lt hdigit]
      rfl
    · -- a second digit needs a second place
      have hfront : width ≠ 0 := by
        rintro rfl
        omega
      rw [Nat.toDigits_of_base_le (by decide) (Nat.le_of_not_lt hdigit), padded,
        ← ih hfront (by omega), List.length_append, List.length_singleton, Nat.add_sub_add_right,
        List.append_assoc]

theorem lt_of_ofText? {text : List Char} {n : Nat} (htext : ofText? text = some n) :
    n < 10 ^ text.length := (ofText?_eq_some_iff.1 htext).2

theorem le_of_ofText? {text : List Char} {n limit : Nat} (htext : ofText? text = some n)
    (hlimit : 10 ^ text.length ≤ limit + 1) : n ≤ limit :=
  Nat.le_of_lt_succ (Nat.lt_of_lt_of_le (lt_of_ofText? htext) hlimit)

theorem isDigit_of_ofText? {text : List Char} {n : Nat} (htext : ofText? text = some n) :
    ∀ c ∈ text, c.isDigit := by
  simp only [ofText?, Option.ite_none_right_eq_some, List.all_eq_true] at htext
  exact htext.1

theorem ofText?_of_isDigit {text : List Char} (htext : ∀ c ∈ text, c.isDigit) :
    ofText? text = some (value text) := if_pos (List.all_eq_true.2 htext)

theorem exists_ofText?_iff {text : List Char} :
    (∃ n, ofText? text = some n) ↔ ∀ c ∈ text, c.isDigit := by
  constructor
  · rintro ⟨n, htext⟩
    exact isDigit_of_ofText? htext
  · intro htext
    exact ⟨value text, ofText?_of_isDigit htext⟩

theorem ofText?_singleton_eq_some_iff {c : Char} {n : Nat} :
    ofText? [c] = some n ↔ c.isDigit ∧ c.toNat - 0x30 = n := by
  simp [ofText?, value]

/-- Digits at the end move those in front of them up by a place each. -/
theorem value_append (front back : List Char) :
    value (front ++ back) = value front * 10 ^ back.length + value back := by
  have hconcat (text : List Char) (c : Char) :
      value (text ++ [c]) = 10 * value text + (c.toNat - 0x30) := by simp [value]
  induction back using List.reverseRecOn with
  | nil => simp [value]
  | append_singleton back c ih =>
    rw [← List.append_assoc, hconcat, hconcat, ih, List.length_append, List.length_singleton,
      Nat.pow_succ', Nat.mul_add, Nat.mul_left_comm, Nat.add_assoc]

theorem value_zeros (n : Nat) : value (List.replicate n '0') = 0 := by
  induction n with
  | zero => rfl
  | succ n ih =>
    rw [List.replicate_succ', value_append, ih]
    rfl

/-- The digits in front of the last `n` are what is left of a number after as many divisions by
ten. -/
theorem value_take {text : List Char} (htext : ∀ c ∈ text, c.isDigit) {n : Nat}
    (hn : n ≤ text.length) : value (text.take (text.length - n)) = value text / 10 ^ n := by
  have hback : (text.drop (text.length - n)).length = n := by
    rw [List.length_drop]
    omega
  have hsmall : value (text.drop (text.length - n)) < 10 ^ n := by
    have hdigits (c : Char) (hc : c ∈ text.drop (text.length - n)) : c.isDigit :=
      htext c (List.mem_of_mem_drop hc)
    have hbound := lt_of_ofText? (ofText?_of_isDigit hdigits)
    rwa [hback] at hbound
  have hparts := value_append (text.take (text.length - n)) (text.drop (text.length - n))
  rw [List.take_append_drop, hback, Nat.mul_comm] at hparts
  rw [hparts, Nat.mul_add_div (Nat.lt_of_le_of_lt (Nat.zero_le _) hsmall),
    Nat.div_eq_of_lt hsmall, Nat.add_zero]

end Aprs.Decimal
