import Aprs.Altitude
import Aprs.Extension
import Aprs.Proofs.Decimal
import Aprs.Proofs.Decoder
import Aprs.Proofs.Extension

namespace Aprs

/-- One of the eight winds, if any. -/
def Directivity.InRange : Directivity → Prop
  | omni => True
  | degrees n => ∃ code, 1 ≤ code ∧ code ≤ 8 ∧ n = 45 * code

/-- A direction is read off its own code and off no other. -/
theorem Directivity.ofCode?_eq_some_iff {n : Nat} {directivity : Directivity} :
    ofCode? n = some directivity ↔ directivity.InRange ∧ directivity.code = n := by
  constructor
  · intro hcode
    unfold ofCode? at hcode
    split at hcode
    case isTrue hn =>
      cases hcode
      exact ⟨trivial, hn.symm⟩
    case isFalse hn =>
      obtain ⟨hlast, heq⟩ := Option.ite_none_right_eq_some.1 hcode
      cases heq
      exact ⟨⟨n, Nat.pos_of_ne_zero hn, hlast, rfl⟩, Nat.mul_div_cancel_left n (by decide)⟩
  · rintro ⟨hrange, rfl⟩
    cases directivity with
    | omni => rfl
    | degrees n =>
      obtain ⟨code, hfirst, hlast, rfl⟩ := hrange
      have hplace : (degrees (45 * code)).code = code := Nat.mul_div_cancel_left code (by decide)
      rw [hplace, ofCode?, if_neg (by omega), if_pos hlast]

namespace Extension

/-- The heights that have a code and fit 32 bits. -/
def IsHeight (feet : Nat) : Prop := ∃ code ≤ 28, feet = 10 * 2 ^ code

/-- What the digits of an extension have room for. -/
def InRange : Extension → Prop
  | directionSpeed degrees knots => degrees ≤ 999 ∧ knots ≤ 999
  | power watts feet gain directivity =>
    (∃ n ≤ 9, watts = n * n) ∧ IsHeight feet ∧ gain ≤ 9 ∧ directivity.InRange
  | radioRange miles => miles ≤ 9999
  | signal strength feet gain directivity =>
    strength ≤ 9 ∧ IsHeight feet ∧ gain ≤ 9 ∧ directivity.InRange
  | area kind color => kind ≤ 99 ∧ color ≤ 99

theorem height_fits_iff {code : Nat} : 10 * 2 ^ code < 2 ^ 32 ↔ code ≤ 28 := by
  constructor
  · intro hfits
    by_contra hlarge
    have hpow : 2 ^ 29 ≤ 2 ^ code := Nat.pow_le_pow_right (by decide) (by omega)
    omega
  · intro hcode
    have hpow : 2 ^ code ≤ 2 ^ 28 := Nat.pow_le_pow_right (by decide) hcode
    omega

/-- The codes run past `9`, but only the first 29 of them give a height that fits. -/
theorem height?_eq_some_iff {c : Char} {feet : Nat} :
    height? c = some feet ↔ ∃ code ≤ 28, c.toNat = 0x30 + code ∧ feet = 10 * 2 ^ code := by
  have hlow : '0' ≤ c ↔ 0x30 ≤ c.toNat := Iff.rfl
  have hfits : 10 * Nat.pow 2 (c.toNat - 0x30) ≤ 0xFFFFFFFF ↔ c.toNat - 0x30 ≤ 28 :=
    Nat.lt_succ_iff.symm.trans height_fits_iff
  have hheight : height? c = some feet ↔
      (0x30 ≤ c.toNat ∧ c.toNat - 0x30 ≤ 28) ∧ 10 * 2 ^ (c.toNat - 0x30) = feet := by
    rw [← hlow, ← hfits]
    simp only [height?, Option.ite_none_right_eq_some, Option.some.injEq]
    rfl
  rw [hheight]
  constructor
  · rintro ⟨⟨hzero, hcode⟩, rfl⟩
    exact ⟨c.toNat - 0x30, hcode, by omega, rfl⟩
  · rintro ⟨code, hcode, hc, rfl⟩
    have hplace : c.toNat - 0x30 = code := by omega
    exact ⟨⟨by omega, by omega⟩, by rw [hplace]⟩

theorem isHeight_of_height? {c : Char} {feet : Nat} (hheight : height? c = some feet) :
    IsHeight feet := by
  obtain ⟨code, hcode, _, hfeet⟩ := height?_eq_some_iff.1 hheight
  exact ⟨code, hcode, hfeet⟩

theorem readCodes?_bounds {a b c d : Char} {lead feet gain : Nat} {directivity : Directivity}
    (hcodes : readCodes? a b c d = some (lead, feet, gain, directivity)) :
    lead ≤ 9 ∧ IsHeight feet ∧ gain ≤ 9 ∧ directivity.InRange := by
  obtain ⟨hlead, hheight, hgain, _, _, hdirectivity⟩ := readCodes?_eq_some_iff.1 hcodes
  exact ⟨Decimal.le_of_ofText? hlead (by simp), isHeight_of_height? hheight,
    Decimal.le_of_ofText? hgain (by simp), (Directivity.ofCode?_eq_some_iff.1 hdirectivity).1⟩

/-- What is read as an extension is in range: its numbers have fixed places, and its codes were
checked. -/
theorem inRange_of_ofText? {text : List Char} {extension : Extension}
    (htext : ofText? text = some extension) : extension.InRange := by
  cases reads_of_ofText? htext with
  | radioRange hmiles => exact Decimal.le_of_ofText? hmiles (by simp)
  | @power _ _ _ _ lead _ _ _ hcodes =>
    obtain ⟨hlead, hrest⟩ := readCodes?_bounds hcodes
    exact ⟨⟨lead, hlead, rfl⟩, hrest⟩
  | signal hcodes => exact readCodes?_bounds hcodes
  | area hkind hcolor =>
    exact ⟨Decimal.le_of_ofText? hkind (by simp), Decimal.le_of_ofText? hcolor (by simp)⟩
  | directionSpeed hdegrees hknots =>
    exact ⟨Decimal.le_of_ofText? hdegrees (by simp), Decimal.le_of_ofText? hknots (by simp)⟩

theorem inRange_of_decode {b rest : Bytes} {extension : Extension}
    (hdecode : decode b = .ok (extension, rest)) : extension.InRange := by
  obtain ⟨_, htext, _⟩ := Decoder.field_eq_ok_iff.1 hdecode
  exact inRange_of_ofText? htext

end Extension

namespace Altitude

/-- An altitude has six digits wherever its token stands. -/
theorem le_of_mem_tokens {text : List Char} {feet : Nat} (hmem : feet ∈ tokens text) :
    feet ≤ 999999 := by
  fun_induction tokens text with
  | case1 a b c d e f rest found htext ih =>
    rcases List.mem_cons.1 hmem with rfl | hmem
    · exact Decimal.le_of_ofText? htext (by simp)
    · exact ih hmem
  | case2 a b c d e f rest _ ih => exact ih hmem
  | case3 c rest _ ih => exact ih hmem
  | case4 => cases hmem

theorem le_of_scan {comment : Bytes} {feet : Nat} (hscan : scan comment = some feet) :
    feet ≤ 999999 := le_of_mem_tokens (List.mem_of_getLast? hscan)

end Altitude

end Aprs
