import Aprs.Proofs.Range.Field
import Aprs.Proofs.Register

namespace Aprs

namespace Extension

/-- The height of a code as registers compute it. -/
def heightInRegisters? (octet : UInt8) : Option UInt32 := do
  let code ← difference? octet 0x30
  let doubled ← power? 2 code.toNat
  product? doubled 10

/-- The computation in registers succeeds for the 29 codes whose height fits 32 bits, and is exact
there. -/
theorem heightInRegisters?_eq_some_iff {octet : UInt8} {feet : UInt32} :
    heightInRegisters? octet = some feet ↔
      0x30 ≤ octet ∧ octet ≤ 0x4C ∧ feet.toNat = 10 * 2 ^ (octet.toNat - 0x30) := by
  have hzero : 0x30 ≤ octet ↔ 0x30 ≤ octet.toNat := Iff.rfl
  have hlast : octet ≤ 0x4C ↔ octet.toNat ≤ 0x4C := Iff.rfl
  have htwo : (2 : UInt32).toNat = 2 := rfl
  have hten : (10 : UInt32).toNat = 10 := rfl
  have hbase : (0x30 : UInt8).toNat = 0x30 := rfl
  have hfeet := feet.toNat_lt
  simp only [heightInRegisters?, Option.bind_eq_bind, Option.bind_eq_some_iff,
    difference?_eq_some_iff, product?_eq_some_iff,
    power?_eq_some_iff (x := 2) (by decide), htwo, hten, hbase, hzero, hlast]
  constructor
  · rintro ⟨code, ⟨hlow, hcode⟩, doubled, hdoubled, hproduct⟩
    rw [← hdoubled, hcode, Nat.mul_comm] at hproduct
    have hfits := height_fits_iff.1 (hproduct ▸ hfeet)
    exact ⟨hlow, by omega, hproduct.symm⟩
  · rintro ⟨hlow, hhigh, hproduct⟩
    have hcode : (octet - 0x30).toNat = octet.toNat - 0x30 := UInt8.toNat_sub_of_le _ _ hlow
    have hfits := height_fits_iff.2 (show octet.toNat - 0x30 ≤ 28 by omega)
    have hdoubled : (UInt32.ofNat (2 ^ (octet.toNat - 0x30))).toNat = 2 ^ (octet.toNat - 0x30) :=
      UInt32.toNat_ofNat_of_lt' (Nat.lt_of_le_of_lt (Nat.le_mul_of_pos_left _ (by decide)) hfits)
    refine ⟨octet - 0x30, ⟨hlow, hcode⟩, UInt32.ofNat (2 ^ (octet.toNat - 0x30)), ?_, ?_⟩
    · rw [hcode, hdoubled]
    · rw [hdoubled, hproduct, Nat.mul_comm]

/-- The checks of the registers lose no height that fits and let none through that does not. -/
theorem map_heightInRegisters? (octet : UInt8) :
    (heightInRegisters? octet).map UInt32.toNat = height? (Char.ofUInt8 octet) := by
  have hoctet : (Char.ofUInt8 octet).toNat = octet.toNat := rfl
  have hzero : 0x30 ≤ octet ↔ 0x30 ≤ octet.toNat := Iff.rfl
  have hlast : octet ≤ 0x4C ↔ octet.toNat ≤ 0x4C := Iff.rfl
  refine Option.ext fun feet => ?_
  simp only [Option.map_eq_some_iff, heightInRegisters?_eq_some_iff, height?_eq_some_iff, hoctet,
    hzero, hlast]
  constructor
  · rintro ⟨register, ⟨hlow, hhigh, hregister⟩, rfl⟩
    exact ⟨octet.toNat - 0x30, by omega, by omega, hregister⟩
  · rintro ⟨code, hcode, hplace, rfl⟩
    have hfits := height_fits_iff.2 hcode
    have hregister : (UInt32.ofNat (10 * 2 ^ code)).toNat = 10 * 2 ^ code :=
      UInt32.toNat_ofNat_of_lt' hfits
    refine ⟨_, ⟨by omega, by omega, ?_⟩, hregister⟩
    rw [hregister, hplace, Nat.add_sub_cancel_left]

end Extension

end Aprs
