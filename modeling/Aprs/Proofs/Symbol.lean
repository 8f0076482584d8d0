import Aprs.Proofs.Except
import Aprs.Symbol
import Aprs.Text.Latin1

namespace Aprs.SymbolTable

/-- A table that an octet can stand for: what is drawn over a symbol is a digit or a capital
letter. -/
def HasIdentifier : SymbolTable → Prop
  | primary | alternate => True
  | overlay c => c.isDigit ∨ c.isUpper

instance : DecidablePred HasIdentifier
  | primary | alternate => inferInstanceAs (Decidable True)
  | overlay c => inferInstanceAs (Decidable (c.isDigit ∨ c.isUpper))

theorem HasIdentifier.toNat_lt {table : SymbolTable} (htable : table.HasIdentifier) :
    table.toChar.toNat < 256 := by
  cases table with
  | primary => decide
  | alternate => decide
  | overlay c =>
    rcases htable with hdigit | hupper
    · exact Latin1.toNat_lt_of_isDigit hdigit
    · exact Nat.lt_of_le_of_lt (of_decide_eq_true hupper).2 (by decide)

/-- In a position written out in degrees, a table is named by its own character. -/
theorem ofByte_eq_ok_iff {b : UInt8} {table : SymbolTable} :
    ofByte b = .ok table ↔ table.HasIdentifier ∧ Char.ofUInt8 b = table.toChar := by
  unfold ofByte
  constructor
  · intro hread
    split at hread
    case h_1 hc => cases hread; exact ⟨trivial, hc⟩
    case h_2 hc => cases hread; exact ⟨trivial, hc⟩
    case h_3 =>
      split at hread
      case isTrue hc =>
        cases hread
        exact ⟨by simpa [HasIdentifier] using hc, rfl⟩
      case isFalse => cases hread
  · rintro ⟨htable, hc⟩
    rw [hc]
    cases table with
    | primary => rfl
    | alternate => rfl
    | overlay c =>
      have hoverlay : (c.isDigit || c.isUpper) = true := by simpa [HasIdentifier] using htable
      split
      case h_1 hslash => rw [toChar] at hslash; rw [hslash] at hoverlay; cases hoverlay
      case h_2 hbackslash => rw [toChar] at hbackslash; rw [hbackslash] at hoverlay; cases hoverlay
      case h_3 => exact if_pos hoverlay

theorem hasIdentifier_of_ofByte {b : UInt8} {table : SymbolTable} (hread : ofByte b = .ok table) :
    table.HasIdentifier := (ofByte_eq_ok_iff.1 hread).1

/-- Every character of a run is found at its place in the run. -/
theorem exists_ofNat_of_le (first last : Char) {c : Char} (hlow : first.toNat ≤ c.toNat)
    (hhigh : c.toNat ≤ last.toNat) :
    ∃ d < last.toNat + 1 - first.toNat, Char.ofNat (first.toNat + d) = c := by
  refine ⟨c.toNat - first.toNat, by omega, ?_⟩
  rw [Nat.add_sub_cancel' hlow, Char.ofNat_toNat]

private theorem ofCompressedByte_overlay : ∀ run ∈ [('0', '9'), ('A', 'Z')],
    ∀ d < run.2.toNat + 1 - run.1.toNat,
      let table := overlay (Char.ofNat (run.1.toNat + d))
      (ofCompressedByte table.compressedByte).toOption = some table ∧
        (Char.ofUInt8 table.compressedByte).isDigit = false := by
  decide

/-- A table is read from the octet that it is written with, and that octet begins no latitude
in degrees. -/
theorem ofCompressedByte_compressedByte {table : SymbolTable} (htable : table.HasIdentifier) :
    ofCompressedByte table.compressedByte = .ok table ∧
      (Char.ofUInt8 table.compressedByte).isDigit = false := by
  rw [← toOption_eq_some_iff]
  cases table with
  | primary => decide
  | alternate => decide
  | overlay c =>
    rcases htable with hdigit | hupper
    · obtain ⟨hlow, hhigh⟩ := Char.isDigit_iff_toNat.1 hdigit
      obtain ⟨d, hd, rfl⟩ := exists_ofNat_of_le _ _ hlow hhigh
      exact ofCompressedByte_overlay ('0', '9') (by decide) d hd
    · obtain ⟨hlow, hhigh⟩ := of_decide_eq_true hupper
      obtain ⟨d, hd, rfl⟩ := exists_ofNat_of_le _ _ hlow hhigh
      exact ofCompressedByte_overlay ('A', 'Z') (by decide) d hd

private theorem compressedByte_upper : ∀ d < 'Z'.toNat + 1 - 'A'.toNat,
    let c := Char.ofNat ('A'.toNat + d)
    (overlay c).compressedByte = c.toUInt8 := by
  decide

private theorem compressedByte_letter : ∀ d < 'j'.toNat + 1 - 'a'.toNat,
    let c := Char.ofNat ('a'.toNat + d)
    let sent := Char.ofNat (c.toNat - 'a'.toNat + '0'.toNat)
    sent.isDigit ∧ (overlay sent).compressedByte = c.toUInt8 := by
  decide

/-- An octet stands for a table exactly if the table is written with it. -/
theorem ofCompressedByte_eq_ok_iff {b : UInt8} {table : SymbolTable} :
    ofCompressedByte b = .ok table ↔ table.HasIdentifier ∧ table.compressedByte = b := by
  constructor
  · intro hread
    have hb := Latin1.toUInt8_ofUInt8 b
    unfold ofCompressedByte at hread
    split at hread
    case h_1 hc =>
      rw [hc] at hb
      cases hread
      exact ⟨trivial, hb⟩
    case h_2 hc =>
      rw [hc] at hb
      cases hread
      exact ⟨trivial, hb⟩
    case h_3 =>
      rw [← hb]
      split at hread
      case isTrue hupper =>
        cases hread
        obtain ⟨hlow, hhigh⟩ := of_decide_eq_true hupper
        obtain ⟨d, hd, hc⟩ := exists_ofNat_of_le _ _ hlow hhigh
        rw [← hc] at hupper ⊢
        exact ⟨.inr hupper, compressedByte_upper d hd⟩
      case isFalse =>
        split at hread
        case isTrue hletter =>
          cases hread
          obtain ⟨d, hd, hc⟩ := exists_ofNat_of_le _ _ hletter.1 hletter.2
          obtain ⟨hdigit, hbyte⟩ := compressedByte_letter d hd
          rw [← hc]
          exact ⟨.inl hdigit, hbyte⟩
        case isFalse => cases hread
  · rintro ⟨htable, rfl⟩
    exact (ofCompressedByte_compressedByte htable).1

/-- The octets that name a table in a compressed position: a slash, a backslash, a capital letter,
and a small one from `a` to `j` for each digit. -/
inductive CompressedName : UInt8 → SymbolTable → Prop
  | primary : CompressedName 0x2F primary
  | alternate : CompressedName 0x5C alternate
  | capital {b : UInt8} (hlow : 0x41 ≤ b.toNat) (hhigh : b.toNat ≤ 0x5A) :
      CompressedName b (overlay (Char.ofUInt8 b))
  | digit {b : UInt8} (hlow : 0x61 ≤ b.toNat) (hhigh : b.toNat ≤ 0x6A) :
      CompressedName b (overlay (Nat.digitChar (b.toNat - 0x61)))

private theorem ofCompressedByte_capital : ∀ d < 26,
    let b := UInt8.ofNat (0x41 + d)
    (ofCompressedByte b).toOption = some (overlay (Char.ofUInt8 b)) ∧
      (Char.ofUInt8 b).isDigit = false := by
  decide

private theorem ofCompressedByte_digit : ∀ d < 10,
    let b := UInt8.ofNat (0x61 + d)
    (ofCompressedByte b).toOption = some (overlay (Nat.digitChar (b.toNat - 0x61))) ∧
      (Char.ofUInt8 b).isDigit = false := by
  decide

/-- An octet that names a table is read as that table, and begins no latitude in degrees. -/
theorem CompressedName.ofCompressedByte_eq {b : UInt8} {table : SymbolTable}
    (hname : CompressedName b table) :
    ofCompressedByte b = .ok table ∧ (Char.ofUInt8 b).isDigit = false := by
  have hplace (first : Nat) (hlow : first ≤ b.toNat) : b = UInt8.ofNat (first + (b.toNat - first)) := by
    rw [Nat.add_sub_cancel' hlow, UInt8.ofNat_toNat]
  rw [← toOption_eq_some_iff]
  cases hname with
  | primary => decide
  | alternate => decide
  | capital hlow hhigh =>
    rw [hplace 0x41 hlow]
    exact ofCompressedByte_capital _ (by omega)
  | digit hlow hhigh =>
    rw [hplace 0x61 hlow]
    exact ofCompressedByte_digit _ (by omega)

end Aprs.SymbolTable
