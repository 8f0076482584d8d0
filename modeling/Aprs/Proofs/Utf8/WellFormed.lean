import Aprs.Proofs.Utf8

namespace Aprs.Utf8

theorem Lead.ofByte?_following : ∀ n < 66, Lead.ofByte? (UInt8.ofNat (n + 128)) = none := by
  decide

theorem Lead.ofByte?_beyond : ∀ n < 11, Lead.ofByte? (UInt8.ofNat (n + 245)) = none := by
  decide

/-- The first octets of characters, by how many octets they announce. -/
inductive Lead.Announces : UInt8 → Lead → Prop where
  | one {n : Nat} (hn : n < 128) : Announces (UInt8.ofNat n) ⟨0, 0x80, 0xBF, n⟩
  | two {n : Nat} (hn : n < 32) (hlow : 2 ≤ n) :
      Announces (UInt8.ofNat (n + 192)) ⟨1, 0x80, 0xBF, n⟩
  | three {n : Nat} (hn : n < 16) :
      Announces (UInt8.ofNat (n + 224))
        ⟨2, if n = 0 then 0xA0 else 0x80, if n = 13 then 0x9F else 0xBF, n⟩
  | four {n : Nat} (hn : n < 5) :
      Announces (UInt8.ofNat (n + 240))
        ⟨3, if n = 0 then 0x90 else 0x80, if n = 4 then 0x8F else 0xBF, n⟩

/-- An octet that begins a character announces one to four octets. -/
theorem Lead.announces {b : UInt8} {lead : Lead} (hlead : Lead.ofByte? b = some lead) :
    Announces b lead := by
  obtain ⟨n, hn, rfl⟩ : ∃ n < 256, b = UInt8.ofNat n :=
    ⟨b.toNat, b.toNat_lt, UInt8.ofNat_toNat.symm⟩
  by_cases hone : n < 128
  · obtain rfl := Option.some.inj (hlead.symm.trans (ofByte?_one n hone))
    exact .one hone
  by_cases hgap : n < 194
  · obtain ⟨m, rfl⟩ := Nat.exists_eq_add_of_le' (Nat.le_of_not_lt hone)
    cases hlead.symm.trans (ofByte?_following m (by omega))
  by_cases htwo : n < 224
  · have hlow : 192 ≤ n := by omega
    obtain ⟨m, rfl⟩ := Nat.exists_eq_add_of_le' hlow
    obtain rfl := Option.some.inj (hlead.symm.trans (ofByte?_two m (by omega) (by omega)))
    exact .two (by omega) (by omega)
  by_cases hthree : n < 240
  · obtain ⟨m, rfl⟩ := Nat.exists_eq_add_of_le' (Nat.le_of_not_lt htwo)
    obtain rfl := Option.some.inj (hlead.symm.trans (ofByte?_three m (by omega)))
    exact .three (by omega)
  by_cases hfour : n < 245
  · obtain ⟨m, rfl⟩ := Nat.exists_eq_add_of_le' (Nat.le_of_not_lt hthree)
    obtain rfl := Option.some.inj (hlead.symm.trans (ofByte?_four m (by omega)))
    exact .four (by omega)
  · obtain ⟨m, rfl⟩ := Nat.exists_eq_add_of_le' (Nat.le_of_not_lt hfour)
    cases hlead.symm.trans (ofByte?_beyond m (by omega))

/-- An octet that was read behind a first one holds six bits of the code point. -/
theorem readFollowing_succ_eq_some {low high : UInt8} (hlow : 0x80 ≤ low) {code n : Nat}
    {b rest : Bytes} {c : Char} (hread : readFollowing low high code (n + 1) b = (some c, rest)) :
    ∃ bits tail, b = UInt8.ofNat (bits + 128) :: tail ∧ low.toNat ≤ bits + 128 ∧
      bits + 128 ≤ high.toNat ∧
      readFollowing 0x80 0xBF (64 * code + bits) n tail = (some c, rest) := by
  cases b with
  | nil => cases hread
  | cons octet tail =>
    rw [readFollowing] at hread
    split at hread
    case isTrue hbounds =>
      rw [UInt8.le_iff_toNat_le, UInt8.le_iff_toNat_le] at hbounds
      have hhigh : 128 ≤ octet.toNat := Nat.le_trans hlow hbounds.1
      refine ⟨octet.toNat - 128, tail, ?_, by omega, by omega, hread⟩
      rw [Nat.sub_add_cancel hhigh, UInt8.ofNat_toNat]
    case isFalse => cases hread

theorem readFollowing_zero_eq_some {low high : UInt8} {code : Nat} {b rest : Bytes} {c : Char}
    (hread : readFollowing low high code 0 b = (some c, rest)) (hvalid : code.isValidChar) :
    c.toNat = code ∧ b = rest := by
  obtain ⟨hchar, hrest⟩ := Prod.mk.inj hread
  refine ⟨?_, hrest⟩
  rw [← Option.some.inj hchar, Char.ofNat, dif_pos hvalid]
  rfl

/-- A character is written with the octets that it was read from. -/
theorem utf8EncodeChar_of_read {b : UInt8} {lead : Lead} {rest rest' : Bytes} {c : Char}
    (hlead : Lead.ofByte? b = some lead)
    (hread : readFollowing lead.low lead.high lead.bits lead.following rest = (some c, rest')) :
    String.utf8EncodeChar c ++ rest' = b :: rest := by
  unfold String.utf8EncodeChar
  simp only [Char.toNat_val]
  cases Lead.announces hlead with
  | one hn =>
    dsimp only at hread
    obtain ⟨hc, rfl⟩ := readFollowing_zero_eq_some hread (.inl (by omega))
    rw [if_pos (by omega), hc]
    rfl
  | @two n hn hlow =>
    dsimp only at hread
    obtain ⟨x, tail, rfl, hx, hx', hread⟩ := readFollowing_succ_eq_some (by simp) hread
    simp only [UInt8.reduceToNat] at hx hx'
    obtain ⟨hc, rfl⟩ := readFollowing_zero_eq_some hread (.inl (by omega))
    have hfirst : c.toNat / 64 % 32 = n := by omega
    have hsecond : c.toNat % 64 = x := by omega
    rw [if_neg (by omega), if_pos (by omega), hfirst, hsecond]
    rfl
  | @three n hn =>
    dsimp only at hread
    obtain ⟨x, tail, rfl, hx, hx', hread⟩ := readFollowing_succ_eq_some (by split <;> simp) hread
    obtain ⟨y, tail, rfl, hy, hy', hread⟩ := readFollowing_succ_eq_some (by simp) hread
    simp only [apply_ite UInt8.toNat, UInt8.reduceToNat] at hx hx' hy hy'
    have hbounds : x < 64 ∧ (n = 0 → 32 ≤ x) ∧ (n = 13 → x < 32) := by
      split at hx <;> split at hx' <;> omega
    obtain ⟨hc, rfl⟩ := readFollowing_zero_eq_some hread (by unfold Nat.isValidChar; omega)
    have hfirst : c.toNat / 4096 % 16 = n := by omega
    have hsecond : c.toNat / 64 % 64 = x := by omega
    have hthird : c.toNat % 64 = y := by omega
    rw [if_neg (by omega), if_neg (by omega), if_pos (by omega), hfirst, hsecond, hthird]
    rfl
  | @four n hn =>
    dsimp only at hread
    obtain ⟨x, tail, rfl, hx, hx', hread⟩ := readFollowing_succ_eq_some (by split <;> simp) hread
    obtain ⟨y, tail, rfl, hy, hy', hread⟩ := readFollowing_succ_eq_some (by simp) hread
    obtain ⟨z, tail, rfl, hz, hz', hread⟩ := readFollowing_succ_eq_some (by simp) hread
    simp only [apply_ite UInt8.toNat, UInt8.reduceToNat] at hx hx' hy hy' hz hz'
    have hbounds : x < 64 ∧ (n = 0 → 16 ≤ x) ∧ (n = 4 → x < 16) := by
      split at hx <;> split at hx' <;> omega
    obtain ⟨hc, rfl⟩ := readFollowing_zero_eq_some hread (.inr (by omega))
    have hfirst : c.toNat / 262144 % 8 = n := by omega
    have hsecond : c.toNat / 4096 % 64 = x := by omega
    have hthird : c.toNat / 64 % 64 = y := by omega
    have hfourth : c.toNat % 64 = z := by omega
    rw [if_neg (by omega), if_neg (by omega), if_neg (by omega), hfirst, hsecond, hthird, hfourth]
    rfl

/-- Octets that are scanned as characters throughout are the encoding of these characters. -/
theorem encode_of_scan {text : List Char} {b : Bytes} (hscan : scan b = text.map some) :
    encode text = b := by
  induction text generalizing b with
  | nil =>
    cases b with
    | nil => rfl
    | cons octet rest =>
      rw [scan] at hscan
      split at hscan <;> cases hscan
  | cons c text ih =>
    cases b with
    | nil =>
      rw [scan] at hscan
      cases hscan
    | cons octet rest =>
      cases hlead : Lead.ofByte? octet with
      | none =>
        rw [scan, hlead] at hscan
        cases hscan
      | some lead =>
        rw [scan_cons hlead, List.map_cons, List.cons.injEq] at hscan
        obtain ⟨hchar, hrest⟩ := hscan
        rw [encode_cons, ih hrest]
        exact utf8EncodeChar_of_read hlead (Prod.ext hchar rfl)

theorem mapM_id_eq_some_iff {α : Type} {l : List (Option α)} {found : List α} :
    l.mapM id = some found ↔ l = found.map some := by
  induction l generalizing found with
  | nil => cases found <;> simp
  | cons x l ih =>
    cases x with
    | none => cases found <;> simp [List.mapM_cons]
    | some x =>
      cases found with
      | nil => simp [List.mapM_cons, Option.bind_eq_some_iff]
      | cons y found => simp [List.mapM_cons, Option.bind_eq_some_iff, ih, and_assoc, and_comm]

/-- The octets that are read as a text are the ones that it is written with, and no others. -/
theorem decode?_eq_some_iff {b : Bytes} {text : List Char} :
    decode? b = some text ↔ encode text = b := by
  constructor
  · intro hdecode
    exact encode_of_scan (mapM_id_eq_some_iff.1 hdecode)
  · rintro rfl
    exact decode?_encode text

theorem encode_injective {s t : List Char} (hencode : encode s = encode t) : s = t := by
  have hdecode := decode?_encode s
  rw [hencode, decode?_encode] at hdecode
  exact (Option.some.inj hdecode).symm

/-- A text loses nothing if malformed octets are replaced in it. -/
theorem decodeLossy_encode (text : List Char) : decodeLossy (encode text) = text := by
  rw [decodeLossy, scan_encode, List.map_map]
  exact List.map_id text

/-- Octets that a text is written with. -/
def IsText (b : Bytes) : Prop := ∃ text, encode text = b

theorem isText_iff {b : Bytes} : IsText b ↔ ∃ text, decode? b = some text := by
  simp only [decode?_eq_some_iff, IsText]

theorem utf8EncodeChar_ofUInt8 {x : UInt8} (hx : x < 0x80) :
    String.utf8EncodeChar (Char.ofUInt8 x) = [x] := by
  have hsmall : (Char.ofUInt8 x).val.toNat ≤ 127 := Nat.le_of_lt_succ hx
  unfold String.utf8EncodeChar
  rw [if_pos hsmall]
  exact congrArg (fun octet => [octet]) UInt8.ofNat_toNat

/-- The octets of a text end in an octet below 0x80 if the text ends in its character. -/
theorem getLast?_encode_iff {x : UInt8} (hx : x < 0x80) {text : List Char} :
    (encode text).getLast? = some x ↔ text.getLast? = some (Char.ofUInt8 x) := by
  constructor
  · exact getLast?_of_encode hx
  · intro hlast
    obtain ⟨front, rfl⟩ := List.getLast?_eq_some_iff.1 hlast
    have hend : encode [Char.ofUInt8 x] = [x] :=
      (List.append_nil _).trans (utf8EncodeChar_ofUInt8 hx)
    rw [encode_append, hend, List.getLast?_concat]

/-- An octet below 0x80 is a character of its own, so a text can be cut on both sides of it. -/
theorem IsText.of_append_cons {x : UInt8} (hx : x < 0x80) {a b : Bytes}
    (htext : IsText (a ++ x :: b)) : IsText a ∧ IsText b := by
  obtain ⟨text, htext⟩ := htext
  induction text generalizing a with
  | nil => exact absurd htext.symm (List.append_ne_nil_of_right_ne_nil a (List.cons_ne_nil x b))
  | cons c text ih =>
    rw [encode_cons, List.append_eq_append_iff] at htext
    rcases htext with ⟨front, rfl, htext⟩ | ⟨back, hc, htext⟩
    · obtain ⟨⟨before, rfl⟩, hb⟩ := ih htext
      exact ⟨⟨c :: before, rfl⟩, hb⟩
    · -- The octet is in what the first character is written with, or just behind it.
      cases back with
      | nil =>
        obtain ⟨_, hb⟩ := ih (a := []) htext.symm
        rw [List.append_nil] at hc
        exact ⟨⟨[c], hc ▸ List.append_nil _⟩, hb⟩
      | cons y back =>
        obtain ⟨rfl, rfl⟩ := List.cons.inj htext
        have hmem : x ∈ String.utf8EncodeChar c := hc ▸ List.mem_append_right a List.mem_cons_self
        rw [(mem_utf8EncodeChar_iff hx).1 hmem, utf8EncodeChar_ofUInt8 hx] at hc
        have hparts : a = [] ∧ back = [] := by
          have hlength := congrArg List.length hc
          simp only [List.length_append, List.length_cons, List.length_nil] at hlength
          exact ⟨List.length_eq_zero_iff.1 (by omega), List.length_eq_zero_iff.1 (by omega)⟩
        obtain ⟨rfl, rfl⟩ := hparts
        exact ⟨⟨[], rfl⟩, text, rfl⟩

end Aprs.Utf8
