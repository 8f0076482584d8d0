import Aprs.Proofs.Decoder.Text
import Aprs.Proofs.Extension.Height
import Aprs.Proofs.Place

namespace Aprs

/-- The codes up to eight have a direction. -/
theorem Directivity.exists_ofCode?_iff {n : Nat} :
    (∃ directivity, ofCode? n = some directivity) ↔ n ≤ 8 := by
  unfold ofCode?
  constructor
  · rintro ⟨directivity, hcode⟩
    split at hcode
    case isTrue => omega
    case isFalse => exact (Option.ite_none_right_eq_some.1 hcode).1
  · intro hn
    by_cases hzero : n = 0
    · exact ⟨omni, if_pos hzero⟩
    · exact ⟨degrees (45 * n), by rw [if_neg hzero, if_pos hn]⟩

theorem Directivity.InRange.code_le {directivity : Directivity} (hrange : directivity.InRange) :
    directivity.code ≤ 8 :=
  exists_ofCode?_iff.1 ⟨directivity, ofCode?_eq_some_iff.2 ⟨hrange, rfl⟩⟩

namespace Extension

theorem toNat_heightCode {code : Nat} (hcode : code ≤ 28) :
    (heightCode (10 * 2 ^ code)).toNat = 0x30 + code := by
  have hlog : Nat.log2 (10 * 2 ^ code / 10) = code := by
    rw [Nat.mul_div_cancel_left _ (by decide), Nat.log2_two_pow]
  have hvalid : ('0'.toNat + code).isValidChar := by
    have hzero : '0'.toNat = 0x30 := rfl
    exact .inl (by omega)
  unfold heightCode
  rw [hlog, Char.ofNat, dif_pos hvalid]
  rfl

/-- Each height that has a code has one code only. -/
theorem height?_eq_some_iff_heightCode {c : Char} {feet : Nat} :
    height? c = some feet ↔ IsHeight feet ∧ heightCode feet = c := by
  rw [height?_eq_some_iff]
  constructor
  · rintro ⟨code, hcode, hc, rfl⟩
    refine ⟨⟨code, hcode, rfl⟩, ?_⟩
    rw [← Char.toNat_inj, toNat_heightCode hcode, hc]
  · rintro ⟨⟨code, hcode, rfl⟩, rfl⟩
    exact ⟨code, hcode, toNat_heightCode hcode, rfl⟩

theorem exists_height?_iff {c : Char} :
    (∃ feet, height? c = some feet) ↔ 0x30 ≤ c.toNat ∧ c.toNat ≤ 0x4C := by
  simp only [height?_eq_some_iff]
  constructor
  · rintro ⟨_, code, hcode, hc, _⟩
    omega
  · rintro ⟨hlow, hhigh⟩
    exact ⟨_, c.toNat - 0x30, by omega, by omega, rfl⟩

/-- A power that is the square of a digit tells the digit. -/
theorem powerCode_square : ∀ n ≤ 9, powerCode (n * n) = n := by decide

/-- The four codes that power and signal reports share. -/
def codes (lead feet gain : Nat) (directivity : Directivity) : List Char :=
  Decimal.padded 1 lead ++ heightCode feet :: Decimal.padded 1 gain ++
    Decimal.padded 1 directivity.code

theorem codes_eq_iff {lead feet gain : Nat} {directivity : Directivity} {a b c d : Char} :
    codes lead feet gain directivity = [a, b, c, d] ↔
      Decimal.padded 1 lead = [a] ∧ heightCode feet = b ∧ Decimal.padded 1 gain = [c] ∧
        Decimal.padded 1 directivity.code = [d] := by
  simp [codes, Decimal.padded]

/-- Four codes are read exactly as they are written. -/
theorem readCodes?_eq_some_iff_codes {a b c d : Char} {lead feet gain : Nat}
    {directivity : Directivity} :
    readCodes? a b c d = some (lead, feet, gain, directivity) ↔
      (lead ≤ 9 ∧ IsHeight feet ∧ gain ≤ 9 ∧ directivity.InRange) ∧
        codes lead feet gain directivity = [a, b, c, d] := by
  have hdigit {x : Char} {n : Nat} :
      Decimal.ofText? [x] = some n ↔ n ≤ 9 ∧ Decimal.padded 1 n = [x] :=
    (Decimal.ofText?_eq_some_iff_padded 1 rfl).trans (and_congr_left fun _ => Nat.lt_succ_iff)
  rw [readCodes?_eq_some_iff, codes_eq_iff]
  simp only [hdigit, height?_eq_some_iff_heightCode, Directivity.ofCode?_eq_some_iff]
  constructor
  · rintro ⟨⟨hlead, ha⟩, ⟨hfeet, hb⟩, ⟨hgain, hc⟩, n, ⟨_, hd⟩, hdirectivity, rfl⟩
    exact ⟨⟨hlead, hfeet, hgain, hdirectivity⟩, ha, hb, hc, hd⟩
  · rintro ⟨⟨hlead, hfeet, hgain, hdirectivity⟩, ha, hb, hc, hd⟩
    have hcode := hdirectivity.code_le
    exact ⟨⟨hlead, ha⟩, ⟨hfeet, hb⟩, ⟨hgain, hc⟩, _, ⟨by omega, hd⟩, hdirectivity, rfl⟩

theorem text_power (watts feet gain : Nat) (directivity : Directivity) :
    (power watts feet gain directivity).text =
      ['P', 'H', 'G'] ++ codes (powerCode watts) feet gain directivity := rfl

theorem text_signal (strength feet gain : Nat) (directivity : Directivity) :
    (signal strength feet gain directivity).text =
      ['D', 'F', 'S'] ++ codes strength feet gain directivity := rfl

/-- What an extension was read from is its text, so no two texts are read as one extension. -/
theorem text_of_reads {text : List Char} {e : Extension} (hreads : Reads text e) :
    e.text = text := by
  have hpadded {digits : List Char} {n : Nat} (hdigits : Decimal.ofText? digits = some n) :
      Decimal.padded digits.length n = digits :=
    ((Decimal.ofText?_eq_some_iff_padded _ rfl).1 hdigits).2
  cases hreads with
  | radioRange hmiles => exact congrArg (['R', 'N', 'G'] ++ ·) (hpadded hmiles)
  | @power _ _ _ _ lead _ _ _ hcodes =>
    obtain ⟨⟨hlead, _⟩, hcodes⟩ := readCodes?_eq_some_iff_codes.1 hcodes
    rw [text_power, powerCode_square lead hlead, hcodes]
    rfl
  | signal hcodes =>
    rw [text_signal, (readCodes?_eq_some_iff_codes.1 hcodes).2]
    rfl
  | area hkind hcolor =>
    exact congrArg₂ (fun kind color => 'T' :: kind ++ '/' :: 'C' :: color) (hpadded hkind)
      (hpadded hcolor)
  | directionSpeed hdegrees hknots =>
    exact congrArg₂ (fun degrees knots => degrees ++ '/' :: knots) (hpadded hdegrees)
      (hpadded hknots)

/-- What is in range is read from its text. -/
theorem InRange.reads_text {e : Extension} (hrange : e.InRange) : Reads e.text e := by
  cases e with
  | radioRange miles => exact .radioRange (Decimal.ofText?_padded 4 (Nat.lt_succ_of_le hrange))
  | power watts feet gain directivity =>
    obtain ⟨⟨lead, hlead, rfl⟩, hrest⟩ := hrange
    rw [text_power, powerCode_square lead hlead]
    exact .power (readCodes?_eq_some_iff_codes.2 ⟨⟨hlead, hrest⟩, rfl⟩)
  | signal strength feet gain directivity =>
    exact .signal (readCodes?_eq_some_iff_codes.2 ⟨hrange, rfl⟩)
  | area kind color =>
    exact .area (Decimal.ofText?_padded 2 (Nat.lt_succ_of_le hrange.1))
      (Decimal.ofText?_padded 2 (Nat.lt_succ_of_le hrange.2))
  | directionSpeed degrees knots =>
    exact .directionSpeed (Decimal.ofText?_padded 3 (Nat.lt_succ_of_le hrange.1))
      (Decimal.ofText?_padded 3 (Nat.lt_succ_of_le hrange.2))

/-- What is read is the text of an extension, and nothing of it is lost. -/
theorem ofText?_eq_some_iff_text {text : List Char} {e : Extension} :
    ofText? text = some e ↔ e.InRange ∧ e.text = text := by
  constructor
  · intro htext
    exact ⟨inRange_of_ofText? htext, text_of_reads (reads_of_ofText? htext)⟩
  · rintro ⟨hrange, rfl⟩
    exact ofText?_eq_some_iff.2 hrange.reads_text

/-- Characters that the four codes of a report may be. -/
structure AreCodes (lead height gain directivity : Char) : Prop where
  lead_isDigit : lead.isDigit
  height_bounds : 0x30 ≤ height.toNat ∧ height.toNat ≤ 0x4C
  gain_isDigit : gain.isDigit
  directivity_bounds : 0x30 ≤ directivity.toNat ∧ directivity.toNat ≤ 0x38

/-- The texts that hold an extension, by their characters alone. -/
inductive IsShaped : List Char → Prop
  | radioRange {a b c d : Char} (hmiles : ∀ x ∈ [a, b, c, d], x.isDigit) :
    IsShaped ['R', 'N', 'G', a, b, c, d]
  | power {a b c d : Char} (hcodes : AreCodes a b c d) : IsShaped ['P', 'H', 'G', a, b, c, d]
  | signal {a b c d : Char} (hcodes : AreCodes a b c d) : IsShaped ['D', 'F', 'S', a, b, c, d]
  | area {a b c d : Char} (hkind : ∀ x ∈ [a, b], x.isDigit) (hcolor : ∀ x ∈ [c, d], x.isDigit) :
    IsShaped ['T', a, b, '/', 'C', c, d]
  | directionSpeed {a b c d e f : Char} (hdegrees : ∀ x ∈ [a, b, c], x.isDigit)
    (hknots : ∀ x ∈ [d, e, f], x.isDigit) : IsShaped [a, b, c, '/', d, e, f]

/-- Four codes are read exactly if each has a character of its own range. -/
theorem exists_readCodes?_iff {a b c d : Char} :
    (∃ codes, readCodes? a b c d = some codes) ↔ AreCodes a b c d := by
  have hzero : '0'.toNat = 0x30 := rfl
  have hnine : '9'.toNat = 0x39 := rfl
  constructor
  · rintro ⟨⟨lead, feet, gain, directivity⟩, hcodes⟩
    obtain ⟨hlead, hheight, hgain, n, hn, hdirectivity⟩ := readCodes?_eq_some_iff.1 hcodes
    obtain ⟨hd, rfl⟩ := Decimal.ofText?_singleton_eq_some_iff.1 hn
    have hlast := Directivity.exists_ofCode?_iff.1 ⟨_, hdirectivity⟩
    rw [Char.isDigit_iff_toNat] at hd
    exact ⟨(Decimal.ofText?_singleton_eq_some_iff.1 hlead).1, exists_height?_iff.1 ⟨_, hheight⟩,
      (Decimal.ofText?_singleton_eq_some_iff.1 hgain).1, by omega⟩
  · rintro ⟨hlead, hheight, hgain, hlow, hhigh⟩
    obtain ⟨feet, hfeet⟩ := exists_height?_iff.2 hheight
    obtain ⟨directivity, hdirectivity⟩ :=
      Directivity.exists_ofCode?_iff.2 (show d.toNat - 0x30 ≤ 8 by omega)
    have hd : d.isDigit := by
      rw [Char.isDigit_iff_toNat]
      omega
    exact ⟨_, readCodes?_eq_some_iff.2 ⟨Decimal.ofText?_singleton_eq_some_iff.2 ⟨hlead, rfl⟩, hfeet,
      Decimal.ofText?_singleton_eq_some_iff.2 ⟨hgain, rfl⟩, _,
      Decimal.ofText?_singleton_eq_some_iff.2 ⟨hd, rfl⟩, hdirectivity⟩⟩

/-- The texts that an extension is read from, by their characters alone. -/
theorem exists_ofText?_iff {text : List Char} :
    (∃ e, ofText? text = some e) ↔ IsShaped text := by
  simp only [ofText?_eq_some_iff]
  constructor
  · rintro ⟨e, hreads⟩
    cases hreads with
    | radioRange hmiles => exact .radioRange (Decimal.isDigit_of_ofText? hmiles)
    | power hcodes => exact .power (exists_readCodes?_iff.1 ⟨_, hcodes⟩)
    | signal hcodes => exact .signal (exists_readCodes?_iff.1 ⟨_, hcodes⟩)
    | area hkind hcolor =>
      exact .area (Decimal.isDigit_of_ofText? hkind) (Decimal.isDigit_of_ofText? hcolor)
    | directionSpeed hdegrees hknots =>
      exact .directionSpeed (Decimal.isDigit_of_ofText? hdegrees)
        (Decimal.isDigit_of_ofText? hknots)
  · intro hshaped
    cases hshaped with
    | radioRange hmiles => exact ⟨_, .radioRange (Decimal.ofText?_of_isDigit hmiles)⟩
    | power hcodes =>
      obtain ⟨_, hcodes⟩ := exists_readCodes?_iff.2 hcodes
      exact ⟨_, .power hcodes⟩
    | signal hcodes =>
      obtain ⟨_, hcodes⟩ := exists_readCodes?_iff.2 hcodes
      exact ⟨_, .signal hcodes⟩
    | area hkind hcolor =>
      exact ⟨_, .area (Decimal.ofText?_of_isDigit hkind) (Decimal.ofText?_of_isDigit hcolor)⟩
    | directionSpeed hdegrees hknots =>
      exact ⟨_, .directionSpeed (Decimal.ofText?_of_isDigit hdegrees)
        (Decimal.ofText?_of_isDigit hknots)⟩

theorem length_encode_text (e : Extension) : (Latin1.encode e.text).length = 7 := by
  cases e <;> rfl

theorem AreCodes.toNat_lt {a b c d : Char} (hcodes : AreCodes a b c d) :
    ∀ x ∈ [a, b, c, d], x.toNat < 256 := by
  obtain ⟨ha, ⟨_, hb⟩, hc, _, hd⟩ := hcodes
  have ha := Latin1.toNat_lt_of_isDigit ha
  have hc := Latin1.toNat_lt_of_isDigit hc
  simp only [List.mem_cons, List.not_mem_nil, or_false, forall_eq_or_imp, forall_eq]
  omega

theorem IsShaped.toNat_lt {text : List Char} (hshaped : IsShaped text) :
    ∀ c ∈ text, c.toNat < 256 := by
  have hdigits {front : List Char} (hfront : ∀ c ∈ front, c.isDigit) :
      ∀ c ∈ front, c.toNat < 256 := fun c hc => Latin1.toNat_lt_of_isDigit (hfront c hc)
  cases hshaped with
  | radioRange hmiles => simpa using hdigits hmiles
  | power hcodes => simpa using hcodes.toNat_lt
  | signal hcodes => simpa using hcodes.toNat_lt
  | area hkind hcolor =>
    exact List.forall_mem_cons.2 ⟨by decide, List.forall_mem_append.2 ⟨hdigits hkind,
      List.forall_mem_cons.2 ⟨by decide, List.forall_mem_cons.2 ⟨by decide, hdigits hcolor⟩⟩⟩⟩
  | directionSpeed hdegrees hknots =>
    exact List.forall_mem_append.2
      ⟨hdigits hdegrees, List.forall_mem_cons.2 ⟨by decide, hdigits hknots⟩⟩

theorem isWriting_text : Decoder.IsWriting ofText? 7 IsShaped InRange Extension.text where
  read_iff _ _ := ofText?_eq_some_iff_text
  exists_iff _ := exists_ofText?_iff
  length_eq _ hshaped := by cases hshaped <;> rfl
  toNat_lt _ := IsShaped.toNat_lt

theorem exists_decode_iff {b : Bytes} :
    (∃ result, decode b = .ok result) ↔ 7 ≤ b.length ∧ IsShaped (Latin1.decode (b.take 7)) :=
  isWriting_text.exists_field_iff

theorem decode_eq_error_iff {b : Bytes} {error : DecodeError} :
    decode b = .error error ↔
      ¬ (7 ≤ b.length ∧ IsShaped (Latin1.decode (b.take 7))) ∧ error = .extension (b.take 7) :=
  isWriting_text.field_error_iff

theorem runAt_eq_ok_iff {b : Bytes} {cursor stop : Nat} {e : Extension} :
    decode.runAt b cursor = .ok (e, stop) ↔
      e.InRange ∧ Latin1.encode e.text = (b.drop cursor).take 7 ∧ stop = cursor + 7 :=
  isWriting_text.runAt_ok_iff (by decide)

/-- The octets that hold an extension are known by their shape, and an extension and its octets tell
each other. Where octets of no such shape stand they are refused. The computation of a height fits
its registers wherever there is one. -/
theorem decode_language (b : Bytes) (cursor : Nat) :
    ((∃ result, decode.runAt b cursor = .ok result) ↔
      cursor + 7 ≤ b.length ∧ IsShaped (Latin1.decode ((b.drop cursor).take 7))) ∧
    (∀ error, decode.runAt b cursor = .error error ↔
      ¬ (cursor + 7 ≤ b.length ∧ IsShaped (Latin1.decode ((b.drop cursor).take 7))) ∧
        error = .extension ((b.drop cursor).take 7)) ∧
    (∀ e stop, decode.runAt b cursor = .ok (e, stop) ↔
      e.InRange ∧ Latin1.encode e.text = (b.drop cursor).take 7 ∧ stop = cursor + 7) ∧
    (∀ e : Extension, e.InRange → decode.runAt (Latin1.encode e.text) 0 = .ok (e, 7)) ∧
    ∀ octet, (heightInRegisters? octet).map UInt32.toNat = height? (Char.ofUInt8 octet) ∧
      ∀ feet, heightInRegisters? octet = some feet ↔
        0x30 ≤ octet ∧ octet ≤ 0x4C ∧ feet.toNat = 10 * 2 ^ (octet.toNat - 0x30) := by
  have hroom : cursor + 7 ≤ b.length ↔ 7 ≤ (b.drop cursor).length := by
    rw [List.length_drop]
    omega
  rw [hroom]
  refine ⟨Decoder.exists_runAt_iff.trans exists_decode_iff, fun error => ?_,
    fun e stop => runAt_eq_ok_iff, fun e hrange => runAt_eq_ok_iff.2 ⟨hrange, ?_, rfl⟩,
    fun octet => ⟨map_heightInRegisters? octet, fun feet => heightInRegisters?_eq_some_iff⟩⟩
  · rw [Decoder.runAt_eq_error_iff_of_unplaced (decode_unplaced _), decode_eq_error_iff]
  · exact (List.take_of_length_le (Nat.le_of_eq (length_encode_text e))).symm

/-- The last height that fits, and the first that does not. -/
example : decode.runAt (Latin1.ascii "PHG9L08") 0 =
      .ok (.power 81 2684354560 0 (.degrees 360), 7) ∧
    decode.runAt (Latin1.ascii "PHG9M08") 0 = .error (.extension (Latin1.ascii "PHG9M08")) :=
  ⟨rfl, rfl⟩

end Extension

end Aprs
