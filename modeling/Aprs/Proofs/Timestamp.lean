import Aprs.Proofs.Decimal
import Aprs.Proofs.Decoder.Text
import Aprs.Timestamp

namespace Aprs.Timestamp

/-- Only the longest form has a month. -/
def isMonthly : Timestamp → Bool
  | monthly .. => true
  | _ => false

/-- The numbers of a time in the order in which they are sent. -/
def parts : Timestamp → List Nat
  | zulu day hour minute => [day, hour, minute]
  | clock hour minute second => [hour, minute, second]
  | localTime day hour minute => [day, hour, minute]
  | monthly month day hour minute => [month, day, hour, minute]

/-- Two digits are all that holds of a number in a time: no calendar is asked. -/
def InRange (t : Timestamp) : Prop := ∀ n ∈ t.parts, n ≤ 99

/-- Of a number that a body holds, the two places and the two digits are the same. -/
theorem pair_eq_padded {n : Nat} (hn : n ≤ 99) : text.pair n = Decimal.padded 2 n :=
  Decimal.zeroFilled_eq_padded (by decide) (Nat.lt_succ_of_le hn)

/-- No digit of a longer number is lost. -/
example : (zulu 9 100 5).text = "0910005z".toList := by decide

theorem ofText?_pair_iff {a b : Char} {n : Nat} :
    Decimal.ofText? [a, b] = some n ↔ n ≤ 99 ∧ text.pair n = [a, b] := by
  have hroom : n < 10 ^ 2 ↔ n ≤ 99 := Nat.lt_succ_iff
  rw [Decimal.ofText?_eq_some_iff_padded 2 rfl, hroom]
  refine and_congr_right fun hn => ?_
  rw [pair_eq_padded hn]

theorem exists_pair {n : Nat} (hn : n ≤ 99) :
    ∃ a b, text.pair n = [a, b] ∧ Decimal.ofText? [a, b] = some n :=
  ⟨_, _, pair_eq_padded hn, ofText?_pair_iff.2 ⟨hn, pair_eq_padded hn⟩⟩

/-- A time with a mark is read from its text, and from nothing else. -/
theorem ofText?_eq_some_iff {text : List Char} {t : Timestamp} :
    ofText? text = some t ↔ (t.InRange ∧ t.isMonthly = false) ∧ t.text = text := by
  constructor
  · intro htext
    unfold ofText? at htext
    split at htext
    case h_2 => cases htext
    case h_1 a b c d e f mark =>
      simp only [bind, Option.bind_eq_some_iff, ofText?_pair_iff] at htext
      obtain ⟨first, ⟨hfirst, hab⟩, second, ⟨hsecond, hcd⟩, third, ⟨hthird, hef⟩, hform⟩ := htext
      split at hform
      case h_4 => cases hform
      all_goals
        obtain rfl := Option.some.inj hform
        simp [InRange, parts, isMonthly, Timestamp.text, hab, hcd, hef, hfirst, hsecond, hthird]
  · rintro ⟨⟨hrange, hform⟩, rfl⟩
    cases t with
    | monthly => cases hform
    | zulu first second third | clock first second third | localTime first second third =>
      obtain ⟨hfirst, hsecond, hthird⟩ : first ≤ 99 ∧ second ≤ 99 ∧ third ≤ 99 := by
        simpa [InRange, parts] using hrange
      obtain ⟨a, b, hab, hfirst⟩ := exists_pair hfirst
      obtain ⟨c, d, hcd, hsecond⟩ := exists_pair hsecond
      obtain ⟨e, f, hef, hthird⟩ := exists_pair hthird
      simp [Timestamp.text, ofText?, hab, hcd, hef, hfirst, hsecond, hthird]

/-- Times with a month are read off their own text and off no other. -/
theorem ofMonthlyText?_eq_some_iff {text : List Char} {t : Timestamp} :
    ofMonthlyText? text = some t ↔ (t.InRange ∧ t.isMonthly = true) ∧ t.text = text := by
  constructor
  · intro htext
    unfold ofMonthlyText? at htext
    split at htext
    case h_2 => cases htext
    case h_1 a b c d e f g h =>
      simp only [bind, Option.bind_eq_some_iff, ofText?_pair_iff, Option.some.injEq] at htext
      obtain ⟨month, ⟨hmonth, hab⟩, day, ⟨hday, hcd⟩, hour, ⟨hhour, hef⟩, minute, ⟨hminute, hgh⟩,
        rfl⟩ := htext
      simp [InRange, parts, isMonthly, Timestamp.text, hab, hcd, hef, hgh, hmonth, hday, hhour,
        hminute]
  · rintro ⟨⟨hrange, hform⟩, rfl⟩
    cases t with
    | zulu | clock | localTime => cases hform
    | monthly month day hour minute =>
      obtain ⟨hmonth, hday, hhour, hminute⟩ :
          month ≤ 99 ∧ day ≤ 99 ∧ hour ≤ 99 ∧ minute ≤ 99 := by
        simpa [InRange, parts] using hrange
      obtain ⟨a, b, hab, hmonth⟩ := exists_pair hmonth
      obtain ⟨c, d, hcd, hday⟩ := exists_pair hday
      obtain ⟨e, f, hef, hhour⟩ := exists_pair hhour
      obtain ⟨g, h, hgh, hminute⟩ := exists_pair hminute
      simp [Timestamp.text, ofMonthlyText?, hab, hcd, hef, hgh, hmonth, hday, hhour, hminute]

/-- The texts of times with a mark, by their characters alone. -/
inductive IsMarked : List Char → Prop
  | intro {a b c d e f mark : Char} (hdigits : ∀ x ∈ [a, b, c, d, e, f], x.isDigit)
    (hmark : mark ∈ ['z', 'h', '/']) : IsMarked [a, b, c, d, e, f, mark]

/-- The texts of times with a month. -/
inductive IsUnmarked : List Char → Prop
  | intro {a b c d e f g h : Char} (hdigits : ∀ x ∈ [a, b, c, d, e, f, g, h], x.isDigit) :
    IsUnmarked [a, b, c, d, e, f, g, h]

theorem exists_pair_iff {a b : Char} :
    (∃ n, Decimal.ofText? [a, b] = some n) ↔ a.isDigit ∧ b.isDigit := by
  simp [Decimal.exists_ofText?_iff]

/-- The texts that a time with a mark is read from, by their characters alone. -/
theorem exists_ofText?_iff {text : List Char} : (∃ t, ofText? text = some t) ↔ IsMarked text := by
  constructor
  · rintro ⟨t, htext⟩
    unfold ofText? at htext
    split at htext
    case h_2 => cases htext
    case h_1 a b c d e f mark =>
      simp only [bind, Option.bind_eq_some_iff] at htext
      obtain ⟨first, hfirst, second, hsecond, third, hthird, hform⟩ := htext
      have hdigits : ∀ x ∈ [a, b, c, d, e, f], x.isDigit := by
        simp [exists_pair_iff.1 ⟨first, hfirst⟩, exists_pair_iff.1 ⟨second, hsecond⟩,
          exists_pair_iff.1 ⟨third, hthird⟩]
      refine .intro hdigits ?_
      split at hform
      case h_4 => cases hform
      all_goals simp
  · rintro ⟨hdigits, hmark⟩
    simp only [List.forall_mem_cons] at hdigits
    obtain ⟨ha, hb, hc, hd, he, hf, _⟩ := hdigits
    obtain ⟨first, hfirst⟩ := exists_pair_iff.2 ⟨ha, hb⟩
    obtain ⟨second, hsecond⟩ := exists_pair_iff.2 ⟨hc, hd⟩
    obtain ⟨third, hthird⟩ := exists_pair_iff.2 ⟨he, hf⟩
    simp only [List.mem_cons, List.not_mem_nil, or_false] at hmark
    rcases hmark with rfl | rfl | rfl
    · exact ⟨zulu first second third, by simp [ofText?, hfirst, hsecond, hthird]⟩
    · exact ⟨clock first second third, by simp [ofText?, hfirst, hsecond, hthird]⟩
    · exact ⟨localTime first second third, by simp [ofText?, hfirst, hsecond, hthird]⟩

/-- The texts that a time with a month is read from, by their characters alone. -/
theorem exists_ofMonthlyText?_iff {text : List Char} :
    (∃ t, ofMonthlyText? text = some t) ↔ IsUnmarked text := by
  constructor
  · rintro ⟨t, htext⟩
    unfold ofMonthlyText? at htext
    split at htext
    case h_2 => cases htext
    case h_1 =>
      simp only [bind, Option.bind_eq_some_iff] at htext
      obtain ⟨month, hmonth, day, hday, hour, hhour, minute, hminute, _⟩ := htext
      exact .intro (by simp [exists_pair_iff.1 ⟨month, hmonth⟩, exists_pair_iff.1 ⟨day, hday⟩,
        exists_pair_iff.1 ⟨hour, hhour⟩, exists_pair_iff.1 ⟨minute, hminute⟩])
  · rintro ⟨hdigits⟩
    simp only [List.forall_mem_cons] at hdigits
    obtain ⟨ha, hb, hc, hd, he, hf, hg, hh, _⟩ := hdigits
    obtain ⟨month, hmonth⟩ := exists_pair_iff.2 ⟨ha, hb⟩
    obtain ⟨day, hday⟩ := exists_pair_iff.2 ⟨hc, hd⟩
    obtain ⟨hour, hhour⟩ := exists_pair_iff.2 ⟨he, hf⟩
    obtain ⟨minute, hminute⟩ := exists_pair_iff.2 ⟨hg, hh⟩
    exact ⟨monthly month day hour minute,
      by simp [ofMonthlyText?, hmonth, hday, hhour, hminute]⟩

theorem IsMarked.toNat_lt {text : List Char} (hmarked : IsMarked text) :
    ∀ c ∈ text, c.toNat < 256 := by
  obtain ⟨hdigits, hmark⟩ := hmarked
  have hmarks : ∀ mark ∈ ['z', 'h', '/'], mark.toNat < 256 := by simp
  intro x hx
  rcases List.mem_append.1 (show x ∈ [_, _, _, _, _, _] ++ [_] from hx) with hx | hx
  · exact Latin1.toNat_lt_of_isDigit (hdigits x hx)
  · exact hmarks x (List.mem_singleton.1 hx ▸ hmark)

theorem isWriting_text : Decoder.IsWriting ofText? 7 IsMarked
    (fun t => t.InRange ∧ t.isMonthly = false) Timestamp.text where
  read_iff _ _ := ofText?_eq_some_iff
  exists_iff _ := exists_ofText?_iff
  length_eq _ := fun ⟨_, _⟩ => rfl
  toNat_lt _ := IsMarked.toNat_lt

theorem isWriting_monthlyText : Decoder.IsWriting ofMonthlyText? 8 IsUnmarked
    (fun t => t.InRange ∧ t.isMonthly = true) Timestamp.text where
  read_iff _ _ := ofMonthlyText?_eq_some_iff
  exists_iff _ := exists_ofMonthlyText?_iff
  length_eq _ := fun ⟨_⟩ => rfl
  toNat_lt _ := fun ⟨hdigits⟩ c hc => Latin1.toNat_lt_of_isDigit (hdigits c hc)

/-- The times that are sent are those that are shown: six digits and a mark, or eight digits for the
one with a month, and no calendar is asked. What is decoded shows as the octets it was decoded from,
and what is shown is decoded again whatever follows it. -/
theorem decoders_readText :
    decode.ReadsText 7 .timestamp IsMarked (fun t => t.InRange ∧ t.isMonthly = false)
      Timestamp.text ∧
    decodeMonthly.ReadsText 8 .timestamp IsUnmarked (fun t => t.InRange ∧ t.isMonthly = true)
      Timestamp.text :=
  ⟨isWriting_text.field_readsText (by decide) fun _ => trivial,
    isWriting_monthlyText.field_readsText (by decide) fun _ => trivial⟩

/-- A sign is no digit. -/
example : decode.runAt (Latin1.ascii "@092345z") 1 = .ok (.zulu 9 23 45, 8) ∧
    decode.runAt (Latin1.ascii "@+92345z") 1 = .error (.timestamp (Latin1.ascii "+92345z")) :=
  ⟨rfl, rfl⟩

end Aprs.Timestamp
