import Aprs.Proofs.Altitude
import Mathlib.Order.Bounds.Defs

namespace Aprs

theorem Latin1.isDigit_ofUInt8_iff {x : UInt8} : (Char.ofUInt8 x).isDigit ↔ 0x30 ≤ x ∧ x ≤ 0x39 := by
  rw [Char.isDigit_iff_toNat, UInt8.le_iff_toNat_le, UInt8.le_iff_toNat_le]
  exact Iff.rfl

namespace Altitude

/-- The six octets behind the mark of a token, or fewer if the octets end. -/
def digits (b : Bytes) : Bytes := (b.drop 3).take 6

/-- The number of the token that octets begin with. -/
def feet (b : Bytes) : Nat := Decimal.value (Latin1.decode (digits b))

/-- Octets begin with a token, whatever comes behind it. -/
structure BeginsToken (b : Bytes) : Prop where
  mark_eq : b.take 3 = Latin1.ascii "/A="
  length_digits : (digits b).length = 6
  isDigit : ∀ x ∈ digits b, 0x30 ≤ x ∧ x ≤ 0x39

instance (b : Bytes) : Decidable (BeginsToken b) :=
  decidable_of_iff (b.take 3 = Latin1.ascii "/A=" ∧ (digits b).length = 6 ∧
    (digits b).all fun x => 0x30 ≤ x ∧ x ≤ 0x39) (by
      simp only [List.all_eq_true, decide_eq_true_eq]
      exact ⟨fun ⟨hmark, hlength, hdigits⟩ => ⟨hmark, hlength, hdigits⟩,
        fun ⟨hmark, hlength, hdigits⟩ => ⟨hmark, hlength, hdigits⟩⟩)

/-- All places of tokens, from left to right. -/
def places (b : Bytes) : List Nat :=
  (List.range b.length).filter fun place => BeginsToken (b.drop place)

variable {b : Bytes}

theorem BeginsToken.length_le (htoken : BeginsToken b) : 9 ≤ b.length := by
  have hlength := htoken.length_digits
  rw [digits, List.length_take, List.length_drop] at hlength
  omega

theorem mem_places_iff {place : Nat} : place ∈ places b ↔ BeginsToken (b.drop place) := by
  rw [places, List.mem_filter, List.mem_range, decide_eq_true_iff, and_iff_right_iff_imp]
  intro htoken
  have hlength := htoken.length_le
  rw [List.length_drop] at hlength
  omega

theorem pairwise_places (b : Bytes) : (places b).Pairwise (· < ·) :=
  List.pairwise_lt_range.filter _

theorem places_cons (x : UInt8) (b : Bytes) :
    places (x :: b) = (if BeginsToken (x :: b) then [0] else []) ++ (places b).map Nat.succ := by
  have hbehind : (fun place => decide (BeginsToken ((x :: b).drop place))) ∘ Nat.succ =
      fun place => decide (BeginsToken (b.drop place)) := rfl
  rw [places, List.length_cons, List.range_succ_eq_map, List.filter_cons, List.filter_map, hbehind,
    places, List.drop_zero]
  by_cases htoken : BeginsToken (x :: b)
  · rw [if_pos (decide_eq_true htoken), if_pos htoken, List.singleton_append]
  · rw [if_neg (by simpa using htoken), if_neg htoken, List.nil_append]

theorem decode_digits (b : Bytes) :
    Latin1.decode (digits b) = ((Latin1.decode b).drop 3).take 6 := by
  rw [digits, Latin1.decode, Latin1.decode, List.map_take, List.map_drop]

/-- The same in the characters that are searched. -/
theorem beginsToken_iff : BeginsToken b ↔
    (Latin1.decode b).take 3 = ['/', 'A', '='] ∧ (Latin1.decode (digits b)).length = 6 ∧
      ∀ c ∈ Latin1.decode (digits b), c.isDigit := by
  have hmark : (Latin1.decode b).take 3 = Latin1.decode (b.take 3) := List.map_take.symm
  rw [hmark, Latin1.length_decode]
  constructor
  · rintro ⟨hmark, hlength, hdigits⟩
    refine ⟨by rw [hmark]; rfl, hlength, fun c hc => ?_⟩
    obtain ⟨x, hx, rfl⟩ := List.mem_map.1 hc
    exact Latin1.isDigit_ofUInt8_iff.2 (hdigits x hx)
  · rintro ⟨hmark, hlength, hdigits⟩
    refine ⟨Latin1.decode_injective hmark, hlength, fun x hx => ?_⟩
    exact Latin1.isDigit_ofUInt8_iff.1 (hdigits _ (List.mem_map_of_mem hx))

/-- Six digits behind a mark make a token. The search goes on behind them, but as no slash is in what
it skips it finds what it would find from the next character on. -/
theorem tokens_mark {text : List Char} (hlength : text.length = 6) (htext : ∀ c ∈ text, c.isDigit)
    (rest : List Char) : tokens ('/' :: 'A' :: '=' :: (text ++ rest)) =
      Decimal.value text :: tokens ('A' :: '=' :: (text ++ rest)) := by
  have hfeet := Decimal.ofText?_of_isDigit htext
  have hslash := Decimal.slash_notMem_of_ofText? hfeet
  have hskip : tokens ('A' :: '=' :: (text ++ rest)) = tokens rest := by
    rw [tokens_cons (by decide), tokens_cons (by decide), tokens_append hslash]
  rw [hskip]
  match text, hlength with
  | [a, b, c, d, e, f], _ =>
    simp only [List.cons_append, List.nil_append]
    rw [tokens, hfeet]

/-- A character at which no token begins is passed over. -/
theorem tokens_tail {text : List Char}
    (htoken : ¬ (text.take 3 = ['/', 'A', '='] ∧ ((text.drop 3).take 6).length = 6 ∧
      ∀ c ∈ (text.drop 3).take 6, c.isDigit)) : tokens text = tokens text.tail := by
  conv_lhs => rw [tokens.eq_def]
  split
  case h_2 | h_3 => rfl
  case h_1 =>
    split
    case h_2 => rfl
    case h_1 hfeet => exact absurd ⟨rfl, rfl, Decimal.isDigit_of_ofText? hfeet⟩ htoken

/-- Whether an octet begins a token does not change what is found behind it. -/
theorem tokens_decode_cons (x : UInt8) (b : Bytes) : tokens (Latin1.decode (x :: b)) =
    (if BeginsToken (x :: b) then [feet (x :: b)] else []) ++ tokens (Latin1.decode b) := by
  split
  case isTrue htoken =>
    obtain ⟨hmark, hlength, hdigits⟩ := beginsToken_iff.1 htoken
    have hparts : Latin1.decode (x :: b) = '/' :: 'A' :: '=' ::
        (Latin1.decode (digits (x :: b)) ++ (Latin1.decode (x :: b)).drop 9) := by
      have hwhole := List.take_append_drop 3 (Latin1.decode (x :: b))
      have hbehind := List.take_append_drop 6 ((Latin1.decode (x :: b)).drop 3)
      rw [decode_digits]
      rw [List.drop_drop] at hbehind
      rw [hmark, ← hbehind] at hwhole
      exact hwhole.symm
    have htail : Latin1.decode b =
        'A' :: '=' :: (Latin1.decode (digits (x :: b)) ++ (Latin1.decode (x :: b)).drop 9) :=
      (List.cons.inj hparts).2
    conv_lhs => rw [hparts, tokens_mark hlength hdigits, ← htail]
    rfl
  case isFalse htoken =>
    rw [beginsToken_iff, decode_digits] at htoken
    exact tokens_tail htoken

/-- The search from the left passes over no token: all of them are found, each at its place. -/
theorem tokens_eq (b : Bytes) :
    tokens (Latin1.decode b) = (places b).map fun place => feet (b.drop place) := by
  induction b with
  | nil => rfl
  | cons x b ih =>
    rw [tokens_decode_cons, places_cons, List.map_append, List.map_map, ih]
    congr 1
    split <;> rfl

/-- The last of the places is the greatest at which a token begins. -/
theorem getLast?_places_eq_some_iff {place : Nat} :
    (places b).getLast? = some place ↔ IsGreatest {other | BeginsToken (b.drop other)} place := by
  have hle {place : Nat} (hlast : (places b).getLast? = some place) :
      IsGreatest {other | BeginsToken (b.drop other)} place := by
    refine ⟨mem_places_iff.1 (List.mem_of_getLast? hlast), fun other hother => ?_⟩
    have hmem := mem_places_iff.2 hother
    obtain ⟨front, hparts⟩ := List.getLast?_eq_some_iff.1 hlast
    have hascending := pairwise_places b
    rw [hparts, List.pairwise_append] at hascending
    rw [hparts, List.mem_append, List.mem_singleton] at hmem
    rcases hmem with hmem | rfl
    · exact Nat.le_of_lt (hascending.2.2 other hmem place List.mem_cons_self)
    · exact Nat.le_refl _
  refine ⟨hle, fun hplace => ?_⟩
  cases hlast : (places b).getLast? with
  | none =>
    have hmem := mem_places_iff.2 hplace.1
    rw [List.getLast?_eq_none_iff.1 hlast] at hmem
    cases hmem
  | some last =>
    have hgreatest := hle hlast
    rw [Nat.le_antisymm (hplace.2 hgreatest.1) (hgreatest.2 hplace.1)]

theorem scan_eq (b : Bytes) : scan b = (places b).getLast?.map fun place => feet (b.drop place) := by
  rw [scan, tokens_eq, List.getLast?_map]

theorem scan_eq_some_iff {n : Nat} : scan b = some n ↔
    ∃ place, IsGreatest {other | BeginsToken (b.drop other)} place ∧ feet (b.drop place) = n := by
  rw [scan_eq, Option.map_eq_some_iff]
  exact exists_congr fun place => and_congr_left fun _ => getLast?_places_eq_some_iff

theorem scan_eq_none_iff : scan b = none ↔ ∀ place, ¬ BeginsToken (b.drop place) := by
  rw [scan_eq, Option.map_eq_none_iff, List.getLast?_eq_none_iff, List.eq_nil_iff_forall_not_mem]
  exact forall_congr' fun place => not_congr mem_places_iff

/-- What is in front of a token is of no account. -/
theorem scan_append (htoken : ∃ place, BeginsToken (b.drop place)) (front : Bytes) :
    scan (front ++ b) = scan b := by
  induction front with
  | nil => rfl
  | cons x front ih =>
    obtain ⟨n, hn⟩ : ∃ n, scan b = some n := by
      rw [← Option.ne_none_iff_exists', ne_eq, scan_eq_none_iff, not_forall_not]
      exact htoken
    rw [hn, scan] at ih
    rw [hn, List.cons_append, scan, tokens_decode_cons, List.getLast?_append, ih, Option.some_or]

/-- Places behind a cursor count from the cursor on. -/
theorem isGreatest_drop_iff {cursor place : Nat} :
    IsGreatest {other | BeginsToken ((b.drop cursor).drop other)} place ↔
      IsGreatest {other | cursor ≤ other ∧ BeginsToken (b.drop other)} (cursor + place) := by
  simp only [List.drop_drop]
  constructor
  · rintro ⟨htoken, hgreatest⟩
    refine ⟨⟨Nat.le_add_right _ _, htoken⟩, ?_⟩
    rintro other ⟨hcursor, hother⟩
    obtain ⟨n, rfl⟩ := Nat.exists_eq_add_of_le hcursor
    exact Nat.add_le_add_left (hgreatest hother) cursor
  · rintro ⟨⟨_, htoken⟩, hgreatest⟩
    refine ⟨htoken, fun other hother => ?_⟩
    exact Nat.le_of_add_le_add_left (hgreatest ⟨Nat.le_add_right _ _, hother⟩)

/-- The altitude from a cursor on is the number of the last token there is, or unknown if there is
none. -/
structure FindsLast (b : Bytes) (cursor : Nat) : Prop where
  exists_ok : ∃ altitude, decodeAt b cursor = .ok (altitude, cursor)
  some_iff (n : Nat) : decodeAt b cursor = .ok (some n, cursor) ↔
    ∃ place, IsGreatest {other | cursor ≤ other ∧ BeginsToken (b.drop other)} place ∧
      feet (b.drop place) = n
  none_iff : decodeAt b cursor = .ok (none, cursor) ↔
    ∀ place, cursor ≤ place → ¬ BeginsToken (b.drop place)

/-- Tokens are looked for from the left and each is skipped as a whole, and yet it is the last place
of a token that counts, whatever is in front of it: broken tokens, whole ones, or ones with more
digits than are read. -/
theorem decodeAt_findsLast :
    (∀ b, tokens (Latin1.decode b) = (places b).map fun place => feet (b.drop place)) ∧
    (∀ b cursor, cursor ≤ b.length → FindsLast b cursor) ∧
    ∀ front b, (∃ place, BeginsToken (b.drop place)) →
      decodeAt (front ++ b) 0 = decodeAt b 0 := by
  refine ⟨tokens_eq, ?_, ?_⟩
  · intro b cursor hcursor
    have hresult (altitude : Option Nat) : decodeAt b cursor = .ok (altitude, cursor) ↔
        scan (b.drop cursor) = altitude := by
      rw [decodeAt_eq hcursor, Except.ok.injEq, Prod.mk.injEq, and_iff_left rfl]
    refine ⟨⟨_, decodeAt_eq hcursor⟩, fun n => ?_, ?_⟩
    · rw [hresult, scan_eq_some_iff]
      constructor
      · rintro ⟨place, hplace, rfl⟩
        exact ⟨cursor + place, isGreatest_drop_iff.1 hplace, by rw [List.drop_drop]⟩
      · rintro ⟨place, hplace, rfl⟩
        obtain ⟨n, rfl⟩ := Nat.exists_eq_add_of_le hplace.1.1
        exact ⟨n, isGreatest_drop_iff.2 hplace, by rw [List.drop_drop]⟩
    · rw [hresult, scan_eq_none_iff]
      constructor
      · intro hnone place hcursor
        obtain ⟨n, rfl⟩ := Nat.exists_eq_add_of_le hcursor
        rw [← List.drop_drop]
        exact hnone n
      · intro hnone place
        rw [List.drop_drop]
        exact hnone _ (Nat.le_add_right _ _)
  · intro front b htoken
    rw [decodeAt_eq (Nat.zero_le _), decodeAt_eq (Nat.zero_le _), List.drop_zero, List.drop_zero,
      scan_append htoken]

/-- A token that is cut off by the next, and one with digits behind those that are read. -/
theorem decodeAt_findsLast_broken :
    let front := Latin1.ascii "/A=000100/A=00"
    let b := Latin1.ascii "/A=00020012/A="
    (3 ≤ b.length ∧ decodeAt b 3 = .ok (none, 3)) ∧
      BeginsToken b ∧ decodeAt (front ++ b) 0 = .ok (some 200, 0) := by
  intro front b
  have hlength : 3 ≤ b.length := by decide
  have htoken : BeginsToken (b.drop 0) := by decide
  refine ⟨⟨hlength, ?_⟩, htoken, ?_⟩
  · refine (decodeAt_findsLast.2.1 b 3 hlength).none_iff.2 fun place hcursor htoken => ?_
    have hplace : ∀ place ∈ places b, place < 3 := by decide
    exact absurd (hplace place (mem_places_iff.2 htoken)) (Nat.not_lt.2 hcursor)
  · rw [decodeAt_findsLast.2.2 front b ⟨0, htoken⟩]
    rfl

end Altitude

end Aprs
