import Aprs.Proofs.Range.Weather
import Mathlib.Data.List.Basic

namespace Aprs.Weather

/-- The texts of a field, each with the number that it writes. Dots throughout or spaces
throughout write none. -/
inductive IsField : List Char → Option Int → Prop
  | dots {text : List Char} (hdots : ∀ c ∈ text, c = '.') : IsField text none
  | spaces {text : List Char} (hspaces : ∀ c ∈ text, c = ' ') : IsField text none
  | digits {text : List Char} (hsome : text ≠ []) (hdigits : ∀ c ∈ text, c.isDigit) :
      IsField text (some (Decimal.value text))
  | minus {text : List Char} (hsome : text ≠ []) (hdigits : ∀ c ∈ text, c.isDigit) :
      IsField ('-' :: text) (some (-(Decimal.value text : Int)))

private theorem digits_eq_some_iff {text : List Char} {n : Int} :
    (do let n ← Decimal.ofText? text; pure (n : Int)) = some n ↔
      (∀ c ∈ text, c.isDigit) ∧ n = Decimal.value text := by
  simp only [bind, Option.bind_eq_some_iff, pure, Option.some.injEq]
  constructor
  · intro ⟨d, hd, hn⟩
    have hdigits := Decimal.isDigit_of_ofText? hd
    rw [Decimal.ofText?_of_isDigit hdigits] at hd
    exact ⟨hdigits, by rw [← hn, ← Option.some.inj hd]⟩
  · intro ⟨hdigits, hn⟩
    exact ⟨_, Decimal.ofText?_of_isDigit hdigits, hn.symm⟩

private theorem all_filler_iff {text : List Char} :
    (text.all (· = '.') || text.all (· = ' ')) = true ↔
      (∀ c ∈ text, c = '.') ∨ ∀ c ∈ text, c = ' ' := by
  simp only [Bool.or_eq_true, List.all_eq_true, decide_eq_true_eq]

/-- A text with a digit or a minus sign in front is no filler. -/
private theorem not_filler {c : Char} {text : List Char} (hc : c.isDigit ∨ c = '-') :
    ¬ ((c :: text).all (· = '.') || (c :: text).all (· = ' ')) = true := by
  rw [all_filler_iff]
  intro hfiller
  have hfront : c = '.' ∨ c = ' ' := hfiller.imp
    (fun hdots => hdots c List.mem_cons_self) (fun hspaces => hspaces c List.mem_cons_self)
  obtain rfl | rfl := hfront <;> revert hc <;> decide

/-- A field is read exactly if it is one of the texts of a field, as the number that it writes. -/
theorem readNumber?_eq_some_iff {text : List Char} {number : Option Int} :
    readNumber? text = some number ↔ IsField text number := by
  constructor
  · intro hread
    unfold readNumber? at hread
    split at hread
    case isTrue hfiller =>
      obtain rfl := Option.some.inj hread
      obtain hdots | hspaces := all_filler_iff.1 hfiller
      · exact .dots hdots
      · exact .spaces hspaces
    case isFalse hfiller =>
      split at hread
      case h_1 => cases hread
      case h_2 digits hsome =>
        obtain ⟨n, hn, rfl⟩ := Option.map_eq_some_iff.1 hread
        obtain ⟨hdigits, rfl⟩ := digits_eq_some_iff.1 hn
        exact .minus hsome hdigits
      case h_3 =>
        obtain ⟨n, hn, rfl⟩ := Option.map_eq_some_iff.1 hread
        obtain ⟨hdigits, rfl⟩ := digits_eq_some_iff.1 hn
        refine .digits ?_ hdigits
        intro hnil
        exact hfiller (by rw [hnil]; rfl)
  · intro hfield
    unfold readNumber?
    cases hfield with
    | dots hdots => rw [if_pos (all_filler_iff.2 (.inl hdots))]
    | spaces hspaces => rw [if_pos (all_filler_iff.2 (.inr hspaces))]
    | digits hsome hdigits =>
      obtain ⟨c, rest, rfl⟩ := List.exists_cons_of_ne_nil hsome
      have hc := hdigits c List.mem_cons_self
      rw [if_neg (not_filler (.inl hc))]
      split
      case h_1 heq =>
        obtain ⟨rfl, _⟩ := List.cons.inj heq
        cases hc
      case h_2 heq =>
        obtain ⟨rfl, _⟩ := List.cons.inj heq
        cases hc
      case h_3 => rw [digits_eq_some_iff.2 ⟨hdigits, rfl⟩, Option.map_some]
    | minus hsome hdigits =>
      rw [if_neg (not_filler (.inr rfl))]
      split
      case h_1 heq => exact absurd (List.cons.inj heq).2 hsome
      case h_2 heq =>
        obtain ⟨_, rfl⟩ := List.cons.inj heq
        rw [digits_eq_some_iff.2 ⟨hdigits, rfl⟩, Option.map_some]
      case h_3 hminus => exact absurd rfl (hminus _)

theorem IsField.unique {text : List Char} {number other : Option Int} (hfield : IsField text number)
    (hother : IsField text other) : other = number := by
  rw [← readNumber?_eq_some_iff] at hfield hother
  exact Option.some.inj (hother.symm.trans hfield)

namespace Tag

/-- The quantity that a number stands for in the field of a letter. Two digits of a percentage
leave a hundred to be sent as zero, and a high luminosity is sent without its thousand. -/
def stated : Tag → Int → Int
  | humidity, n => if n = 0 then 100 else n
  | highLuminosity, n => n + 1000
  | _, n => n

/-- The quantities that a report has room for: sixteen bits, eight for a percentage and 32 for a
pressure. Only a temperature has a sign. -/
def Keeps : Tag → Int → Prop
  | temperature, q => -32768 ≤ q ∧ q ≤ 32767
  | humidity, q => 0 ≤ q ∧ q ≤ 255
  | pressure, q => 0 ≤ q ∧ q ≤ 4294967295
  | _, q => 0 ≤ q ∧ q ≤ 65535

theorem quantity?_eq (tag : Tag) (n : Int) :
    tag.quantity? n =
      if tag = temperature ∨ 0 ≤ tag.stated n then some (tag.stated n) else none := by
  cases tag <;> rfl

theorem Keeps.nonneg {tag : Tag} {q : Int} (hkeeps : tag.Keeps q) : tag = temperature ∨ 0 ≤ q := by
  cases tag with
  | temperature => exact .inl rfl
  | _ => exact .inr hkeeps.1

/-- What a field has room for is kept. -/
theorem keeps_of_bounds {tag : Tag} {q : Int} (hleast : tag.least ≤ q) (hgreatest : q ≤ tag.greatest) :
    tag.Keeps q := by
  cases tag <;> simp only [least, greatest, Keeps] at hleast hgreatest ⊢ <;> omega

/-- A number as wide as its field is refused exactly if there is no room for the quantity. -/
theorem quantity?_eq_some_iff {tag : Tag} {n q : Int} (hlow : -n < (10 ^ (tag.width - 1) : Nat))
    (hhigh : n < (10 ^ tag.width : Nat)) :
    tag.quantity? n = some q ↔ q = tag.stated n ∧ tag.Keeps q := by
  constructor
  · intro hquantity
    obtain ⟨hleast, hgreatest⟩ := quantity?_bounds hlow hhigh hquantity
    rw [quantity?_eq, Option.ite_none_right_eq_some, Option.some.injEq] at hquantity
    exact ⟨hquantity.2.symm, keeps_of_bounds hleast hgreatest⟩
  · intro ⟨hq, hkeeps⟩
    rw [hq] at hkeeps
    rw [quantity?_eq, if_pos hkeeps.nonneg, hq]

/-- A field that a letter accepts: it is as wide as the letter asks for, and if it writes a
number, there is room for the quantity that the number stands for. -/
structure Accepts (tag : Tag) (field : Bytes) (value : Option Int) : Prop where
  length : field.length = tag.width
  isField : ∃ number, IsField (Latin1.decode field) number ∧ value = number.map tag.stated
  kept : ∀ q ∈ value, tag.Keeps q

end Tag

/-- A letter accepts a field if the report has room for the quantity that the number in it
states. -/
theorem Tag.accepts_iff {tag : Tag} {field : Bytes} {number value : Option Int}
    (hlength : field.length = tag.width) (hread : readNumber? (Latin1.decode field) = some number) :
    tag.Accepts field value ↔ value = number.map tag.stated ∧ ∀ q ∈ value, tag.Keeps q := by
  constructor
  · intro haccepts
    obtain ⟨actual, hfield, hvalue⟩ := haccepts.isField
    rw [← readNumber?_eq_some_iff, hread] at hfield
    rw [hvalue, ← Option.some.inj hfield]
    rw [hvalue, ← Option.some.inj hfield] at haccepts
    exact ⟨rfl, haccepts.kept⟩
  · intro ⟨hvalue, hkept⟩
    exact ⟨hlength, ⟨number, readNumber?_eq_some_iff.1 hread, hvalue⟩, hkept⟩

/-- A letter and a field are read as a token exactly if the letter accepts the field. -/
theorem Token.ofText?_eq_some_iff {tag : Tag} {field : Bytes} {token : Token}
    (hlength : field.length = tag.width) :
    ofText? tag (Latin1.decode field) = some token ↔
      token.tag = tag ∧ tag.Accepts field token.value := by
  obtain ⟨actual, value⟩ := token
  rw [ofText?]
  cases hread : readNumber? (Latin1.decode field) with
  | none =>
    refine iff_of_false (by simp) ?_
    intro ⟨_, haccepts⟩
    obtain ⟨_, hfield, _⟩ := haccepts.isField
    rw [← readNumber?_eq_some_iff, hread] at hfield
    cases hfield
  | some number =>
    rw [Tag.accepts_iff hlength hread]
    cases number with
    | none =>
      simp only [Option.some.injEq, Token.mk.injEq, Option.map_none]
      constructor
      · intro ⟨htag, hvalue⟩
        exact ⟨htag.symm, hvalue.symm, by rw [← hvalue]; simp⟩
      · intro ⟨htag, hvalue, _⟩
        exact ⟨htag.symm, hvalue.symm⟩
    | some n =>
      obtain ⟨hlow, hhigh⟩ := readNumber?_bounds hread
      rw [Latin1.length_decode, hlength] at hlow hhigh
      simp only [Option.map_eq_some_iff, Token.mk.injEq, Option.map_some,
        Tag.quantity?_eq_some_iff hlow hhigh]
      constructor
      · intro ⟨q, ⟨hq, hkeeps⟩, htag, hvalue⟩
        refine ⟨htag.symm, by rw [← hvalue, hq], ?_⟩
        rw [← hvalue]
        simpa using hkeeps
      · intro ⟨htag, hvalue, hkept⟩
        exact ⟨_, ⟨rfl, hkept _ hvalue⟩, htag.symm, hvalue.symm⟩

theorem Tag.accepts_of_ofText? {tag : Tag} {field : Bytes} {value : Option Int}
    (hlength : field.length = tag.width)
    (htext : Token.ofText? tag (Latin1.decode field) = some ⟨tag, value⟩) : tag.Accepts field value :=
  ((Token.ofText?_eq_some_iff hlength).1 htext).2

namespace Tag

theorem ofLetter?_eq_some_iff {c : Char} {tag : Tag} : ofLetter? c = some tag ↔ c = tag.letter := by
  constructor
  · intro hletter
    unfold ofLetter? at hletter
    split at hletter <;> cases hletter <;> rfl
  · intro hc
    rw [hc]
    cases tag <;> rfl

/-- The octet of a letter. -/
def octet (tag : Tag) : UInt8 := tag.letter.toUInt8

theorem ofUInt8_octet (tag : Tag) : Char.ofUInt8 tag.octet = tag.letter :=
  Latin1.ofUInt8_toUInt8 (by cases tag <;> decide)

theorem ofLetter?_octet (tag : Tag) : ofLetter? (Char.ofUInt8 tag.octet) = some tag :=
  ofLetter?_eq_some_iff.2 tag.ofUInt8_octet

theorem octet_inj {tag other : Tag} (hoctet : tag.octet = other.octet) : tag = other := by
  have hletter := tag.ofLetter?_octet
  rw [hoctet, other.ofLetter?_octet] at hletter
  exact (Option.some.inj hletter).symm

end Tag

/-- No field begins as a token does. -/
theorem IsField.ne_octet {x : UInt8} {field : Bytes} {number : Option Int}
    (hfield : IsField (Latin1.decode (x :: field)) number) (tag : Tag) : x ≠ tag.octet := by
  intro hx
  have htext : Latin1.decode (x :: field) = tag.letter :: Latin1.decode field := by
    rw [hx, ← tag.ofUInt8_octet]
    rfl
  rw [htext] at hfield
  have hfront : tag.letter = '.' ∨ tag.letter = ' ' ∨ tag.letter.isDigit ∨ tag.letter = '-' := by
    generalize hletter : tag.letter = c at hfield
    cases hfield with
    | dots hdots => exact .inl (hdots c List.mem_cons_self)
    | spaces hspaces => exact .inr (.inl (hspaces c List.mem_cons_self))
    | digits _ hdigits => exact .inr (.inr (.inl (hdigits c List.mem_cons_self)))
    | minus => exact .inr (.inr (.inr rfl))
  revert hfront
  cases tag <;> decide

/-- A field that a letter accepts, with what it says. -/
structure Field (tag : Tag) where
  bytes : Bytes
  value : Option Int
  accepts : tag.Accepts bytes value

namespace Field

/-- What a field says behind its letter. -/
def token {tag : Tag} (field : Field tag) : Token := ⟨tag, field.value⟩

theorem length_bytes {tag : Tag} (field : Field tag) : field.bytes.length = tag.width :=
  field.accepts.length

theorem ofText?_bytes {tag : Tag} (field : Field tag) :
    Token.ofText? tag (Latin1.decode field.bytes) = some field.token :=
  (Token.ofText?_eq_some_iff field.length_bytes).2 ⟨rfl, field.accepts⟩

theorem exists_of_ofText? {tag : Tag} {bytes : Bytes} {token : Token}
    (hlength : bytes.length = tag.width)
    (htext : Token.ofText? tag (Latin1.decode bytes) = some token) :
    ∃ field : Field tag, field.bytes = bytes ∧ field.token = token := by
  obtain ⟨rfl, haccepts⟩ := (Token.ofText?_eq_some_iff hlength).1 htext
  exact ⟨⟨bytes, token.value, haccepts⟩, rfl, rfl⟩

end Field

/-- A token as it is sent, a letter and its field. -/
structure SentToken where
  tag : Tag
  field : Field tag

namespace SentToken

/-- The octets of a token. -/
def bytes (t : SentToken) : Bytes := t.tag.octet :: t.field.bytes

/-- What a token says. -/
def token (t : SentToken) : Token := t.field.token

@[simp] theorem tag_token (t : SentToken) : t.token.tag = t.tag := rfl

/-- The only token that can stand in front of a letter and a field of its width is that one. -/
theorem eq_of_isPrefix {t : SentToken} {tag : Tag} {field more : Bytes}
    (hlength : field.length = tag.width) (hfront : t.bytes <+: tag.octet :: field ++ more) :
    t.tag = tag ∧ t.field.bytes = field := by
  rw [bytes, List.cons_append, List.cons_prefix_cons] at hfront
  obtain ⟨hoctet, hfield⟩ := hfront
  have htag := Tag.octet_inj hoctet
  have hwidth : t.field.bytes.length = field.length := by
    rw [t.field.length_bytes, hlength, htag]
  have hwithin : t.field.bytes <+: field :=
    List.prefix_of_prefix_length_le hfield (List.prefix_append field more) (Nat.le_of_eq hwidth)
  exact ⟨htag, hwithin.eq_of_length hwidth⟩

end SentToken

/-- The wind as it is sent without letters. -/
structure SentWind where
  direction : Field .windDirection
  speed : Field .windSpeed

namespace SentWind

/-- The octets of the wind, its two fields with a slash between them. -/
def bytes (w : SentWind) : Bytes := w.direction.bytes ++ 0x2F :: w.speed.bytes

/-- The two tokens that the wind stands for. -/
def tokens (w : SentWind) : List Token := [w.direction.token, w.speed.token]

end SentWind

namespace Token

/-- A token stands in front of octets exactly if they begin with it as it is sent. -/
theorem next?_eq_some_iff {b rest : Bytes} {token : Token} :
    next? b = some (token, rest) ↔ ∃ t : SentToken, b = t.bytes ++ rest ∧ t.token = token := by
  constructor
  · intro hnext
    cases b with
    | nil => cases hnext
    | cons first b =>
      simp only [next?, bind, Option.bind_eq_some_iff] at hnext
      obtain ⟨tag, htag, ⟨bytes, after⟩, hsplit, actual, htext, heq⟩ := hnext
      obtain ⟨rfl, rfl⟩ := Prod.mk.inj (Option.some.inj heq)
      obtain ⟨rfl, hlength⟩ := splitAt?_eq_some_iff.1 hsplit
      obtain ⟨field, rfl, htoken⟩ := Field.exists_of_ofText? hlength htext
      have hfirst : first = tag.octet := by
        rw [Tag.octet, ← Tag.ofLetter?_eq_some_iff.1 htag, Latin1.toUInt8_ofUInt8]
      exact ⟨⟨tag, field⟩, by rw [hfirst]; rfl, htoken⟩
  · intro hsent
    obtain ⟨t, hb, htoken⟩ := hsent
    have hsplit : splitAt? t.tag.width (t.field.bytes ++ rest) = some (t.field.bytes, rest) :=
      splitAt?_eq_some_iff.2 ⟨rfl, t.field.length_bytes⟩
    rw [hb, ← htoken]
    simp only [SentToken.bytes, SentToken.token, List.cons_append, next?, Tag.ofLetter?_octet,
      Option.bind_eq_bind, Option.bind_some, hsplit, t.field.ofText?_bytes]

/-- The wind stands in front of octets exactly if they begin with it as it is sent. -/
theorem readWind?_eq_some_iff {b rest : Bytes} {tokens : List Token} :
    readWind? b = some (tokens, rest) ↔ ∃ w : SentWind, b = w.bytes ++ rest ∧ w.tokens = tokens := by
  constructor
  · intro hwind
    simp only [readWind?, bind, Option.bind_eq_some_iff] at hwind
    obtain ⟨⟨block, after⟩, hsplit, hwind⟩ := hwind
    obtain ⟨rfl, hlength⟩ := splitAt?_eq_some_iff.1 hsplit
    split at hwind
    case h_2 => cases hwind
    case h_1 hblock =>
      simp only [Option.bind_eq_some_iff, Option.some.injEq, Prod.mk.injEq] at hwind
      obtain ⟨direction, hdirection, speed, hspeed, rfl, rfl⟩ := hwind
      simp only [Latin1.decode, List.map_eq_cons_iff, List.map_eq_nil_iff] at hblock
      obtain ⟨a, _, rfl, rfl, b, _, rfl, rfl, c, _, rfl, rfl, mark, _, rfl, hmark,
        d, _, rfl, rfl, e, _, rfl, rfl, f, _, rfl, rfl, rfl⟩ := hblock
      obtain ⟨field, hfield, rfl⟩ : ∃ field : Field .windDirection,
          field.bytes = [a, b, c] ∧ field.token = direction :=
        Field.exists_of_ofText? rfl hdirection
      obtain ⟨other, hother, rfl⟩ : ∃ field : Field .windSpeed,
          field.bytes = [d, e, f] ∧ field.token = speed :=
        Field.exists_of_ofText? rfl hspeed
      have hslash : mark = 0x2F := by
        rw [← Latin1.toUInt8_ofUInt8 mark, hmark]
        rfl
      refine ⟨⟨field, other⟩, ?_, rfl⟩
      rw [SentWind.bytes, hfield, hother, hslash]
      rfl
  · intro hsent
    obtain ⟨w, hb, htokens⟩ := hsent
    have hdirection := w.direction.ofText?_bytes
    have hspeed := w.speed.ofText?_bytes
    obtain ⟨a, b, c, habc⟩ := List.length_eq_three.1 w.direction.length_bytes
    obtain ⟨d, e, f, hdef⟩ := List.length_eq_three.1 w.speed.length_bytes
    rw [hb, ← htokens, SentWind.bytes, SentWind.tokens, habc, hdef]
    rw [habc] at hdirection
    rw [hdef] at hspeed
    have hsplit : splitAt? 7 ([a, b, c] ++ 0x2F :: [d, e, f] ++ rest) =
        some ([a, b, c] ++ 0x2F :: [d, e, f], rest) := splitAt?_eq_some_iff.2 ⟨rfl, rfl⟩
    have hblock : Latin1.decode ([a, b, c] ++ 0x2F :: [d, e, f]) =
        [Char.ofUInt8 a, Char.ofUInt8 b, Char.ofUInt8 c, '/', Char.ofUInt8 d, Char.ofUInt8 e,
          Char.ofUInt8 f] := rfl
    simp only [Latin1.decode, List.map_cons, List.map_nil] at hdirection hspeed
    simp only [readWind?, hsplit, hblock, hdirection, hspeed, Option.bind_eq_bind,
      Option.bind_some]

end Token

end Aprs.Weather
