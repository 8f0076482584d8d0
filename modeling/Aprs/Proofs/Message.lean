import Aprs.Proofs.Place
import Mathlib.Data.List.Infix

namespace Aprs

/-- An element that does not occur in a list cannot make a front of what comes before it. -/
theorem prefix_append_cons_iff {α : Type} {x : α} {front : List α} (hx : x ∉ front)
    (l more : List α) : front <+: l ++ x :: more ↔ front <+: l := by
  constructor
  · intro hfront
    have hmark : l ++ [x] <+: l ++ x :: more := ⟨more, by simp⟩
    rcases List.prefix_or_prefix_of_prefix hfront hmark with hfront | hfront
    · rcases List.prefix_concat_iff.1 hfront with rfl | hfront
      · exact absurd (List.mem_append_right l List.mem_cons_self) hx
      · exact hfront
    · exact absurd (hfront.subset (List.mem_append_right l List.mem_cons_self)) hx
  · intro hfront
    exact hfront.trans (List.prefix_append l _)

namespace Message

open Latin1 (ascii)

/-- What stands behind the colon. An answer ends in its number, which is not divided off. -/
def content (m : Message) : Bytes :=
  match m.kind with
  | .ack | .reject => m.text
  | .message | .bulletin => m.text ++ m.id.elim [] (0x7B :: ·)

theorem bytes_eq (m : Message) : m.bytes = padSpaces 9 m.addressee ++ 0x3A :: m.content := by
  obtain ⟨addressee, text, id, kind⟩ := m
  cases kind <;> cases id <;> simp [bytes, content]

/-- A text that ends in front of the first brace and is not that of an answer. -/
structure IsPlain (text : Bytes) : Prop where
  no_brace : 0x7B ∉ text
  not_ack : ¬ ascii "ack" <+: text
  not_reject : ¬ ascii "rej" <+: text

/-- The text of an answer says what it answers. -/
def HasContent (m : Message) : Prop :=
  match m.kind with
  | .ack => ∃ id, m.id = some id ∧ m.text = ascii "ack" ++ id
  | .reject => ∃ id, m.id = some id ∧ m.text = ascii "rej" ++ id
  | .message | .bulletin => IsPlain m.text

/-- A message that its octets tell. -/
structure IsLegible (m : Message) : Prop where
  length_addressee : m.addressee.length ≤ 9
  trimmed : m.addressee.getLast? ≠ some 0x20
  content : m.HasContent
  bulletin_iff : m.kind = .bulletin ↔
    (m.kind ≠ .ack ∧ m.kind ≠ .reject) ∧ ascii "BLN" <+: m.addressee

/-- The kind of a message that is no answer. -/
def addressedKind (addressee : Bytes) : Kind :=
  if (ascii "BLN").isPrefixOf addressee then .bulletin else .message

theorem ofParts_ack (addressee id : Bytes) :
    ofParts addressee (ascii "ack" ++ id) = ⟨addressee, ascii "ack" ++ id, some id, .ack⟩ := rfl

theorem ofParts_reject (addressee id : Bytes) :
    ofParts addressee (ascii "rej" ++ id) = ⟨addressee, ascii "rej" ++ id, some id, .reject⟩ := rfl

/-- A message that is no answer has its number behind the first brace, if it has one. -/
theorem IsPlain.ofParts_eq {text : Bytes} (hplain : IsPlain text) (addressee : Bytes)
    (id : Option Bytes) : ofParts addressee (text ++ id.elim [] (0x7B :: ·)) =
      ⟨addressee, text, id, addressedKind addressee⟩ := by
  have hnone {answer : Bytes} (hbrace : 0x7B ∉ answer) (hanswer : ¬ answer <+: text) :
      answer.isPrefixOf? (text ++ id.elim [] (0x7B :: ·)) = none := by
    rw [Option.eq_none_iff_forall_ne_some]
    intro rest hrest
    have hfront : answer <+: text ++ id.elim [] (0x7B :: ·) :=
      ⟨rest, List.isPrefixOf?_eq_some_iff_append_eq.1 hrest⟩
    cases id with
    | none => exact hanswer (by simpa using hfront)
    | some number => exact hanswer ((prefix_append_cons_iff hbrace text number).1 hfront)
  unfold ofParts
  simp only [hnone (by decide) hplain.not_ack, hnone (by decide) hplain.not_reject]
  cases id with
  | none =>
    have hcut : cut? 0x7B text = none := cut?_eq_none_iff.2 hplain.no_brace
    simp only [Option.elim_none, List.append_nil, hcut]
    rfl
  | some number =>
    have hcut : cut? 0x7B (text ++ 0x7B :: number) = some (text, number) :=
      cut?_eq_some_iff.2 ⟨rfl, hplain.no_brace⟩
    simp only [Option.elim_some, hcut]
    rfl

/-- What stands behind a colon is an answer, or a text and perhaps a brace with a number. -/
theorem exists_content (body : Bytes) :
    (∃ id, body = ascii "ack" ++ id) ∨ (∃ id, body = ascii "rej" ++ id) ∨
      ∃ text id, IsPlain text ∧ body = text ++ Option.elim id [] (0x7B :: ·) := by
  by_cases hack : ascii "ack" <+: body
  · obtain ⟨id, hid⟩ := hack
    exact .inl ⟨id, hid.symm⟩
  by_cases hreject : ascii "rej" <+: body
  · obtain ⟨id, hid⟩ := hreject
    exact .inr (.inl ⟨id, hid.symm⟩)
  refine .inr (.inr ?_)
  cases hcut : cut? 0x7B body with
  | none => exact ⟨body, none, ⟨cut?_eq_none_iff.1 hcut, hack, hreject⟩, (List.append_nil _).symm⟩
  | some parts =>
    obtain ⟨hbody, hbrace⟩ := cut?_eq_some_iff.1 hcut
    have hfront : parts.1 <+: body := ⟨_, hbody.symm⟩
    exact ⟨parts.1, some parts.2, ⟨hbrace, fun h => hack (h.trans hfront),
      fun h => hreject (h.trans hfront)⟩, hbody⟩

theorem addressedKind_cases (addressee : Bytes) :
    (ascii "BLN" <+: addressee ∧ addressedKind addressee = .bulletin) ∨
      (¬ ascii "BLN" <+: addressee ∧ addressedKind addressee = .message) := by
  rw [← List.isPrefixOf_iff_prefix]
  unfold addressedKind
  split <;> simp [*]

/-- A message that is read has the addressee and the content that it was read from. -/
theorem ofParts_spec (addressee body : Bytes) :
    (ofParts addressee body).addressee = addressee ∧ (ofParts addressee body).content = body ∧
      (ofParts addressee body).HasContent ∧
      ((ofParts addressee body).kind = .bulletin ↔
        ((ofParts addressee body).kind ≠ .ack ∧ (ofParts addressee body).kind ≠ .reject) ∧
          ascii "BLN" <+: addressee) := by
  rcases exists_content body with ⟨id, rfl⟩ | ⟨id, rfl⟩ | ⟨text, id, hplain, rfl⟩
  · rw [ofParts_ack]
    exact ⟨rfl, rfl, ⟨id, rfl, rfl⟩, by simp⟩
  · rw [ofParts_reject]
    exact ⟨rfl, rfl, ⟨id, rfl, rfl⟩, by simp⟩
  · rw [hplain.ofParts_eq]
    rcases addressedKind_cases addressee with ⟨hbulletin, hkind⟩ | ⟨hbulletin, hkind⟩
    · rw [hkind]
      exact ⟨rfl, rfl, hplain, by simp [hbulletin]⟩
    · rw [hkind]
      exact ⟨rfl, rfl, hplain, by simp [hbulletin]⟩

/-- What a legible message writes behind the colon is read back as that message. -/
theorem IsLegible.ofParts_eq {m : Message} (hlegible : m.IsLegible) :
    ofParts m.addressee m.content = m := by
  obtain ⟨addressee, text, id, kind⟩ := m
  have hcontent := hlegible.content
  have hbulletin := hlegible.bulletin_iff
  cases kind with
  | ack =>
    obtain ⟨number, rfl, rfl⟩ := hcontent
    exact ofParts_ack addressee number
  | reject =>
    obtain ⟨number, rfl, rfl⟩ := hcontent
    exact ofParts_reject addressee number
  | message =>
    have hkind : addressedKind addressee = .message := by
      rcases addressedKind_cases addressee with ⟨h, _⟩ | ⟨_, hkind⟩
      · cases hbulletin.2 ⟨by simp, h⟩
      · exact hkind
    exact (IsPlain.ofParts_eq hcontent addressee id).trans (by rw [hkind])
  | bulletin =>
    have hkind : addressedKind addressee = .bulletin := by
      rcases addressedKind_cases addressee with ⟨_, hkind⟩ | ⟨h, _⟩
      · exact hkind
      · exact absurd (hbulletin.1 rfl).2 h
    exact (IsPlain.ofParts_eq hcontent addressee id).trans (by rw [hkind])

/-- A message is read exactly if its octets are all that there is. -/
theorem decode_eq_ok_iff {b rest : Bytes} {m : Message} :
    decode b = .ok (m, rest) ↔ m.IsLegible ∧ m.bytes = b ∧ rest = [] := by
  constructor
  · intro hdecode
    rw [decode_eq] at hdecode
    split at hdecode
    case isFalse => cases hdecode
    case isTrue hcolon =>
      obtain ⟨rfl, rfl⟩ := Prod.mk.inj (Except.ok.inj hdecode)
      obtain ⟨hb, hnine⟩ := splitAt?_eq_some_iff.1 (splitAt?_of_getElem? hcolon)
      obtain ⟨haddressee, hbody, hcontent, hbulletin⟩ :=
        ofParts_spec (trimSpaces (b.take 9)) (b.drop 10)
      obtain ⟨hroom, htrimmed, hpadded⟩ := trimSpaces_eq_iff.1 ⟨hnine, rfl⟩
      refine ⟨⟨?_, ?_, hcontent, ?_⟩, ?_, rfl⟩
      · rwa [haddressee]
      · rwa [haddressee]
      · rwa [haddressee]
      · rw [bytes_eq, haddressee, hbody, hpadded, ← hb]
  · rintro ⟨hlegible, rfl, rfl⟩
    have hsplit : splitAt? 9 m.bytes = some (padSpaces 9 m.addressee, 0x3A :: m.content) :=
      splitAt?_eq_some_iff.2 ⟨m.bytes_eq, length_padSpaces hlegible.length_addressee⟩
    unfold decode
    simp only [hsplit, trimSpaces_padSpaces hlegible.trimmed, hlegible.ofParts_eq]

theorem decode_eq_error_iff {b : Bytes} {error : DecodeError} :
    decode b = .error error ↔
      b[9]? ≠ some 0x3A ∧ error = .addressee (b.takeWhile (· ≠ 0x3A)) := by
  rw [decode_eq]
  split
  case isTrue hcolon => simp [hcolon]
  case isFalse hcolon =>
    rw [Except.error.injEq, eq_comm]
    exact (and_iff_right hcolon).symm

/-- Reading a message and writing it undo each other. What stands at a cursor is a message exactly
if it is the octets of a legible one up to the end of the body, and where the colon behind the
addressee is missing, what stands in front of the first colon is refused. -/
theorem decode_exact (b : Bytes) (cursor : Nat) :
    (∀ m stop, decode.runAt b cursor = .ok (m, stop) ↔
      m.IsLegible ∧ m.bytes = b.drop cursor ∧ stop = b.length) ∧
    ∀ error, decode.runAt b cursor = .error error ↔
      (b.length < cursor + 10 ∨ b[cursor + 9]? ≠ some 0x3A) ∧
        error = .addressee ((b.drop cursor).takeWhile (· ≠ 0x3A)) := by
  constructor
  · intro m stop
    rw [Decoder.runAt_eq_ok_iff]
    simp only [decode_eq_ok_iff]
    constructor
    · rintro ⟨rest, ⟨hlegible, hbytes, rfl⟩, rfl⟩
      exact ⟨hlegible, hbytes, rfl⟩
    · rintro ⟨hlegible, hbytes, rfl⟩
      exact ⟨[], ⟨hlegible, hbytes, rfl⟩, rfl⟩
  · intro error
    have hshort : (b.length < cursor + 10 ∨ b[cursor + 9]? ≠ some 0x3A) ↔
        b[cursor + 9]? ≠ some 0x3A := by
      refine or_iff_right_of_imp fun hlength => ?_
      rw [List.getElem?_eq_none (by omega)]
      simp
    rw [hshort, Decoder.runAt_eq_error_iff_of_unplaced (decode_unplaced _), decode_eq_error_iff,
      List.getElem?_drop]

/-- A brace behind the first one belongs to the number, and a colon may stand anywhere. -/
example : decode.runAt (ascii ":BLN: 1   :re: \x7b1\x7b2\x7d") 1 =
    .ok (⟨ascii "BLN: 1", ascii "re: ", some (ascii "1\x7b2\x7d"), .bulletin⟩, 20) := rfl

end Message

end Aprs
