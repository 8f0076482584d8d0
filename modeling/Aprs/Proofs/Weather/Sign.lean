import Aprs.Proofs.Weather.Reading

namespace Aprs.Weather

/-- A field as wide as a letter asks for, with a number below zero in it. -/
structure BelowZero (tag : Tag) where
  field : Bytes
  number : Int
  length_field : field.length = tag.width
  isField : IsField (Latin1.decode field) (some number)
  neg : number < 0

namespace BelowZero

variable {tag : Tag}

/-- The octets of the field with the letter in front of it. -/
def bytes (z : BelowZero tag) : Bytes := tag.octet :: z.field

/-- No letter but that of a temperature has a quantity for a number below zero, as long as nothing
is added to it. -/
theorem not_accepts (z : BelowZero tag) (htag : tag ≠ .temperature) (hhigh : tag ≠ .highLuminosity)
    (value : Option Int) : ¬ tag.Accepts z.field value := by
  intro haccepts
  obtain ⟨number, hfield, hvalue⟩ := haccepts.isField
  obtain rfl := z.isField.unique hfield
  have hkeeps := haccepts.kept (tag.stated z.number) (by rw [hvalue]; rfl)
  have hneg := z.neg
  cases tag with
  | temperature => exact htag rfl
  | highLuminosity => exact hhigh rfl
  | humidity =>
    simp only [Tag.stated, Tag.Keeps] at hkeeps
    split at hkeeps <;> omega
  | _ =>
    simp only [Tag.stated, Tag.Keeps] at hkeeps
    omega

/-- A luminosity over a thousand has one, as at most 99 are taken off. -/
theorem accepts_highLuminosity (z : BelowZero .highLuminosity) :
    Tag.highLuminosity.Accepts z.field (some (z.number + 1000)) := by
  have hread := readNumber?_eq_some_iff.2 z.isField
  obtain ⟨hlow, _⟩ := readNumber?_bounds hread
  rw [Latin1.length_decode, z.length_field] at hlow
  refine (Tag.accepts_iff z.length_field hread).2 ⟨rfl, ?_⟩
  intro q hq
  obtain rfl := Option.some.inj hq
  have hneg := z.neg
  simp only [Tag.width] at hlow
  simp only [Tag.Keeps]
  omega

/-- No token stands in front of a number below zero whose letter has no quantity for it or was
used before. -/
theorem not_isPrefix (z : BelowZero tag) {used : List Tag} (htag : tag ≠ .temperature)
    (hhigh : tag = .highLuminosity → tag ∈ used) {t : SentToken} (hunused : t.tag ∉ used)
    (more : Bytes) : ¬ t.bytes <+: z.bytes ++ more := by
  intro hfront
  obtain ⟨rfl, hfield⟩ := SentToken.eq_of_isPrefix z.length_field hfront
  have haccepts := t.field.accepts
  rw [hfield] at haccepts
  exact z.not_accepts htag (fun h => hunused (hhigh h)) _ haccepts

end BelowZero

/-- A wind without letters of which one half is below zero. Behind such a direction any three
octets may stand. -/
inductive WindBelowZero : Bytes → Prop
  | direction (z : BelowZero .windDirection) {speed : Bytes} (hlength : speed.length = 3) :
      WindBelowZero (z.field ++ 0x2F :: speed)
  | speed {direction : Bytes} {number : Option Int} (hlength : direction.length = 3)
      (hdirection : IsField (Latin1.decode direction) number) (z : BelowZero .windSpeed) :
      WindBelowZero (direction ++ 0x2F :: z.field)

namespace WindBelowZero

variable {block : Bytes}

/-- It begins with a direction, and of the two fields a wind would have there one is refused. -/
theorem exists_direction (hblock : WindBelowZero block) :
    ∃ direction speed : Bytes, ∃ number, block = direction ++ 0x2F :: speed ∧
      direction.length = 3 ∧ speed.length = 3 ∧ IsField (Latin1.decode direction) number ∧
      ∀ value other, Tag.windDirection.Accepts direction value →
        ¬ Tag.windSpeed.Accepts speed other := by
  cases hblock with
  | direction z hlength =>
    refine ⟨_, _, _, rfl, z.length_field, hlength, z.isField, fun value _ haccepts => ?_⟩
    exact absurd haccepts (z.not_accepts (by decide) (by decide) value)
  | speed hlength hdirection z =>
    refine ⟨_, _, _, rfl, hlength, z.length_field, hdirection, fun _ other _ => ?_⟩
    exact z.not_accepts (by decide) (by decide) other

theorem ne_nil (hblock : WindBelowZero block) : block ≠ [] := by
  cases hblock <;> simp

theorem not_isPrefix (hblock : WindBelowZero block) (w : SentWind) (more : Bytes) :
    ¬ w.bytes <+: block ++ more := by
  obtain ⟨direction, speed, _, rfl, hdirection, hspeed, _, hrefused⟩ := hblock.exists_direction
  intro ⟨rest, hrest⟩
  simp only [SentWind.bytes, List.append_assoc, List.cons_append] at hrest
  obtain ⟨hfirst, hrest⟩ := List.append_inj hrest (w.direction.length_bytes.trans hdirection.symm)
  obtain ⟨hsecond, _⟩ := List.append_inj (List.cons.inj hrest).2
    (w.speed.length_bytes.trans hspeed.symm)
  exact hrefused _ _ (hfirst ▸ w.direction.accepts) (hsecond ▸ w.speed.accepts)

theorem not_isPrefix_token (hblock : WindBelowZero block) (t : SentToken) (more : Bytes) :
    ¬ t.bytes <+: block ++ more := by
  obtain ⟨direction, speed, _, rfl, hlength, _, hfield, _⟩ := hblock.exists_direction
  intro hfront
  cases direction with
  | nil => cases hlength
  | cons x direction => exact hfield.ne_octet t.tag (List.cons_prefix_cons.1 hfront).1.symm

end WindBelowZero

section Decoded

variable {b more : Bytes} {cursor : Nat}

/-- A report ends in front of a token below zero that is refused. -/
theorem BelowZero.isDecodedAt {r : SentReport} {tag : Tag} (z : BelowZero tag)
    (htag : tag ≠ .temperature) (hhigh : tag = .highLuminosity → tag ∈ r.tags)
    (hcursor : cursor ≤ b.length) (hb : b.drop cursor = r.bytes ++ (z.bytes ++ more)) :
    r.IsDecodedAt b cursor := by
  have hgreedy : r.IsGreedy (z.bytes ++ more) := by
    constructor
    case wind => exact fun hnone => SentReport.not_isPrefix hnone fun w => w.not_isPrefix tag _
    case tokens => exact fun t hunused => z.not_isPrefix htag hhigh hunused more
  exact hgreedy.isDecodedAt hcursor hb

/-- A report goes on over a luminosity below zero that is to have its thousand back. -/
theorem BelowZero.isDecodedAt_highLuminosity {r : SentReport} (z : BelowZero .highLuminosity)
    (hunused : Tag.highLuminosity ∉ r.tags) (hcursor : cursor ≤ b.length)
    (hb : b.drop cursor = r.bytes ++ (z.bytes ++ more)) :
    ∃ t : SentToken, t.bytes = z.bytes ∧ t.token = ⟨.highLuminosity, some (z.number + 1000)⟩ ∧
      ∃ longer : SentReport, ∃ tokens, longer.wind = r.wind ∧
        longer.tokens = r.tokens ++ t :: tokens ∧ longer.IsDecodedAt b cursor := by
  let t : SentToken := ⟨.highLuminosity, z.field, _, z.accepts_highLuminosity⟩
  have hdistinct : (r.wind.elim [] SentWind.tags ++ (r.tokens ++ [t]).map SentToken.tag).Nodup := by
    rw [List.map_append, ← List.append_assoc]
    exact List.concat_eq_append ▸ r.distinct.concat hunused
  let next : SentReport := ⟨r.wind, r.tokens ++ [t], hdistinct⟩
  have hnext : next.bytes ++ more = r.bytes ++ (z.bytes ++ more) := by
    simp only [next, SentReport.bytes, List.flatMap_append, List.flatMap_singleton,
      List.append_assoc]
    rfl
  have hfront (hnone : r.wind = none) : ∀ w : SentWind, ¬ w.bytes <+: r.bytes ++ (z.bytes ++ more) :=
    SentReport.not_isPrefix hnone fun w => w.not_isPrefix .highLuminosity _
  obtain ⟨longer, tokens, rest, hwind, htokens, hbytes, hgreedy⟩ :=
    next.exists_longer more fun hnone => hnext ▸ hfront hnone
  refine ⟨t, rfl, rfl, longer, tokens, hwind, ?_, hgreedy.isDecodedAt hcursor ?_⟩
  · rw [htokens, List.append_assoc]
    rfl
  · rw [hb, ← hnext, hbytes]

/-- Nothing is read from a wind without letters of which one half is below zero. -/
theorem WindBelowZero.decodeAt_eq {block : Bytes} (hblock : WindBelowZero block)
    (hcursor : cursor ≤ b.length) (hb : b.drop cursor = block ++ more) :
    decodeAt b cursor = .ok ({}, cursor) := by
  let r : SentReport := ⟨none, [], List.nodup_nil⟩
  have hgreedy : r.IsGreedy (block ++ more) :=
    ⟨fun _ w => hblock.not_isPrefix w more, fun t _ => hblock.not_isPrefix_token t more⟩
  exact decodeAt_of_isGreedy hcursor hb hgreedy

end Decoded

/-- Wherever the reading of a report has come to, a number below zero whose letter is not that of
a temperature ends it there, with what was read until then. A luminosity over a thousand gets its
thousand back before its sign is looked at, so it is read, unless its letter was used before. A
wind without letters is left out whole if one half of it is below zero. -/
theorem decodeAt_belowZero (b : Bytes) (cursor : Nat) :
    (∀ (r : SentReport) (tag : Tag) (z : BelowZero tag) (more : Bytes), tag ≠ .temperature →
      b.drop cursor = r.bytes ++ (z.bytes ++ more) →
      ((tag = .highLuminosity → tag ∈ r.tags) → r.IsDecodedAt b cursor) ∧
      (tag = .highLuminosity → tag ∉ r.tags →
        ∃ t : SentToken, t.bytes = z.bytes ∧ t.token = ⟨tag, some (z.number + 1000)⟩ ∧
          ∃ longer : SentReport, ∃ tokens, longer.wind = r.wind ∧
            longer.tokens = r.tokens ++ t :: tokens ∧ longer.IsDecodedAt b cursor)) ∧
    ∀ block more : Bytes, WindBelowZero block → b.drop cursor = block ++ more →
      decodeAt b cursor = .ok ({}, cursor) := by
  have hinside {ahead : Bytes} (hb : b.drop cursor = ahead) (hsome : ahead ≠ []) :
      cursor ≤ b.length :=
    Nat.le_of_not_le fun hpast => hsome (hb.symm.trans (List.drop_eq_nil_of_le hpast))
  constructor
  · intro r tag z more htag hb
    have hcursor := hinside hb (by simp [BelowZero.bytes])
    refine ⟨fun hhigh => z.isDecodedAt htag hhigh hcursor hb, ?_⟩
    rintro rfl hunused
    exact z.isDecodedAt_highLuminosity hunused hcursor hb
  · intro block more hblock hb
    have hcursor := hinside hb fun hempty =>
      hblock.ne_nil (List.append_eq_nil_iff.1 hempty).1
    exact hblock.decodeAt_eq hcursor hb

/-- A percentage below zero ends a report behind a temperature below zero, a luminosity that is to
have its thousand back does not, and a wind of which the speed is below zero is left out. -/
theorem decodeAt_belowZero_refused :
    (∃ r : SentReport, ∃ z : BelowZero .humidity,
      (Latin1.ascii "_t-05h-5s010").drop 1 = r.bytes ++ (z.bytes ++ Latin1.ascii "s010") ∧
      z.number = -5 ∧ r.stated = [⟨.temperature, some (-5)⟩] ∧
      r.IsDecodedAt (Latin1.ascii "_t-05h-5s010") 1) ∧
    (∃ t : SentToken, t.bytes = Latin1.ascii "l-01" ∧ t.token = ⟨.highLuminosity, some 999⟩ ∧
      ∃ longer : SentReport, ∃ tokens, longer.wind = none ∧ longer.tokens = t :: tokens ∧
        longer.IsDecodedAt (Latin1.ascii "_l-01g005") 1) ∧
    WindBelowZero (Latin1.ascii "220/-04") ∧
      decodeAt (Latin1.ascii "_220/-04t077") 1 = .ok ({}, 1) := by
  let t : SentToken :=
    ⟨.temperature, Latin1.ascii "-05", some (-5), Tag.accepts_of_ofText? rfl (by decide)⟩
  let r : SentReport := ⟨none, [t], by decide⟩
  let empty : SentReport := ⟨none, [], List.nodup_nil⟩
  let humidity : BelowZero .humidity :=
    ⟨Latin1.ascii "-5", -5, rfl, readNumber?_eq_some_iff.1 (by decide), by decide⟩
  let luminosity : BelowZero .highLuminosity :=
    ⟨Latin1.ascii "-01", -1, rfl, readNumber?_eq_some_iff.1 (by decide), by decide⟩
  let speed : BelowZero .windSpeed :=
    ⟨Latin1.ascii "-04", -4, rfl, readNumber?_eq_some_iff.1 (by decide), by decide⟩
  have hdirection : IsField (Latin1.decode (Latin1.ascii "220")) (some 220) :=
    readNumber?_eq_some_iff.1 (by decide)
  have hblock : WindBelowZero (Latin1.ascii "220/-04") := .speed rfl hdirection speed
  have hrefused := ((decodeAt_belowZero (Latin1.ascii "_t-05h-5s010") 1).1 r .humidity humidity
    (Latin1.ascii "s010") (by decide) rfl).1 fun hhigh => by cases hhigh
  have hread := ((decodeAt_belowZero (Latin1.ascii "_l-01g005") 1).1 empty .highLuminosity
    luminosity (Latin1.ascii "g005") (by decide) rfl).2 rfl (by decide)
  have hwind := (decodeAt_belowZero (Latin1.ascii "_220/-04t077") 1).2 _ (Latin1.ascii "t077")
    hblock rfl
  exact ⟨⟨r, humidity, rfl, rfl, rfl, hrefused⟩, hread, hblock, hwind⟩

/-- Not every number below zero is refused: a luminosity of 999 comes from one. -/
theorem not_decodeAt_belowZero :
    ¬ ∀ (b : Bytes) (cursor : Nat) (r : SentReport) (tag : Tag) (z : BelowZero tag) (more : Bytes),
      tag ≠ .temperature → b.drop cursor = r.bytes ++ (z.bytes ++ more) → r.IsDecodedAt b cursor := by
  intro hall
  let z : BelowZero .highLuminosity :=
    ⟨Latin1.ascii "-01", -1, rfl, readNumber?_eq_some_iff.1 (by decide), by decide⟩
  have hrun : decodeAt (Latin1.ascii "l-01") 0 = .ok ({ luminosity := some 999 }, 4) :=
    toOption_eq_some_iff.1 (by decide +kernel)
  obtain ⟨w, hw, _⟩ :=
    hall (Latin1.ascii "l-01") 0 ⟨none, [], List.nodup_nil⟩ .highLuminosity z [] (by decide) rfl
  have hstop := (Prod.mk.inj (Except.ok.inj (hrun.symm.trans hw))).2
  cases hstop

end Aprs.Weather
