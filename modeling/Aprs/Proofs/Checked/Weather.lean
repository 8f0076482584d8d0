import Aprs.Proofs.Checked.Basic
import Aprs.Proofs.Weather

namespace Aprs

open Checked

namespace Weather

/-- The letters in the order in which a table of them is searched. -/
def Tag.table : List Tag :=
  [.windDirection, .windSpeed, .windGust, .temperature, .rainHour, .rainDay, .rainMidnight,
    .humidity, .pressure, .luminosity, .highLuminosity]

/-- The place of a letter in the table. -/
def Tag.place (tag : Tag) : Nat := Tag.table.findIdx (· = tag)

theorem Tag.place_lt (tag : Tag) : tag.place < 11 := by
  cases tag <;> decide

theorem Tag.table_place (tag : Tag) : Tag.table[tag.place]? = some tag := by
  cases tag <;> rfl

theorem Tag.findIdx?_table (c : Char) :
    Tag.table.findIdx? (fun tag => tag.letter = c) = (Tag.ofLetter? c).map Tag.place := by
  unfold Tag.ofLetter?
  split
  case h_12 =>
    refine List.findIdx?_eq_none_iff.2 fun tag _ => ?_
    cases tag <;> simp_all [Tag.letter, eq_comm]
  all_goals rfl

/-- The flags of a table of letters that tell which were used. -/
def seenOf (used : List Tag) : List Bool := Tag.table.map fun tag => tag ∈ used

theorem seenOf_place (used : List Tag) (tag : Tag) :
    (seenOf used)[tag.place]? = some (decide (tag ∈ used)) := by
  unfold seenOf
  rw [List.getElem?_map, Tag.table_place]
  rfl

theorem set_seenOf (used : List Tag) (tag : Tag) :
    (seenOf used).set tag.place true = seenOf (tag :: used) := by
  cases tag <;> simp [seenOf, Tag.table, Tag.place, List.findIdx_cons]

/-- The token at a cursor, told with its place in the table, if there is one with a letter
that was not used before. -/
def checkedToken (b : Bytes) (seen : List Bool) (cursor : Nat) (first : UInt8) :
    Checked (Option (Nat × Token)) :=
  match Tag.table.findIdx? fun tag => tag.letter = Char.ofUInt8 first with
  | none => return none
  | some place => do
    if ← index seen place then return none
    else
      let tag ← index Tag.table place
      let start ← advance cursor 1
      let stop ← advance start tag.width
      return do
        let field ← slice? b start stop
        let token ← Token.ofText? tag (Latin1.decode field)
        some (place, token)

/-- Reads tokens until there is none. -/
def checkedTokens (b : Bytes) (seen : List Bool) (w : Weather) (cursor : Nat) :
    Checked (Weather × Nat) :=
  match _hfirst : (b[cursor]? : Option UInt8) with
  | none => return (w, cursor)
  | some first => do
    match ← checkedToken b seen cursor first with
    | none => return (w, cursor)
    | some (place, token) =>
      let seen ← set seen place true
      let _ ← advance cursor (1 + token.tag.width)
      checkedTokens b seen (w.insert token) (cursor + (1 + token.tag.width))
  termination_by b.length - cursor
  decreasing_by
    obtain ⟨hcursor, _⟩ := List.getElem?_eq_some_iff.1 _hfirst
    omega

/-- The wind at a cursor, if it is there without its letters. -/
def checkedWind (b : Bytes) (cursor : Nat) : Checked (Option (List Token)) := do
  let stop ← advance cursor 7
  match slice? b cursor stop with
  | none => return none
  | some block =>
    let text := Latin1.decode block
    if (← index text 3) = '/' then
      let direction ← slice text 0 3
      let speed ← tail text 4
      return do
        let direction ← Token.ofText? .windDirection direction
        let speed ← Token.ofText? .windSpeed speed
        some [direction, speed]
    else return none

/-- How the machine decodes a weather report. A flag for each letter tells whether it was used,
and a wind in front sets the first two of them. -/
def checkedAt (b : Bytes) (cursor : Nat) : Checked (Weather × Nat) :=
  if b.length < cursor then throw (.cursorOutOfBounds cursor b.length)
  else do
    let seen := List.replicate 11 false
    match ← checkedWind b cursor with
    | none => checkedTokens b seen {} cursor
    | some wind =>
      let seen ← set seen 0 true
      let seen ← set seen 1 true
      let cursor ← advance cursor 7
      checkedTokens b seen (ofTokens wind) cursor

variable {b : Bytes} {cursor : Nat}

/-- A letter is found by its place in the table where it is found by name, and the octets
behind it are looked at only if they are there. -/
theorem checkedToken_eq (hlength : b.length < 2 ^ 63) (used : List Tag) {first : UInt8}
    (hfirst : b[cursor]? = some first) :
    checkedToken b (seenOf used) cursor first = done (.ok
      (match Token.next? (b.drop cursor) with
      | none => none
      | some (token, _) => if token.tag ∈ used then none else some (token.tag.place, token))) := by
  obtain ⟨hcursor, hget⟩ := List.getElem?_eq_some_iff.1 hfirst
  have hrest : b.drop cursor = first :: b.drop (cursor + 1) := by
    rw [List.drop_eq_getElem_cons hcursor, hget]
  unfold checkedToken
  rw [hrest, Tag.findIdx?_table]
  simp only [Token.next?, Option.bind_eq_bind]
  cases Tag.ofLetter? (Char.ofUInt8 first) with
  | none => rfl
  | some tag =>
    have hwidth : tag.width ≤ 5 := by cases tag <;> decide
    simp only [Option.map_some, index_eq_of_getElem? (seenOf_place used tag),
      index_eq_of_getElem? tag.table_place, done_ok_bind, Option.bind_some]
    rw [advance_eq (by omega), done_ok_bind, advance_eq (by omega), done_ok_bind,
      slice?_add hcursor]
    cases splitAt? tag.width (b.drop (cursor + 1)) with
    | none => split <;> rfl
    | some parts =>
      simp only [Option.map_some, Option.bind_some]
      cases htoken : Token.ofText? tag (Latin1.decode parts.1) with
      | none => split <;> rfl
      | some token =>
        simp only [Option.bind_some, Token.ofText?_tag htoken, decide_eq_true_eq]
        split <;> rfl

theorem checkedTokens_stop {seen : List Bool} (w : Weather)
    (hnone : ∀ first, b[cursor]? = some first →
      checkedToken b seen cursor first = done (.ok none)) :
    checkedTokens b seen w cursor = done (.ok (w, cursor)) := by
  unfold checkedTokens
  split
  case h_1 => rfl
  case h_2 first hfirst =>
    rw [hnone first hfirst]
    rfl

/-- One token moves the cursor behind it, sets its flag and adds what it says to the report. -/
theorem checkedTokens_step (hlength : b.length < 2 ^ 63) {used : List Tag} (w : Weather)
    {token : Token} {rest : Bytes} (hnext : Token.next? (b.drop cursor) = some (token, rest))
    (hunused : token.tag ∉ used) :
    checkedTokens b (seenOf used) w cursor =
      checkedTokens b (seenOf (token.tag :: used)) (w.insert token)
        (cursor + (1 + token.tag.width)) := by
  obtain ⟨hroom, _⟩ := Token.next?_ok hnext
  rw [List.length_drop] at hroom
  have hplace : token.tag.place < (seenOf used).length := token.tag.place_lt
  rw [checkedTokens]
  split
  case h_1 hnone =>
    rw [List.getElem?_eq_none_iff] at hnone
    omega
  case h_2 first hfirst =>
    rw [checkedToken_eq hlength used hfirst, hnext]
    simp only [if_neg hunused, done_ok_bind]
    rw [set_eq hplace, done_ok_bind, advance_eq (by omega), done_ok_bind, set_seenOf]

/-- The loop over the tokens never traps. Each turn uses a letter up and moves the cursor by
the token, which is in the body. -/
theorem checkedTokens_eq (hlength : b.length < 2 ^ 63) (used : List Tag) (w : Weather)
    (hcursor : cursor ≤ b.length) :
    checkedTokens b (seenOf used) w cursor =
      done (.ok ((Token.readAll used (b.drop cursor)).1.foldl insert w,
        b.length - (Token.readAll used (b.drop cursor)).2.length)) := by
  generalize hrest : b.drop cursor = rest
  fun_induction Token.readAll used rest generalizing w cursor with
  | case1 used rest hnext =>
    have hnone (first : UInt8) (hfirst : b[cursor]? = some first) :
        checkedToken b (seenOf used) cursor first = done (.ok none) := by
      rw [checkedToken_eq hlength used hfirst, hrest, hnext]
    rw [checkedTokens_stop w hnone, ← hrest, List.length_drop, Nat.sub_sub_self hcursor]
    rfl
  | case2 used rest token after hnext hused =>
    have hnone (first : UInt8) (hfirst : b[cursor]? = some first) :
        checkedToken b (seenOf used) cursor first = done (.ok none) := by
      rw [checkedToken_eq hlength used hfirst, hrest, hnext]
      simp only [if_pos hused]
    rw [checkedTokens_stop w hnone, ← hrest, List.length_drop, Nat.sub_sub_self hcursor]
    rfl
  | case3 used rest token after hnext hunused more =>
    rename_i ih
    subst hrest
    obtain ⟨hroom, hafter⟩ := Token.next?_ok hnext
    rw [List.length_drop] at hroom
    rw [List.drop_drop] at hafter
    rw [checkedTokens_step hlength w hnext hunused]
    exact ih (w.insert token) (by omega) hafter.symm

/-- The wind is cut out of the body only if seven octets are left of it. -/
theorem checkedWind_eq (hlength : b.length < 2 ^ 63) (hcursor : cursor ≤ b.length) :
    checkedWind b cursor = done (.ok ((Token.readWind? (b.drop cursor)).map (·.1))) := by
  unfold checkedWind Token.readWind?
  rw [advance_eq (by omega), done_ok_bind, slice?_add hcursor]
  cases hsplit : splitAt? 7 (b.drop cursor) with
  | none => rfl
  | some parts =>
    obtain ⟨block, rest⟩ := parts
    obtain ⟨_, hblock⟩ := splitAt?_eq_some_iff.1 hsplit
    simp only [Option.map_some, Option.bind_eq_bind, Option.bind_some]
    have htext := Latin1.length_decode block
    rw [hblock] at htext
    match Latin1.decode block, htext with
    | [a, b, c, slash, d, e, f], _ =>
      have hslash : index [a, b, c, slash, d, e, f] 3 = done (.ok slash) := rfl
      have hdirection : slice [a, b, c, slash, d, e, f] 0 3 = done (.ok [a, b, c]) := rfl
      have hspeed : tail [a, b, c, slash, d, e, f] 4 = done (.ok [d, e, f]) := rfl
      simp only [hslash, hdirection, hspeed, done_ok_bind]
      by_cases hmark : slash = '/'
      · subst hmark
        simp only [↓reduceIte]
        cases Token.ofText? .windDirection [a, b, c] with
        | none => rfl
        | some direction => cases Token.ofText? .windSpeed [d, e, f] <;> rfl
      · rw [if_neg hmark]
        split
        case h_1 heq =>
          simp only [List.cons.injEq] at heq
          exact absurd heq.2.2.2.1 hmark
        case h_2 => rfl

theorem readWind?_tags {rest : Bytes} {wind : List Token}
    (hwind : Token.readWind? b = some (wind, rest)) :
    wind.map (·.tag) = [.windDirection, .windSpeed] := by
  simp only [Token.readWind?, bind, Option.bind_eq_some_iff] at hwind
  obtain ⟨_, _, hwind⟩ := hwind
  split at hwind
  case h_2 => cases hwind
  case h_1 =>
    simp only [Option.bind_eq_some_iff] at hwind
    obtain ⟨direction, hdirection, speed, hspeed, heq⟩ := hwind
    obtain ⟨rfl, _⟩ := Prod.mk.inj (Option.some.inj heq)
    simp [Token.ofText?_tag hdirection, Token.ofText?_tag hspeed]

/-- The machine decodes a weather report without a trap, as every letter has its flag. -/
theorem checkedAt_eq (hlength : b.length < 2 ^ 63) (cursor : Nat) :
    checkedAt b cursor = done (decodeAt b cursor) := by
  unfold checkedAt decodeAt Decoder.runWithin
  by_cases hcursor : cursor ≤ b.length
  · have hfirst := hcursor
    rw [if_neg (by omega), if_pos hcursor, checkedWind_eq hlength hcursor]
    unfold Decoder.runAt decode read readTokens
    cases hwind : Token.readWind? (b.drop cursor) with
    | none =>
      have hseen : List.replicate 11 false = seenOf [] := rfl
      simp only [Option.map_none, done_ok_bind, hseen]
      rw [checkedTokens_eq hlength [] {} hcursor]
      rfl
    | some parts =>
      obtain ⟨wind, rest⟩ := parts
      obtain ⟨hroom, hrest⟩ := Token.readWind?_ok hwind
      rw [List.length_drop] at hroom
      rw [List.drop_drop] at hrest
      have hseen : ((List.replicate 11 false).set 0 true).set 1 true =
        seenOf (wind.map (·.tag)) := by
        rw [readWind?_tags hwind]
        rfl
      have hstop : cursor + 7 ≤ b.length := by omega
      have hwidth : 1 < ((List.replicate 11 false).set 0 true).length := by decide
      simp only [Option.map_some, done_ok_bind, Option.getD_some]
      rw [set_eq (by decide), done_ok_bind, set_eq hwidth, done_ok_bind, advance_eq (by omega),
        done_ok_bind, hseen, checkedTokens_eq hlength _ _ hstop, ← hrest, ofTokens, ofTokens,
        List.foldl_append]
  · rw [if_pos (by omega), if_neg hcursor]
    rfl

end Weather

end Aprs
