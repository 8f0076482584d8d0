import Aprs.Decimal.Digits
import Aprs.Text.Latin1

namespace Aprs.Weather

/-- The quantities that a weather report has letters for. -/
inductive Tag where
  | windDirection
  | windSpeed
  | windGust
  | temperature
  | rainHour
  | rainDay
  | rainMidnight
  | humidity
  | pressure
  | luminosity
  /-- Luminosity from 1000 on, of which the first digit is not sent. -/
  | highLuminosity
  deriving DecidableEq, Repr

namespace Tag

/-- The letter in front of a quantity. Its case counts: `P` is not `p`, and `L` is not `l`. -/
def letter : Tag → Char
  | windDirection => 'c'
  | windSpeed => 's'
  | windGust => 'g'
  | temperature => 't'
  | rainHour => 'r'
  | rainDay => 'p'
  | rainMidnight => 'P'
  | humidity => 'h'
  | pressure => 'b'
  | luminosity => 'L'
  | highLuminosity => 'l'

/-- The quantity that a letter announces, if there is one. -/
def ofLetter? : Char → Option Tag
  | 'c' => some windDirection
  | 's' => some windSpeed
  | 'g' => some windGust
  | 't' => some temperature
  | 'r' => some rainHour
  | 'p' => some rainDay
  | 'P' => some rainMidnight
  | 'h' => some humidity
  | 'b' => some pressure
  | 'L' => some luminosity
  | 'l' => some highLuminosity
  | _ => none

/-- The width of the field behind a letter. -/
def width : Tag → Nat
  | humidity => 2
  | pressure => 5
  | _ => 3

/-- The quantity that a field with number `n` states. Two digits for a percentage leave 100
to be sent as zero, and a high luminosity gets its first digit back. Only a temperature can
be negative, and any other quantity below zero is refused. -/
def quantity? (tag : Tag) (n : Int) : Option Int :=
  let q :=
    match tag with
    | humidity => if n = 0 then 100 else n
    | highLuminosity => n + 1000
    | _ => n
  if tag = temperature ∨ 0 ≤ q then some q else none

end Tag

/-- One quantity of a report. A station that does not measure it has no value for it. -/
structure Token where
  tag : Tag
  value : Option Int
  deriving DecidableEq, Repr

/-- Reads a number with an optional minus sign. Dots or spaces throughout stand for a
quantity that is not reported. -/
def readNumber? (text : List Char) : Option (Option Int) :=
  if text.all (· = '.') || text.all (· = ' ') then some none
  else
    match text with
    | ['-'] => none
    | '-' :: digits => (Decimal.ofText? digits).map fun n => some (-(n : Int))
    | digits => (Decimal.ofText? digits).map fun n => some (n : Int)

namespace Token

/-- Reads the field behind a letter. One that states nothing is a token without a value. -/
def ofText? (tag : Tag) (text : List Char) : Option Token :=
  match readNumber? text with
  | none => none
  | some none => some ⟨tag, none⟩
  | some (some n) => (tag.quantity? n).map fun q => ⟨tag, some q⟩

/-- The token at the front of the octets, if one is there, and what follows it. -/
def next? : Bytes → Option (Token × Bytes)
  | [] => none
  | first :: rest => do
    let tag ← Tag.ofLetter? (Char.ofUInt8 first)
    let (field, rest) ← splitAt? tag.width rest
    let token ← ofText? tag (Latin1.decode field)
    some (token, rest)

theorem length_lt_of_next? {b rest : Bytes} {token : Token} (hnext : next? b = some (token, rest)) :
    rest.length < b.length := by
  cases b with
  | nil => simp [next?] at hnext
  | cons first b =>
    simp only [next?, bind, Option.bind_eq_some_iff] at hnext
    obtain ⟨tag, _, ⟨field, after⟩, hsplit, token', _, hrest⟩ := hnext
    obtain ⟨rfl, _⟩ := splitAt?_eq_some_iff.1 hsplit
    obtain ⟨_, rfl⟩ := Prod.mk.inj (Option.some.inj hrest)
    simp only [List.length_cons, List.length_append]
    omega

/-- As many tokens as follow each other with letters that were not used before. -/
def readAll (used : List Tag) (b : Bytes) : List Token × Bytes :=
  match _hnext : next? b with
  | none => ([], b)
  | some (token, rest) =>
    if token.tag ∈ used then ([], b)
    else
      let more := readAll (token.tag :: used) rest
      (token :: more.1, more.2)
  termination_by b.length
  decreasing_by exact length_lt_of_next? _hnext

/-- Direction and speed of the wind without letters, as in `220/004`. Both are needed, and
both have to be acceptable under their letters. -/
def readWind? (b : Bytes) : Option (List Token × Bytes) := do
  let (block, rest) ← splitAt? 7 b
  match Latin1.decode block with
  | [a, b, c, '/', d, e, f] =>
    let direction ← ofText? .windDirection [a, b, c]
    let speed ← ofText? .windSpeed [d, e, f]
    some ([direction, speed], rest)
  | _ => none

end Token

end Aprs.Weather
