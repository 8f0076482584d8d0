import Aprs.Decoder
import Aprs.Weather.Token

namespace Aprs

/-- A weather report. What the station does not report is `none`. -/
structure Weather where
  /-- In degrees. -/
  windDirection : Option Nat := none
  /-- In miles per hour, sustained for a minute. -/
  windSpeed : Option Nat := none
  /-- In miles per hour, the peak of five minutes. -/
  windGust : Option Nat := none
  /-- In degrees Fahrenheit. -/
  temperature : Option Int := none
  /-- In hundredths of an inch, as all rain is. -/
  rainHour : Option Nat := none
  rainDay : Option Nat := none
  rainMidnight : Option Nat := none
  /-- In percent. -/
  humidity : Option Nat := none
  /-- In tenths of a millibar. -/
  pressure : Option Nat := none
  /-- In watts per square metre. -/
  luminosity : Option Nat := none
  deriving DecidableEq, Repr

namespace Weather

/-- The report with one more token. A token without a value changes nothing. -/
def insert (w : Weather) (token : Token) : Weather :=
  match token.value with
  | none => w
  | some q =>
    match token.tag with
    | .windDirection => { w with windDirection := some q.toNat }
    | .windSpeed => { w with windSpeed := some q.toNat }
    | .windGust => { w with windGust := some q.toNat }
    | .temperature => { w with temperature := some q }
    | .rainHour => { w with rainHour := some q.toNat }
    | .rainDay => { w with rainDay := some q.toNat }
    | .rainMidnight => { w with rainMidnight := some q.toNat }
    | .humidity => { w with humidity := some q.toNat }
    | .pressure => { w with pressure := some q.toNat }
    | .luminosity => { w with luminosity := some q.toNat }
    | .highLuminosity => { w with luminosity := some q.toNat }

/-- The report that some tokens make. Where two of them have values for one quantity, the later
one counts. -/
def ofTokens (tokens : List Token) : Weather := tokens.foldl insert {}

/-- The tokens of a report and what follows them. The wind may come first without letters,
and then its letters are used up. -/
def readTokens (b : Bytes) : List Token × Bytes :=
  let (wind, rest) := (Token.readWind? b).getD ([], b)
  let (tokens, rest) := Token.readAll (wind.map (·.tag)) rest
  (wind ++ tokens, rest)

/-- Reads a report. It ends quietly before the first octets that are no token or that repeat
a letter, so there is no octet string without a report, be it an empty one. -/
def read (b : Bytes) : Weather × Bytes :=
  let (tokens, rest) := readTokens b
  (ofTokens tokens, rest)

/-- A report at the front of the octets. There always is one, so this is a decoder without
errors. -/
def decode : Decoder Weather := fun b => .ok (read b)

/-- Decodes a report at a cursor, which may stand at the end of the body. -/
def decodeAt (body : Bytes) (cursor : Nat) : Except DecodeError (Weather × Nat) :=
  decode.runWithin body cursor

end Weather

end Aprs
