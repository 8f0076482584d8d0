namespace Aprs

/-- What a body is, as its first octet tells. -/
inductive DataType where
  /-- With a time in front of it or without, from a station that handles messages or from
  one that does not. -/
  | position (timestamped messaging : Bool)
  | micE
  /-- A sentence of a GPS receiver, or data of a weather station. -/
  | rawGps
  | message
  | object
  | item
  | status
  | stationCapabilities
  | query
  | userDefined
  | thirdParty
  | telemetry
  | peetBrosWeather
  | positionlessWeather
  /-- A digit or a capital letter other than `T`. Bodies of other protocols share them. -/
  | reserved (b : UInt8)
  | unknown (b : UInt8)
  deriving DecidableEq, Repr

/-- The type that an octet announces. No octet is refused: those that announce nothing are
reserved or unknown. -/
def DataType.ofByte (b : UInt8) : DataType :=
  match Char.ofUInt8 b with
  | '!' => position false false
  | '=' => position false true
  | '/' => position true false
  | '@' => position true true
  | '\x60' => micE
  | '\x27' => micE
  | '$' => rawGps
  | ':' => message
  | ';' => object
  | ')' => item
  | '>' => status
  | '<' => stationCapabilities
  | '?' => query
  | '\x7b' => userDefined
  | '\x7d' => thirdParty
  | 'T' => telemetry
  | '#' => peetBrosWeather
  | '*' => peetBrosWeather
  | '_' => positionlessWeather
  | c => if c.isDigit || c.isUpper then reserved b else unknown b

end Aprs
