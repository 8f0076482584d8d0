import Aprs.DataType
import Aprs.Information

namespace Aprs

namespace Body

/-- Why a body was given up: an error, the cursor at which its decoder was started, and what
was known of the body before. -/
structure Failure (R : Type) where
  known : Information R
  error : DecodeError
  cursor : Nat

variable {R : Type}

/-- Reads at a cursor after some elements of a body have been read. -/
def decodeAfter {α : Type} (before : List (Element R))
    (decodeAt : Bytes → Nat → Except DecodeError (α × Nat)) (s : Bytes) (cursor : Nat) :
    Except (Failure R) (α × Nat) :=
  (decodeAt s cursor).mapError fun error => ⟨{ elements := before }, error, cursor⟩

variable [Arithmetic R]

/-- What follows a position: an extension if it has one, and a comment, which may state an
altitude. If the comment cannot be searched the position is still known. -/
def decodeComment (before : List (Element R)) (p : Position R) (s : Bytes) (cursor : Nat) :
    Except (Failure R) (Information R) :=
  let (extension, stop) := p.extensionAt s cursor
  let known (altitude : Option Nat) : Information R :=
    { elements := before ++ [.position { p with altitude }], comment := s.drop stop, extension }
  match Altitude.decodeAt s stop with
  | .ok (altitude, _) => .ok (known altitude)
  | .error error => .error ⟨known p.altitude, error, stop⟩

/-- What follows the position of a weather station. The comment of a weather report is not
searched for an altitude. -/
def decodeStation (before : List (Element R)) (p : Position R) (s : Bytes) (cursor : Nat) :
    Except (Failure R) (Information R) := do
  let (weather, stop) ← decodeAfter before Weather.decodeAt s cursor
  return { elements := before ++ [.position p, .weather weather], comment := s.drop stop }

/-- A position behind a time. Whatever its length, the body of a weather station has a weather
report behind the position. -/
def decodeTimestampedPosition (s : Bytes) : Except (Failure R) (Information R) := do
  let (timestamp, cursor) ← decodeAfter [] Timestamp.decode.runAt s 1
  let before := [Element.timestamp timestamp]
  let (p, cursor) ← decodeAfter before Position.decode.runAt s cursor
  (if p.isWeatherStation then decodeStation else decodeComment) before p s cursor

/-- Without a time, a body of at most twenty octets is not taken to hold a weather report
behind the position, whatever the symbol. -/
def decodePosition (s : Bytes) : Except (Failure R) (Information R) := do
  let (p, cursor) ← decodeAfter [] Position.decode.runAt s 1
  (if p.isWeatherStation ∧ 20 < s.length then decodeStation else decodeComment) [] p s cursor

/-- A message fills its body, so there is no comment behind it. -/
def decodeMessage (s : Bytes) : Except (Failure R) (Information R) := do
  let (message, _) ← decodeAfter [] Message.decode.runAt s 1
  return { elements := [.message message] }

/-- The comment and the extension of an object are those of its body as well. -/
def decodeObject (s : Bytes) : Except (Failure R) (Information R) := do
  let (object, _) ← decodeAfter [] Object.decode.runAt s 1
  return { elements := [.object object], comment := object.comment,
           extension := object.extension }

/-- The comment and the extension of an item are those of its body as well. -/
def decodeItem (s : Bytes) : Except (Failure R) (Information R) := do
  let (item, _) ← decodeAfter [] Item.decode.runAt s 1
  return { elements := [.item item], comment := item.comment, extension := item.extension }

/-- A weather report without a position, which may begin with a month, a day and a time. -/
def decodeWeather (s : Bytes) : Except (Failure R) (Information R) := do
  let (before, cursor) :=
    match Timestamp.decodeMonthly.runAt s 1 with
    | .ok (timestamp, cursor) => ([Element.timestamp timestamp], cursor)
    | .error _ => ([], 1)
  let (weather, stop) ← decodeAfter before Weather.decodeAt s cursor
  return { elements := before ++ [.weather weather], comment := s.drop stop }

/-- What is known of a body, and why decoding it stopped if it did. What was known before an
error is kept in front of the fault. -/
def finish (messaging : Bool) (result : Except (Failure R) (Information R)) :
    Information R × Option String :=
  match result with
  | .ok information => ({ information with messaging }, none)
  | .error failure =>
    let reason := failure.error.message
    let fault := Element.fault ⟨reason, failure.cursor⟩
    ({ failure.known with elements := failure.known.elements ++ [fault], messaging }, some reason)

/-- A report that is too short for any object stands for one that is not there. -/
def shortObject (s : Bytes) : Information R × Option String :=
  let reason :=
    "Object body too short (" ++ toString s.length ++ " bytes) for a valid object"
  ({ elements := [.object (Object.placeholder reason)] }, some reason)

/-- Decodes a body of a data type, with the terminator of its line taken off. Types that are
not read further leave nothing but the type. -/
def read (type : DataType) (s : Bytes) : Information R × Option String :=
  match type with
  | .position true messaging => finish messaging (decodeTimestampedPosition s)
  | .position false messaging => finish messaging (decodePosition s)
  | .message => finish false (decodeMessage s)
  | .object => if s.length < 30 then shortObject s else finish false (decodeObject s)
  | .item => finish false (decodeItem s)
  | .positionlessWeather | .peetBrosWeather => finish false (decodeWeather s)
  | .micE => finish false (.error ⟨{}, .positionFormat s, 1⟩)
  | .rawGps =>
    if (Latin1.ascii "$ULTW").isPrefixOf s then ({}, none)
    else finish false (.error ⟨{}, .positionFormat s, 1⟩)
  | .status | .stationCapabilities | .query | .userDefined | .thirdParty | .telemetry
  | .reserved _ | .unknown _ => ({}, none)

end Body

end Aprs
