import Aprs.DataType

namespace Aprs.DataType

variable {b : UInt8}

theorem ofByte_eq_object_iff : ofByte b = .object ↔ Char.ofUInt8 b = ';' := by
  unfold ofByte
  split
  case h_20 => split <;> simp_all
  all_goals simp_all

theorem ofByte_eq_position_iff {messaging : Bool} :
    (∃ timed, ofByte b = .position timed messaging) ↔
      Char.ofUInt8 b = (if messaging then '=' else '!') ∨
        Char.ofUInt8 b = (if messaging then '@' else '/') := by
  unfold ofByte
  split
  case h_20 => cases messaging <;> split <;> simp_all
  all_goals cases messaging <;> simp_all

theorem ofByte_eq_weather_iff :
    ofByte b = .positionlessWeather ∨ ofByte b = .peetBrosWeather ↔
      Char.ofUInt8 b = '_' ∨ Char.ofUInt8 b = '#' ∨ Char.ofUInt8 b = '*' := by
  unfold ofByte
  split
  case h_20 => split <;> simp_all
  all_goals simp_all

end Aprs.DataType
