import Aprs.Item
import Aprs.Message
import Aprs.Object
import Aprs.Proofs.Bytes
import Aprs.Proofs.Width

namespace Aprs

variable {R : Type}

namespace Object

/-- The octets of an object in front of its comment. Name, mark and time take seventeen of
them. -/
def width (o : Object R) : Nat :=
  17 + o.position.elim 0 Position.width + Extension.width o.extension

theorem width_pos (o : Object R) : 0 < o.width := by
  unfold width
  omega

theorem width_eq {o : Object R} {p : Position R} (hposition : o.position = some p) :
    o.width = 17 + p.width + Extension.width o.extension := by
  rw [width, hposition, Option.elim_some]

variable [Arithmetic R]

/-- An object stands at fixed places up to its position. -/
theorem decode_eq (b : Bytes) :
    decode (R := R) b =
      match (b[9]? : Option UInt8) with
      | none => .error (.objectName (b.take 9))
      | some mark => do
        let (timestamp, _) ← Timestamp.decode (b.drop 10)
        let ((position, extension), comment) ←
          (Position.decodeWithExtension (b.drop 17)).mapError (·.locate 17 b.length)
        return ({
          name := trimSpaces (b.take 9)
          live := mark = 0x2A
          timestamp := some timestamp
          position := some { position with altitude := Altitude.scan comment }
          extension
          comment
          fault := none }, comment) := by
  unfold decode
  cases hmark : b[9]? with
  | none =>
    have hlength : b.length ≤ 9 := List.getElem?_eq_none_iff.1 hmark
    rcases splitAt?_of_getElem?_eq_none hmark with hsplit | hsplit
    · simp only [hsplit, List.take_of_length_le hlength]
    · simp only [hsplit]
  | some mark =>
    simp only [splitAt?_of_getElem? hmark]
    cases htimestamp : Timestamp.decode (b.drop 10) with
    | error e => rfl
    | ok parts =>
      obtain ⟨timestamp, rest⟩ := parts
      obtain ⟨hroom, hrest⟩ := Timestamp.decode_takes htimestamp
      rw [List.drop_drop] at hrest
      have hseven : 7 ≤ b.length - 10 := List.length_drop ▸ hroom
      have hplace : b.length - (b.drop 17).length = 17 := by
        rw [List.length_drop]
        omega
      simp only [hrest, ok_bind, Decoder.runOn, hplace]

/-- What an object was decoded from, part by part at fixed places. -/
theorem decode_ok {b rest : Bytes} {o : Object R} (hdecode : decode b = .ok (o, rest)) :
    ∃ (mark : UInt8) (timestamp : Timestamp) (position : Position R)
        (extension : Option Extension), b[9]? = some mark ∧
      (∃ after, Timestamp.decode (b.drop 10) = .ok (timestamp, after)) ∧
      Position.decodeWithExtension (b.drop 17) = .ok ((position, extension), rest) ∧
      o = {
        name := trimSpaces (b.take 9)
        live := mark = 0x2A
        timestamp := some timestamp
        position := some { position with altitude := Altitude.scan rest }
        extension
        comment := rest
        fault := none } := by
  rw [decode_eq] at hdecode
  cases hmark : b[9]? with
  | none =>
    rw [hmark] at hdecode
    cases hdecode
  | some mark =>
    rw [hmark] at hdecode
    obtain ⟨⟨timestamp, after⟩, htimestamp, hdecode⟩ := bind_eq_ok_iff.1 hdecode
    obtain ⟨⟨⟨position, extension⟩, comment⟩, hposition, heq⟩ := bind_eq_ok_iff.1 hdecode
    obtain ⟨rfl, rfl⟩ := Prod.mk.inj (Except.ok.inj heq)
    exact ⟨mark, timestamp, position, extension, rfl, ⟨after, htimestamp⟩,
      mapError_eq_ok_iff.1 hposition, rfl⟩

theorem decode_takes : (decode (R := R)).Takes width := by
  intro b o rest hdecode
  obtain ⟨mark, timestamp, position, extension, hmark, _, hposition, rfl⟩ := decode_ok hdecode
  obtain ⟨hwidth, hrest⟩ := Position.decodeWithExtension_takes hposition
  dsimp only at hwidth hrest
  obtain ⟨hname, _⟩ := List.getElem?_eq_some_iff.1 hmark
  have hpositive := position.width_pos
  rw [List.length_drop] at hwidth
  rw [List.drop_drop] at hrest
  simp only [width, Option.elim_some, Position.width_withAltitude]
  rw [hrest, Nat.add_assoc]
  exact ⟨by omega, rfl⟩

end Object

namespace Item

/-- The octets of an item in front of its comment. One of them ends the name. -/
def width (i : Item R) : Nat :=
  i.name.length + 1 + i.position.width + Extension.width i.extension

theorem width_pos (i : Item R) : 0 < i.width := by
  unfold width
  omega

theorem nameLength?_eq_some {b : Bytes} {n : Nat} (hname : nameLength? b = some n) :
    3 ≤ n ∧ n ≤ 9 ∧ ∃ mark, b[n]? = some mark ∧ endsName mark := by
  obtain ⟨i, hfind, rfl⟩ := Option.map_eq_some_iff.1 hname
  obtain ⟨hi, hends, _⟩ := List.findIdx?_eq_some_iff_getElem.1 hfind
  simp only [List.length_drop, List.length_take] at hi
  simp only [List.getElem_drop, List.getElem_take] at hends
  refine ⟨by omega, by omega, b[3 + i], ?_, hends⟩
  rw [Nat.add_comm, List.getElem?_eq_getElem]

variable [Arithmetic R]

/-- An item stands at the places that the length of its name fixes. -/
theorem decode_eq (b : Bytes) :
    decode (R := R) b =
      match nameLength? b with
      | none => .error (.itemName (b.take 10))
      | some n => do
        let ((position, extension), comment) ←
          (Position.decodeWithExtension (b.drop (n + 1))).mapError (·.locate (n + 1) b.length)
        return ({
          name := b.take n
          live := b[n]? = some 0x21
          position := { position with altitude := Altitude.scan comment }
          extension
          comment }, comment) := by
  unfold decode
  cases hname : nameLength? b with
  | none => rfl
  | some n =>
    obtain ⟨_, _, mark, hmark, _⟩ := nameLength?_eq_some hname
    obtain ⟨hn, _⟩ := List.getElem?_eq_some_iff.1 hmark
    have hplace : b.length - (b.drop (n + 1)).length = n + 1 := by
      rw [List.length_drop]
      omega
    simp only [Option.bind_some, splitAt?_of_getElem? hmark, hmark, Decoder.runOn, hplace,
      Option.some.injEq]

/-- What an item was decoded from, part by part behind its name. -/
theorem decode_ok {b rest : Bytes} {x : Item R} (hdecode : decode b = .ok (x, rest)) :
    ∃ (n : Nat) (position : Position R) (extension : Option Extension),
      nameLength? b = some n ∧
      Position.decodeWithExtension (b.drop (n + 1)) = .ok ((position, extension), rest) ∧
      x = {
        name := b.take n
        live := b[n]? = some 0x21
        position := { position with altitude := Altitude.scan rest }
        extension
        comment := rest } := by
  rw [decode_eq] at hdecode
  cases hname : nameLength? b with
  | none =>
    rw [hname] at hdecode
    cases hdecode
  | some n =>
    rw [hname] at hdecode
    obtain ⟨⟨⟨position, extension⟩, comment⟩, hposition, heq⟩ := bind_eq_ok_iff.1 hdecode
    obtain ⟨rfl, rfl⟩ := Prod.mk.inj (Except.ok.inj heq)
    exact ⟨n, position, extension, rfl, mapError_eq_ok_iff.1 hposition, rfl⟩

theorem decode_takes : (decode (R := R)).Takes width := by
  intro b x rest hdecode
  obtain ⟨n, position, extension, hname, hposition, rfl⟩ := decode_ok hdecode
  obtain ⟨_, _, mark, hmark, _⟩ := nameLength?_eq_some hname
  obtain ⟨hn, _⟩ := List.getElem?_eq_some_iff.1 hmark
  obtain ⟨hwidth, hrest⟩ := Position.decodeWithExtension_takes hposition
  dsimp only at hwidth hrest
  rw [List.length_drop] at hwidth
  rw [List.drop_drop] at hrest
  simp only [width, Position.width_withAltitude, List.length_take, Nat.min_eq_left (Nat.le_of_lt hn)]
  rw [hrest, Nat.add_assoc]
  exact ⟨by omega, rfl⟩

end Item

namespace Message

/-- A message is told by the colon behind its addressee. -/
theorem decode_eq (b : Bytes) :
    decode b =
      if b[9]? = some 0x3A then .ok (ofParts (trimSpaces (b.take 9)) (b.drop 10), [])
      else .error (.addressee (b.takeWhile (· ≠ 0x3A))) := by
  unfold decode
  cases hmark : b[9]? with
  | none => rcases splitAt?_of_getElem?_eq_none hmark with hsplit | hsplit <;> simp [hsplit]
  | some mark =>
    simp only [splitAt?_of_getElem? hmark, Option.some.injEq]
    by_cases hcolon : mark = 0x3A
    · subst hcolon
      rfl
    · rw [if_neg hcolon]
      split
      case h_1 heq =>
        simp only [Option.some.injEq, Prod.mk.injEq, List.cons.injEq] at heq
        exact absurd heq.2.1 hcolon
      case h_2 => rfl

/-- A message runs to the end of the octets. -/
theorem decode_ok {b rest : Bytes} {m : Message} (hdecode : decode b = .ok (m, rest)) :
    10 ≤ b.length ∧ rest = [] := by
  rw [decode_eq] at hdecode
  split at hdecode
  case isTrue hcolon =>
    obtain ⟨hlength, _⟩ := List.getElem?_eq_some_iff.1 hcolon
    exact ⟨hlength, (Prod.mk.inj (Except.ok.inj hdecode)).2.symm⟩
  case isFalse => cases hdecode

theorem decode_runAt_bounds {body : Bytes} {cursor stop : Nat} {m : Message}
    (hrun : decode.runAt body cursor = .ok (m, stop)) : cursor < stop ∧ stop = body.length := by
  obtain ⟨rest, hdecode, rfl⟩ := Decoder.runAt_eq_ok_iff.1 hrun
  obtain ⟨hten, rfl⟩ := decode_ok hdecode
  rw [List.length_drop] at hten
  rw [List.length_nil]
  omega

end Message

end Aprs
