import Aprs.Coordinate.Exact
import Aprs.Proofs.Body.Fault
import Aprs.Proofs.Range.Position

namespace Aprs

variable {R : Type}

/-- The room that an object takes of a body, with the first octet in front of it: eighteen octets up
to its position, which takes thirteen or nineteen, and seven for an extension. -/
structure Object.HasRoom (o : Object R) (p : Position R) (s : Bytes) : Prop where
  position_eq : o.position = some p
  compressed : p.isCompressed → 31 ≤ s.length
  uncompressed : p.isCompressed = false → 37 ≤ s.length
  /-- A compressed position has no extension behind it. -/
  extension : o.extension.isSome → p.isCompressed = false ∧ 44 ≤ s.length

variable [Arithmetic R] {s : Bytes}

/-- An object that is decoded has room in its body, since each of its parts has its width. -/
theorem Object.hasRoom_of_decode {o : Object R} {stop : Nat}
    (hobject : decode.runAt s 1 = .ok (o, stop)) : ∃ p, o.HasRoom p s := by
  obtain ⟨rfl, hlength, hdecode⟩ := decode_takes.runAt_ok o.width_pos hobject
  obtain ⟨_, _, p, extension, _, _, hposition, ho⟩ := decode_ok hdecode
  obtain ⟨_, hextension⟩ := Position.decodeWithExtension_ok hposition
  have hactual : o.position = some { p with altitude := _ } := congrArg Object.position ho
  have hwidth := Object.width_eq hactual
  rw [Position.width_withAltitude] at hwidth
  refine ⟨_, hactual, ?_, ?_, ?_⟩
  · intro (hform : p.isCompressed)
    rw [p.width_eq, if_pos hform] at hwidth
    omega
  · intro (hform : p.isCompressed = false)
    rw [p.width_eq, hform, if_neg Bool.false_ne_true] at hwidth
    omega
  · intro hsome
    obtain ⟨e, he⟩ := Option.isSome_iff_exists.1 hsome
    obtain rfl : extension = some e := (congrArg Object.extension ho).symm.trans he
    obtain ⟨hform, _⟩ := Position.readExtension_eq_some hextension
    rw [p.width_eq, hform, if_neg Bool.false_ne_true, he] at hwidth
    have hseven : Extension.width (some e) = 7 := rfl
    exact ⟨hform, by omega⟩

/-- What is shorter than any object is refused. -/
theorem Object.decode_of_length_lt (hshort : s.length < 30) :
    ∃ error, (decode (R := R)).runAt s 1 = .error error := by
  cases hobject : (decode (R := R)).runAt s 1 with
  | error error => exact ⟨error, rfl⟩
  | ok parts =>
    obtain ⟨p, hroom⟩ := hasRoom_of_decode hobject
    cases hform : p.isCompressed with
    | true =>
      have hlength := hroom.compressed hform
      omega
    | false =>
      have hlength := hroom.uncompressed hform
      omega

namespace Body

/-- A body of an object leaves what the decoder of objects makes of it. The guard on its length takes
no object away. -/
structure KeepsObject (s : Bytes) (i : Information R) (fault : Option String) : Prop where
  placeholder_iff : (∃ reason, i.HoldsPlaceholder reason) ↔ s.length < 30
  refused : s.length < 30 → ∃ error, (Object.decode (R := R)).runAt s 1 = .error error
  kept (o : Object R) (stop : Nat) : Object.decode.runAt s 1 = .ok (o, stop) →
    i = { elements := [.object o], comment := o.comment, extension := o.extension } ∧ fault = none

/-- However reading the body of an object ends, it leaves what the decoder of objects makes of
it. -/
theorem Outcome.keepsObject {i : Information R} {fault : Option String}
    (houtcome : Outcome s .object i fault) : KeepsObject s i fault where
  placeholder_iff := houtcome.ending.coherent.placeholder_iff.trans (and_iff_right rfl)
  refused := Object.decode_of_length_lt
  kept o stop hobject := by
    cases houtcome with
    | placeholder hshort =>
      obtain ⟨_, herror⟩ := Object.decode_of_length_lt (R := R) hshort
      cases hobject.symm.trans herror
    | badObject _ herror => cases hobject.symm.trans herror
    | object _ hactual =>
      obtain ⟨rfl, _⟩ := Prod.mk.inj (Except.ok.inj (hobject.symm.trans hactual))
      exact ⟨rfl, rfl⟩
    | weather htype => simp at htype
    | unsupported htype => simp at htype
    | unread htype => cases htype

end Body

/-- An object takes at least thirty-one octets of a body, so what the guard on the length of a body
stops is no object, and each object that can be decoded is the only element of its packet. -/
theorem Packet.ofBody_keepsObject :
    (∀ (s : Bytes) (o : Object R) (stop : Nat), Object.decode.runAt s 1 = .ok (o, stop) →
      ∃ p, o.HasRoom p s) ∧
    ∀ (source destination : Callsign) (path : List PathEntry) (rest : Bytes),
      ∃ packet : Packet R, ofBody source destination path (0x3B :: rest) = .ok packet ∧
        Body.KeepsObject (stripTerminator (0x3B :: rest)) packet.information packet.fault := by
  refine ⟨fun s o stop hobject => Object.hasRoom_of_decode hobject, ?_⟩
  intro source destination path rest
  obtain ⟨packet, hpacket, _, _, _, htype, _, _, houtcome⟩ :=
    ofBody_cons (R := R) source destination path 0x3B rest
  have hobject : DataType.ofByte 0x3B = .object := rfl
  rw [htype, hobject] at houtcome
  exact ⟨packet, hpacket, houtcome.keepsObject⟩

/-- One octet more than the guard asks for is the least that an object takes. -/
theorem Packet.ofBody_keepsObject_shortest :
    let station : Callsign := ⟨"N0CALL", none⟩
    let rest := Latin1.ascii "LEADER   *092345z/5L!!<*e7>7P[\r\n"
    let s := stripTerminator (0x3B :: rest)
    s.length = 31 ∧ ∃ o : Object Exact, Object.decode.runAt s 1 = .ok (o, 31) ∧ 31 ≤ s.length ∧
      ∃ packet : Packet Exact, ofBody station station [] (0x3B :: rest) = .ok packet ∧
        packet.information.elements = [.object o] ∧ packet.fault = none := by
  intro station rest s
  have hread : ((Object.decode (R := Exact)).runAt s 1).toOption.any fun (o, stop) =>
      o.position.any Position.isCompressed ∧ stop = 31 := by decide +kernel
  obtain ⟨⟨o, stop⟩, hrun, hparts⟩ := (Option.any_eq_true _ _).1 hread
  obtain ⟨hform, rfl⟩ := of_decide_eq_true hparts
  have hobject := toOption_eq_some_iff.1 hrun
  obtain ⟨p, hroom⟩ := ofBody_keepsObject.1 s o 31 hobject
  obtain ⟨packet, hpacket, hkeeps⟩ := (ofBody_keepsObject (R := Exact)).2 station station [] rest
  obtain ⟨hinformation, hfault⟩ := hkeeps.kept o 31 hobject
  rw [hroom.position_eq, Option.any_some] at hform
  exact ⟨by decide, o, hobject, hroom.compressed hform, packet, hpacket, by rw [hinformation],
    hfault⟩

end Aprs
