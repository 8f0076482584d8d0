import Aprs.Packet
import Aprs.Proofs.Body.Outcome
import Aprs.Proofs.Bytes
import Aprs.Proofs.DataType

namespace Aprs

variable {R : Type}

/-- An element is neither a fault nor an object that stands for one. -/
def Element.IsWhole (e : Element R) : Prop :=
  e.kind ≠ .fault ∧ ∀ o, e = .object o → o.fault = none

theorem Element.IsWhole.of_kind {e : Element R} (hfault : e.kind ≠ .fault)
    (hobject : e.kind ≠ .object) : e.IsWhole := by
  refine ⟨hfault, ?_⟩
  rintro o rfl
  exact absurd rfl hobject

theorem Element.isWhole_append {before after : List (Element R)}
    (hbefore : ∀ e ∈ before, e.kind = .timestamp) (hafter : ∀ e ∈ after, e.IsWhole) :
    ∀ e ∈ before ++ after, e.IsWhole := by
  intro e he
  rcases List.mem_append.1 he with he | he
  · have hkind := hbefore e he
    exact .of_kind (by simp [hkind]) (by simp [hkind])
  · exact hafter e he

namespace Information

/-- The last element is the only fault, and there is no object. -/
def EndsInFault (i : Information R) (reason : String) : Prop :=
  ∃ before cursor, i.elements = before ++ [.fault ⟨reason, cursor⟩] ∧
    ∀ e ∈ before, e.kind ≠ .fault ∧ e.kind ≠ .object

/-- The only element is an object of which nothing is known but why. -/
def HoldsPlaceholder (i : Information R) (reason : String) : Prop :=
  i.elements = [.object {
    name := Latin1.ascii "null"
    live := false
    timestamp := none
    position := none
    extension := none
    comment := []
    fault := some reason }]

theorem EndsInFault.mem {i : Information R} {reason : String} (hends : i.EndsInFault reason) :
    ∃ cursor, .fault ⟨reason, cursor⟩ ∈ i.elements := by
  obtain ⟨before, cursor, helements, _⟩ := hends
  exact ⟨cursor, by simp [helements]⟩

theorem EndsInFault.reason_eq {i : Information R} {r₁ r₂ : String} (h₁ : i.EndsInFault r₁)
    (h₂ : i.EndsInFault r₂) : r₁ = r₂ := by
  obtain ⟨before₁, cursor₁, helements₁, _⟩ := h₁
  obtain ⟨before₂, cursor₂, helements₂, _⟩ := h₂
  have hlast := congrArg List.getLast? (helements₁.symm.trans helements₂)
  simp only [List.getLast?_concat, Option.some.injEq, Element.fault.injEq, Fault.mk.injEq] at hlast
  exact hlast.1

theorem HoldsPlaceholder.reason_eq {i : Information R} {r₁ r₂ : String}
    (h₁ : i.HoldsPlaceholder r₁) (h₂ : i.HoldsPlaceholder r₂) : r₁ = r₂ := by
  have helements := h₁.symm.trans h₂
  simpa using helements

theorem HoldsPlaceholder.not_endsInFault {i : Information R} {r₁ r₂ : String}
    (hholds : i.HoldsPlaceholder r₁) : ¬ i.EndsInFault r₂ := by
  intro hends
  obtain ⟨cursor, hmem⟩ := hends.mem
  rw [hholds] at hmem
  simp at hmem

end Information

namespace Body

variable [Arithmetic R]

/-- The error of the decoder that stops a body, and the cursor at which it was started. -/
inductive StopsWith (R : Type) [Arithmetic R] (s : Bytes) : DataType → DecodeError → Nat → Prop where
  | timestamp {messaging : Bool} {e : DecodeError}
      (htimestamp : Timestamp.decode.runAt s 1 = .error e) :
      StopsWith R s (.position true messaging) e 1
  | position {timed messaging : Bool} {before : List (Element R)} {cursor : Nat}
      {e : DecodeError} (hheading : Heading s timed before cursor)
      (hposition : (Position.decode (R := R)).runAt s cursor = .error e) :
      StopsWith R s (.position timed messaging) e cursor
  | message {e : DecodeError} (hmessage : Message.decode.runAt s 1 = .error e) :
      StopsWith R s .message e 1
  | object {e : DecodeError} (hobject : (Object.decode (R := R)).runAt s 1 = .error e) :
      StopsWith R s .object e 1
  | item {e : DecodeError} (hitem : (Item.decode (R := R)).runAt s 1 = .error e) :
      StopsWith R s .item e 1
  /-- No decoder is started on a body of a type that is not supported. -/
  | unsupported {type : DataType} (htype : type = .micE ∨ type = .rawGps) :
      StopsWith R s type (.positionFormat s) 1

/-- The three ways in which the elements of a body and its fault go together. -/
inductive Ending (s : Bytes) (type : DataType) (i : Information R) : Option String → Prop where
  | whole (hwhole : ∀ e ∈ i.elements, e.IsWhole)
      (hfits : ¬ (type = .object ∧ s.length < 30)) : Ending s type i none
  | placeholder {reason : String} (hholds : i.HoldsPlaceholder reason)
      (hbare : i.comment = [] ∧ i.extension = none)
      (hshort : type = .object ∧ s.length < 30) : Ending s type i (some reason)
  | fault {before : List (Element R)} {e : DecodeError} {cursor : Nat}
      (helements : i.elements = before ++ [.fault ⟨e.message, cursor⟩])
      (hbefore : ∀ x ∈ before, x.kind ≠ .fault ∧ x.kind ≠ .object)
      (hbare : i.comment = [] ∧ i.extension = none)
      (hfits : ¬ (type = .object ∧ s.length < 30))
      (hcause : StopsWith R s type e cursor) : Ending s type i (some e.message)

theorem Object.fault_eq_none {b rest : Bytes} {o : Object R}
    (hdecode : Object.decode b = .ok (o, rest)) : o.fault = none := by
  obtain ⟨_, _, _, _, _, _, _, rfl⟩ := Object.decode_ok hdecode
  rfl

/-- A single fault is the end of no elements. -/
private theorem Ending.alone {s : Bytes} {type : DataType} {messaging : Bool} {e : DecodeError}
    (hfits : ¬ (type = .object ∧ s.length < 30)) (hcause : StopsWith R s type e 1) :
    Ending (R := R) s type { elements := [.fault ⟨e.message, 1⟩], messaging } (some e.message) :=
  .fault (List.nil_append _).symm (by simp) ⟨rfl, rfl⟩ hfits hcause

/-- However reading a body ends, its elements and its fault go together in one of the three
ways. -/
theorem Outcome.ending {s : Bytes} {type : DataType} {i : Information R} {fault : Option String}
    (houtcome : Outcome s type i fault) : Ending s type i fault := by
  cases houtcome with
  | badTimestamp htimestamp => exact .alone (by simp) (.timestamp htimestamp)
  | badPosition hheading hposition =>
    refine .fault rfl ?_ ⟨rfl, rfl⟩ (by simp) (.position hheading hposition)
    intro x hx
    simp [hheading.kind_eq x hx]
  | position hheading =>
    refine .whole (Element.isWhole_append hheading.kind_eq ?_) (by simp)
    simp [Element.IsWhole, Element.kind]
  | station hheading =>
    refine .whole (Element.isWhole_append hheading.kind_eq ?_) (by simp)
    simp [Element.IsWhole, Element.kind]
  | badMessage hmessage => exact .alone (by simp) (.message hmessage)
  | message =>
    refine .whole ?_ (by simp)
    simp [Element.IsWhole, Element.kind]
  | placeholder hlength => exact .placeholder rfl ⟨rfl, rfl⟩ ⟨rfl, hlength⟩
  | badObject hlength hobject => exact .alone (by simp [hlength]) (.object hobject)
  | object hlength hobject =>
    obtain ⟨_, hdecode, _⟩ := Decoder.runAt_eq_ok_iff.1 hobject
    have hwhole := Object.fault_eq_none hdecode
    refine .whole ?_ (by simp [hlength])
    simp [Element.IsWhole, Element.kind, hwhole]
  | badItem hitem => exact .alone (by simp) (.item hitem)
  | item =>
    refine .whole ?_ (by simp)
    simp [Element.IsWhole, Element.kind]
  | weather htype hheading =>
    have hfits : ¬ (type = .object ∧ s.length < 30) := by rcases htype with rfl | rfl <;> simp
    refine .whole (Element.isWhole_append hheading.kind_eq ?_) hfits
    simp [Element.IsWhole, Element.kind]
  | unsupported htype =>
    refine .alone ?_ (.unsupported (htype.imp_right And.left))
    rcases htype with rfl | ⟨rfl, _⟩ <;> simp
  | weatherUnit => exact .whole (by simp) (by simp)
  | unread htype =>
    refine .whole (by simp) ?_
    rintro ⟨rfl, _⟩
    cases htype

/-- What the fault of a packet and its elements say of each other. -/
structure FaultCoherent (s : Bytes) (type : DataType) (i : Information R)
    (fault : Option String) : Prop where
  fault_iff (reason : String) :
    fault = some reason ↔ i.EndsInFault reason ∨ i.HoldsPlaceholder reason
  placeholder_iff :
    (∃ reason, i.HoldsPlaceholder reason) ↔ type = .object ∧ s.length < 30
  whole : fault = none → ∀ e ∈ i.elements, e.IsWhole
  bare : fault ≠ none → i.comment = [] ∧ i.extension = none
  /-- The reason is the text of an error of the decoder that the fault stands for. -/
  cause (f : Fault) : .fault f ∈ i.elements →
    ∃ e, StopsWith R s type e f.cursor ∧ f.reason = e.message

/-- Each of the three ways makes the fault and the elements agree. -/
theorem Ending.coherent {s : Bytes} {type : DataType} {i : Information R}
    {fault : Option String} (hending : Ending s type i fault) :
    FaultCoherent s type i fault := by
  cases hending with
  | whole hwhole hfits =>
    have hends (reason : String) : ¬ i.EndsInFault reason := by
      intro hends
      obtain ⟨cursor, hmem⟩ := hends.mem
      exact (hwhole _ hmem).1 rfl
    have hholds (reason : String) : ¬ i.HoldsPlaceholder reason := by
      intro hholds
      have hnone := (hwhole _ (hholds ▸ List.mem_singleton_self _)).2 _ rfl
      cases hnone
    exact {
      fault_iff := by simp [hends, hholds]
      placeholder_iff := by simp [hholds, hfits]
      whole := fun _ => hwhole
      bare := fun h => absurd rfl h
      cause := fun f hmem => absurd rfl (hwhole _ hmem).1 }
  | @placeholder reason hholds hbare hshort =>
    exact {
      fault_iff := by
        intro other
        constructor
        · rintro ⟨⟩
          exact .inr hholds
        · rintro (hends | hother)
          · exact absurd hends hholds.not_endsInFault
          · rw [hholds.reason_eq hother]
      placeholder_iff := iff_of_true ⟨reason, hholds⟩ hshort
      whole := fun h => by cases h
      bare := fun _ => hbare
      cause := fun f hmem => by
        rw [hholds] at hmem
        simp at hmem }
  | @fault before e cursor helements hbefore hbare hfits hcause =>
    have hends : i.EndsInFault e.message := ⟨before, cursor, helements, hbefore⟩
    have hholds (reason : String) : ¬ i.HoldsPlaceholder reason :=
      fun hholds => hholds.not_endsInFault hends
    exact {
      fault_iff := by
        intro reason
        simp only [hholds, or_false, Option.some.injEq]
        exact ⟨fun h => h ▸ hends, hends.reason_eq⟩
      placeholder_iff := by simp [hholds, hfits]
      whole := fun h => by cases h
      bare := fun _ => hbare
      cause := by
        intro f hmem
        rw [helements, List.mem_append, List.mem_singleton] at hmem
        rcases hmem with hmem | hmem
        · exact absurd rfl (hbefore _ hmem).1
        · cases hmem
          exact ⟨e, hcause, rfl⟩ }

end Body

/-- A body with a first octet makes a packet, of which only the body is read. -/
theorem Packet.ofBody_cons [Arithmetic R] (source destination : Callsign)
    (path : List PathEntry) (first : UInt8) (rest : Bytes) :
    ∃ packet : Packet R, ofBody source destination path (first :: rest) = .ok packet ∧
      packet.source = source ∧ packet.destination = destination ∧ packet.path = path ∧
      packet.dataType = DataType.ofByte first ∧ packet.body = first :: rest ∧
      packet.line = none ∧
      Body.Outcome (stripTerminator (first :: rest)) packet.dataType packet.information
        packet.fault := by
  have hread : stripTerminator (first :: rest) ≠ [] ∨ Body.isUnread (DataType.ofByte first) := by
    by_cases hstrip : stripTerminator (first :: rest) = []
    · rcases stripTerminator_eq_nil hstrip with rfl | rfl <;> exact .inr (by decide)
    · exact .inl hstrip
  exact ⟨_, rfl, rfl, rfl, rfl, rfl, rfl, rfl, Body.read_outcome hread⟩

/-- Any body that is not empty makes a packet between the stations that it is given. -/
theorem Packet.ofBody_of_ne_nil [Arithmetic R] (source destination : Callsign) (path : List PathEntry)
    {body : Bytes} (hbody : body ≠ []) :
    ∃ packet : Packet R, ofBody source destination path body = .ok packet ∧
      packet.source = source ∧ packet.destination = destination ∧ packet.path = path ∧
      packet.body = body ∧ packet.line = none := by
  obtain ⟨first, rest, rfl⟩ := List.exists_cons_of_ne_nil hbody
  obtain ⟨packet, hpacket, hsource, hdestination, hpath, _, hoctets, hline, _⟩ :=
    ofBody_cons (R := R) source destination path first rest
  exact ⟨packet, hpacket, hsource, hdestination, hpath, hoctets, hline⟩

/-- A packet shows what it was made of. -/
theorem Packet.ofBody_eq_ok [Arithmetic R] {source destination : Callsign}
    {path : List PathEntry} {body : Bytes} {packet : Packet R}
    (hpacket : ofBody source destination path body = .ok packet) :
    body ≠ [] ∧ packet.source = source ∧ packet.destination = destination ∧ packet.path = path ∧
      packet.body = body ∧ packet.line = none := by
  have hbody : body ≠ [] := by
    rintro rfl
    cases hpacket
  obtain ⟨actual, hactual, hparts⟩ := ofBody_of_ne_nil (R := R) source destination path hbody
  obtain rfl := Except.ok.inj (hactual.symm.trans hpacket)
  exact ⟨hbody, hparts⟩

/-- Only an empty body makes no packet. The fault of a packet and the elements that tell of
one never disagree, whatever was sent. -/
theorem Packet.ofBody_fault_coherent [Arithmetic R] (source destination : Callsign)
    (path : List PathEntry) (body : Bytes) :
    (body = [] ∧ ofBody (R := R) source destination path body = .error .emptyBody) ∨
    ∃ (first : UInt8) (rest : Bytes) (packet : Packet R), body = first :: rest ∧
      ofBody source destination path body = .ok packet ∧
      packet.source = source ∧ packet.destination = destination ∧ packet.path = path ∧
      packet.body = body ∧ packet.line = none ∧ packet.dataType = DataType.ofByte first ∧
      (packet.dataType = .object ↔ Char.ofUInt8 first = ';') ∧
      Body.FaultCoherent (stripTerminator body) packet.dataType packet.information
        packet.fault := by
  cases body with
  | nil => exact .inl ⟨rfl, rfl⟩
  | cons first rest =>
    obtain ⟨packet, hpacket, hsource, hdestination, hpath, htype, hbody, hline, houtcome⟩ :=
      ofBody_cons (R := R) source destination path first rest
    refine .inr ⟨first, rest, packet, rfl, hpacket, hsource, hdestination, hpath, hbody, hline,
      htype, ?_, houtcome.ending.coherent⟩
    rw [htype]
    exact DataType.ofByte_eq_object_iff

end Aprs
