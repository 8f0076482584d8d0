import Aprs.Coordinate.Exact
import Aprs.Proofs.Body.Fault

namespace Aprs

variable {R : Type}

/-- The first `n` octets are read, and all that is left is comment. -/
def SplitsAt (s : Bytes) (n : Nat) (comment : Bytes) : Prop :=
  n ≤ s.length ∧ s = s.take n ++ comment

theorem SplitsAt.of_drop {s : Bytes} {n : Nat} (hlength : n ≤ s.length) :
    SplitsAt s n (s.drop n) :=
  ⟨hlength, (List.take_append_drop n s).symm⟩

/-- A report begins behind the `before` octets in front of it, and a comment behind the
report. -/
def Weather.SplitsAt (s : Bytes) (before : Nat) (w : Weather) (comment : Bytes) : Prop :=
  ∃ width, Weather.decodeAt s before = .ok (w, before + width) ∧
    Aprs.SplitsAt s (before + width) comment

theorem Weather.SplitsAt.of_decodeAt {s : Bytes} {before stop : Nat} {w : Weather}
    (hweather : Weather.decodeAt s before = .ok (w, stop)) :
    w.SplitsAt s before (s.drop stop) := by
  obtain ⟨hstart, hlength⟩ := Weather.decodeAt_bounds hweather
  have hstop : before + (stop - before) = stop := by omega
  refine ⟨stop - before, ?_, ?_⟩
  · rw [hstop, hweather]
  · rw [hstop]
    exact .of_drop hlength

/-- The name of an object fills nine octets, and the octet behind it tells if it is live. -/
structure Object.IsAt (s : Bytes) (o : Object R) (i : Information R) : Prop where
  comment_eq : i.comment = o.comment
  extension_eq : i.extension = o.extension
  name_eq : padSpaces 9 o.name = (s.drop 1).take 9
  live_iff : o.live = true ↔ s[10]? = some 0x2A
  splitsAt : ∃ p, o.position = some p ∧
    SplitsAt s (18 + p.width + Extension.width o.extension) o.comment

/-- The name of an item ends at the octet that tells if it is live. -/
structure Item.IsAt (s : Bytes) (x : Item R) (i : Information R) : Prop where
  comment_eq : i.comment = x.comment
  extension_eq : i.extension = x.extension
  name_eq : x.name = (s.drop 1).take x.name.length
  mark_eq : s[1 + x.name.length]? = some (if x.live then 0x21 else 0x5F)
  splitsAt : SplitsAt s (2 + x.name.length + x.position.width + Extension.width x.extension)
    x.comment

/-- How many octets of `s` the elements take, and that the rest is the comment. -/
def Information.Accounts (s : Bytes) (i : Information R) : Prop :=
  match i.elements with
  | [.position p] => SplitsAt s (1 + p.width + Extension.width i.extension) i.comment
  | [.timestamp _, .position p] =>
    SplitsAt s (1 + 7 + p.width + Extension.width i.extension) i.comment
  | [.position p, .weather w] => w.SplitsAt s (1 + p.width) i.comment
  | [.timestamp _, .position p, .weather w] => w.SplitsAt s (1 + 7 + p.width) i.comment
  | [.weather w] => w.SplitsAt s 1 i.comment
  | [.timestamp _, .weather w] => w.SplitsAt s (1 + 8) i.comment
  | [.object o] => o.IsAt s i
  | [.item x] => x.IsAt s i
  | [.message _] => i.comment = []
  | _ => False

namespace Body

variable [Arithmetic R] {s : Bytes}

/-- An object that is decoded behind the first octet of a body stands where it says. -/
theorem object_isAt {o : Object R} {stop : Nat} (hobject : Object.decode.runAt s 1 = .ok (o, stop)) :
    o.IsAt s { elements := [.object o], comment := o.comment, extension := o.extension } := by
  obtain ⟨rfl, hlength, hdecode⟩ := Object.decode_takes.runAt_ok o.width_pos hobject
  obtain ⟨mark, timestamp, p, extension, hmark, _, _, ho⟩ := Object.decode_ok hdecode
  rw [List.getElem?_drop] at hmark
  obtain ⟨hten, _⟩ := List.getElem?_eq_some_iff.1 hmark
  have hfield : ((s.drop 1).take 9).length = 9 := by
    rw [List.length_take, List.length_drop]
    omega
  have hposition : o.position = some { p with altitude := _ } := congrArg Object.position ho
  have hparts := Object.width_eq hposition
  rw [Position.width_withAltitude] at hparts
  have hwidth : 18 + p.width + Extension.width o.extension = 1 + o.width := by omega
  have hcomment : o.comment = s.drop (1 + o.width) := congrArg Object.comment ho
  refine ⟨rfl, rfl, ?_, ?_, ?_⟩
  · have hname := congrArg Object.name ho
    rw [hname]
    exact padSpaces_trimSpaces hfield
  · have hlive := congrArg Object.live ho
    rw [hlive, hmark]
    simp
  · refine ⟨_, hposition, ?_⟩
    rw [Position.width_withAltitude, hwidth, hcomment]
    exact .of_drop hlength

/-- An item that is decoded behind the first octet of a body stands where it says. -/
theorem item_isAt {x : Item R} {stop : Nat} (hitem : Item.decode.runAt s 1 = .ok (x, stop)) :
    x.IsAt s { elements := [.item x], comment := x.comment, extension := x.extension } := by
  obtain ⟨rfl, hlength, hdecode⟩ := Item.decode_takes.runAt_ok x.width_pos hitem
  obtain ⟨n, p, extension, hname, _, hx⟩ := Item.decode_ok hdecode
  obtain ⟨_, _, mark, hmark, hends⟩ := Item.nameLength?_eq_some hname
  have hcomment : x.comment = s.drop (1 + x.width) := congrArg Item.comment hx
  have hcount : x.name.length = n := by
    obtain ⟨hn, _⟩ := List.getElem?_eq_some_iff.1 hmark
    rw [hx]
    exact List.length_take_of_le (Nat.le_of_lt hn)
  have hwidth : 2 + x.name.length + x.position.width + Extension.width x.extension =
      1 + x.width := by
    unfold Item.width
    omega
  refine ⟨rfl, rfl, ?_, ?_, ?_⟩
  · have hfield := congrArg Item.name hx
    rw [hcount]
    exact hfield
  · have hlive : x.live = decide ((s.drop 1)[n]? = some 0x21) := congrArg Item.live hx
    rw [hmark] at hlive
    rw [hcount, ← List.getElem?_drop, hmark, hlive]
    rcases (by simpa [Item.endsName] using hends : mark = 0x21 ∨ mark = 0x5F) with rfl | rfl <;> rfl
  · rw [hwidth, hcomment]
    exact .of_drop hlength

/-- What is read without a fault is all of the body. -/
theorem Outcome.accounts {type : DataType} {i : Information R}
    (houtcome : Outcome s type i none) (hread : i.isEmpty = false) : i.Accounts s := by
  cases houtcome with
  | position hheading _ _ _ hstop =>
    obtain ⟨rfl, hlength⟩ := hstop
    cases hheading with
    | untimed => exact .of_drop hlength
    | timed => exact .of_drop hlength
  | station hheading _ _ hweather =>
    cases hheading with
    | untimed => exact .of_decodeAt hweather
    | timed => exact .of_decodeAt hweather
  | message => rfl
  | object _ hobject => exact object_isAt hobject
  | item hitem => exact item_isAt hitem
  | weather _ hheading hweather =>
    cases hheading with
    | undated => exact .of_decodeAt hweather
    | dated => exact .of_decodeAt hweather
  | weatherUnit => cases hread
  | unread => cases hread

end Body

/-- In a packet without a fault, the elements take the front of the body, the comment is the
rest of it, and no octet is in both or in neither. -/
theorem Packet.ofBody_accounts [Arithmetic R] {source destination : Callsign}
    {path : List PathEntry} {body : Bytes} {packet : Packet R}
    (hpacket : ofBody source destination path body = .ok packet) (hfault : packet.fault = none)
    (hread : packet.information.isEmpty = false) :
    packet.information.Accounts (stripTerminator body) ∧
      ∃ terminator ∈ [[], [0x0A], [0x0D], [0x0D, 0x0A]],
        body = stripTerminator body ++ terminator := by
  refine ⟨?_, stripTerminator_append body⟩
  cases body with
  | nil => cases hpacket
  | cons first rest =>
    obtain ⟨actual, hactual, _, _, _, _, _, _, houtcome⟩ :=
      ofBody_cons (R := R) source destination path first rest
    obtain rfl := Except.ok.inj (hpacket.symm.trans hactual)
    rw [hfault] at houtcome
    exact houtcome.accounts hread

/-- A body with a time, a position and an extension in front of its comment. -/
theorem Packet.ofBody_accounts_dated :
    let station : Callsign := ⟨"N0CALL", none⟩
    let body := Latin1.ascii "/092345z4903.50N/07201.75W>088/036hello\r\n"
    ∃ packet : Packet Exact, ofBody station station [] body = .ok packet ∧
      packet.fault = none ∧ packet.information.isEmpty = false ∧
      packet.information.kinds = [.timestamp, .position] ∧
      packet.information.comment = Latin1.ascii "hello" ∧
      packet.information.Accounts (stripTerminator body) ∧
      ∃ terminator ∈ [[], [0x0A], [0x0D], [0x0D, 0x0A]],
        body = stripTerminator body ++ terminator := by
  intro station body
  obtain ⟨packet, hpacket, hfault, hread, hkinds, hcomment⟩ :
      ∃ packet : Packet Exact, ofBody station station [] body = .ok packet ∧
        packet.fault = none ∧ packet.information.isEmpty = false ∧
        packet.information.kinds = [.timestamp, .position] ∧
        packet.information.comment = Latin1.ascii "hello" :=
    ⟨_, rfl, by decide +kernel, by decide +kernel, by decide +kernel, by decide +kernel⟩
  exact ⟨packet, hpacket, hfault, hread, hkinds, hcomment, ofBody_accounts hpacket hfault hread⟩

end Aprs
