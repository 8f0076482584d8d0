import Aprs.Coordinate.Exact
import Aprs.Proofs.Checked.Report

namespace Aprs.Item

/-- The place of the first octet behind the third that can end a name, however far off. -/
def nameEnd? (b : Bytes) : Option Nat := ((b.drop 3).findIdx? endsName).map (· + 3)

/-- A name ends at the place of its end, unless that is more than nine octets away. -/
theorem nameLength?_eq_some_iff {b : Bytes} {n : Nat} :
    nameLength? b = some n ↔ nameEnd? b = some n ∧ n ≤ 9 := by
  unfold nameLength? nameEnd?
  rw [List.drop_take, List.findIdx?_take]
  simp only [Option.map_eq_some_iff, Option.bind_eq_some_iff, Option.guard_eq_some_iff,
    decide_eq_true_iff]
  constructor
  · rintro ⟨_, ⟨i, hfind, rfl, hi⟩, rfl⟩
    exact ⟨⟨i, hfind, rfl⟩, by omega⟩
  · rintro ⟨⟨i, hfind, rfl⟩, hi⟩
    exact ⟨i, ⟨i, hfind, rfl, by omega⟩, rfl⟩

theorem nameLength?_eq_none_iff {b : Bytes} :
    nameLength? b = none ↔ ∀ n, nameEnd? b = some n → 9 < n := by
  simp only [Option.eq_none_iff_forall_ne_some, ne_eq, nameLength?_eq_some_iff, not_and,
    Nat.not_le]

theorem nameEnd?_spec {b : Bytes} {n : Nat} (hname : nameEnd? b = some n) :
    3 ≤ n ∧ ∀ octet ∈ (b.take n).drop 3, ¬ endsName octet := by
  obtain ⟨i, hfind, rfl⟩ := Option.map_eq_some_iff.1 hname
  refine ⟨Nat.le_add_left .., fun octet hmem => ?_⟩
  rw [List.drop_take, Nat.add_sub_cancel] at hmem
  obtain ⟨_, _, hfirst⟩ := List.findIdx?_eq_some_iff_getElem.1 hfind
  obtain ⟨j, hj, rfl⟩ := List.mem_iff_getElem.1 hmem
  rw [List.length_take] at hj
  rw [List.getElem_take]
  exact hfirst j (by omega)

theorem findIdx?_endsName (b : Bytes) :
    b.findIdx? endsName = ((b.take 3).findIdx? endsName).or (nameEnd? b) := by
  by_cases hlength : 3 ≤ b.length
  · have hparts : (b.take 3 ++ b.drop 3).findIdx? endsName = _ := List.findIdx?_append
    rwa [List.take_append_drop, List.length_take_of_le hlength] at hparts
  · have hshort : b.length ≤ 3 := by omega
    rw [nameEnd?, List.take_of_length_le hshort, List.drop_of_length_le hshort]
    simp

/-- The end of a name is the first octet that can be one, unless the name begins with such. -/
theorem nameEnd?_eq_findIdx?_iff {b : Bytes} :
    nameEnd? b = b.findIdx? endsName ↔ ∀ octet ∈ b.take 3, ¬ endsName octet := by
  have hfront : (∀ octet ∈ b.take 3, ¬ endsName octet) ↔ (b.take 3).findIdx? endsName = none := by
    simp only [List.findIdx?_eq_none_iff, Bool.not_eq_true]
  rw [hfront, findIdx?_endsName]
  cases hfind : (b.take 3).findIdx? endsName with
  | none => simp
  | some i =>
    obtain ⟨hi, _⟩ := List.findIdx?_eq_some_iff_getElem.1 hfind
    rw [List.length_take] at hi
    -- the two ends differ, one being before the fourth octet and the other from it on
    refine iff_of_false (fun hname => ?_) (Option.some_ne_none i)
    have hthree := (nameEnd?_spec hname).1
    omega

variable {R : Type} [Arithmetic R] {b : Bytes} {cursor : Nat}

theorem exists_runAt_iff :
    (∃ result, (decode (R := R)).runAt b cursor = .ok result) ↔
      ∃ n, nameLength? (b.drop cursor) = some n ∧
        ∃ result, (Position.decodeWithExtension (R := R)).runAt b (cursor + (n + 1)) =
          .ok result := by
  rw [decode_runAt]
  cases hname : nameLength? (b.drop cursor) with
  | none => simp
  | some n =>
    constructor
    · rintro ⟨result, hresult⟩
      obtain ⟨parts, hposition, _⟩ := bind_eq_ok_iff.1 hresult
      exact ⟨n, rfl, parts, hposition⟩
    · rintro ⟨_, ⟨⟩, parts, hposition⟩
      exact ⟨_, bind_eq_ok_iff.2 ⟨parts, hposition, rfl⟩⟩

theorem exists_nameLength? {x : Item R} {stop : Nat} (hrun : decode.runAt b cursor = .ok (x, stop)) :
    ∃ n, nameLength? (b.drop cursor) = some n ∧ x.name = (b.drop cursor).take n := by
  obtain ⟨rest, hdecode, _⟩ := Decoder.runAt_eq_ok_iff.1 hrun
  obtain ⟨n, _, _, hname, _, rfl⟩ := decode_ok hdecode
  exact ⟨n, hname, rfl⟩

/-- The name of an item ends at the first `!` or `_` behind its third octet, and one among the first
three is a part of the name. An item is refused for its name if that end is not within nine octets,
and else it is read if its position is. -/
theorem decode_name (b : Bytes) (cursor : Nat) :
    ((∃ result, (decode (R := R)).runAt b cursor = .ok result) ↔
      ∃ n ≤ 9, nameEnd? (b.drop cursor) = some n ∧
        ∃ result, (Position.decodeWithExtension (R := R)).runAt b (cursor + (n + 1)) =
          .ok result) ∧
    (∀ x stop, (decode (R := R)).runAt b cursor = .ok (x, stop) →
      ∃ n, 3 ≤ n ∧ n ≤ 9 ∧ nameEnd? (b.drop cursor) = some n ∧ x.name = (b.drop cursor).take n ∧
        ∀ octet ∈ x.name.drop 3, ¬ endsName octet) ∧
    ((∀ n, nameEnd? (b.drop cursor) = some n → 9 < n) →
      (decode (R := R)).runAt b cursor = .error (.itemName ((b.drop cursor).take 10))) ∧
    (nameEnd? (b.drop cursor) = (b.drop cursor).findIdx? endsName ↔
      ∀ octet ∈ (b.drop cursor).take 3, ¬ endsName octet) := by
  refine ⟨?_, fun x stop hrun => ?_, fun hend => ?_, nameEnd?_eq_findIdx?_iff⟩
  · simp only [exists_runAt_iff, nameLength?_eq_some_iff, and_assoc, and_left_comm]
  · obtain ⟨n, hlength, hname⟩ := exists_nameLength? hrun
    obtain ⟨hend, hnine⟩ := nameLength?_eq_some_iff.1 hlength
    obtain ⟨hthree, hbehind⟩ := nameEnd?_spec hend
    exact ⟨n, hthree, hnine, hend, hname, hname ▸ hbehind⟩
  · rw [decode_runAt, nameLength?_eq_none_iff.2 hend]

/-- The first `!` stands where a name is too short, but another one within reach ends the name. -/
theorem decode_name_passedOver :
    let b := Latin1.ascii ")AB!C!4903.50N/07201.75W-"
    (b.drop 1).findIdx? endsName = some 2 ∧
      ∃ (x : Item Exact) (stop : Nat), decode.runAt b 1 = .ok (x, stop) ∧
        x.name = Latin1.ascii "AB!C" := by
  intro b
  have hread : ((decode (R := Exact)).runAt b 1).toOption.any fun (x, _) =>
      x.name = Latin1.ascii "AB!C" := by decide +kernel
  obtain ⟨⟨x, stop⟩, hrun, hname⟩ := (Option.any_eq_true _ _).1 hread
  exact ⟨by decide, x, stop, toOption_eq_some_iff.1 hrun, of_decide_eq_true hname⟩

end Aprs.Item
