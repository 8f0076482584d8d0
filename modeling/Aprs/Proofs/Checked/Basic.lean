import Aprs.Error
import Aprs.Proofs.Bytes
import Mathlib.Algebra.Group.Nat.Defs

namespace Aprs

/-- What stops a machine of 64 bits that checks each index, each range and each cursor. -/
inductive Trap where
  | index (i length : Nat)
  | range (start stop length : Nat)
  | overflow (n : Nat)
  | underflow (n m : Nat)
  deriving DecidableEq, Repr

/-- A computation on that machine. It ends in a value or in an error, or in a trap. -/
abbrev Checked (α : Type) := ExceptT DecodeError (Except Trap) α

namespace Checked

variable {α β : Type}

/-- A computation that is stopped by a trap. -/
def trap (t : Trap) : Checked α := ExceptT.mk (.error t)

/-- A result that is reached without a trap. -/
def done (result : Except DecodeError α) : Checked α := ExceptT.mk (.ok result)

/-- The value of an option, and an error if it has none. -/
def orThrow (error : DecodeError) (value : Option α) : Checked α :=
  done (value.elim (.error error) .ok)

theorem throw_eq (error : DecodeError) : (throw error : Checked α) = done (.error error) := rfl

@[simp] theorem done_ok_bind (a : α) (f : α → Checked β) : done (.ok a) >>= f = f a := rfl

@[simp] theorem done_error_bind (error : DecodeError) (f : α → Checked β) :
    done (.error error) >>= f = done (.error error) := rfl

@[simp] theorem orThrow_some (error : DecodeError) (a : α) :
    orThrow error (some a) = done (.ok a) := rfl

@[simp] theorem orThrow_none (error : DecodeError) :
    orThrow error (none : Option α) = done (.error error) := rfl

variable {l : List α} {i start stop : Nat}

/-- The element at a place that the list has to have. -/
def index (l : List α) (i : Nat) : Checked α :=
  if h : i < l.length then pure l[i] else trap (.index i l.length)

/-- A list with another element at a place that it has to have. -/
def set (l : List α) (i : Nat) (a : α) : Checked (List α) :=
  if i < l.length then pure (l.set i a) else trap (.index i l.length)

/-- The elements from `start` on and before `stop`, if these are places in the list. -/
def slice? (l : List α) (start stop : Nat) : Option (List α) :=
  if start ≤ stop ∧ stop ≤ l.length then some ((l.take stop).drop start) else none

/-- As `slice?`, where the range has to be in the list. -/
def slice (l : List α) (start stop : Nat) : Checked (List α) :=
  (slice? l start stop).elim (trap (.range start stop l.length)) pure

/-- A sum that is the new place of a cursor. -/
def advance (cursor n : Nat) : Checked Nat :=
  if cursor + n < 2 ^ 64 then pure (cursor + n) else trap (.overflow (cursor + n))

/-- A difference that must not go below zero. -/
def retreat (n m : Nat) : Checked Nat :=
  if m ≤ n then pure (n - m) else trap (.underflow n m)

theorem index_eq (hi : i < l.length) : index l i = done (.ok l[i]) := dif_pos hi

theorem index_eq_of_getElem? {a : α} (ha : l[i]? = some a) : index l i = done (.ok a) := by
  obtain ⟨hi, rfl⟩ := List.getElem?_eq_some_iff.1 ha
  exact index_eq hi

theorem set_eq {a : α} (hi : i < l.length) : set l i a = done (.ok (l.set i a)) := if_pos hi

theorem slice?_eq (hstart : start ≤ stop) (hstop : stop ≤ l.length) :
    slice? l start stop = some ((l.take stop).drop start) := if_pos ⟨hstart, hstop⟩

theorem slice_eq (hstart : start ≤ stop) (hstop : stop ≤ l.length) :
    slice l start stop = done (.ok ((l.take stop).drop start)) := by
  unfold slice
  rw [slice?_eq hstart hstop]
  rfl

theorem advance_eq {cursor n : Nat} (hroom : cursor + n < 2 ^ 64) :
    advance cursor n = done (.ok (cursor + n)) := if_pos hroom

theorem retreat_eq {n m : Nat} (hle : m ≤ n) : retreat n m = done (.ok (n - m)) := if_pos hle

/-- All that stands at a cursor and behind it. -/
def tail? (l : List α) (cursor : Nat) : Option (List α) := slice? l cursor l.length

/-- As `tail?`, where the cursor must not be past the end. -/
def tail (l : List α) (cursor : Nat) : Checked (List α) := slice l cursor l.length

theorem tail_eq {cursor : Nat} (hcursor : cursor ≤ l.length) :
    tail l cursor = done (.ok (l.drop cursor)) := by
  unfold tail
  rw [slice_eq hcursor (Nat.le_refl _), List.take_length]

/-- Behind a cursor that is past the end there is nothing. -/
theorem tail?_getD (l : List α) (cursor : Nat) : (tail? l cursor).getD [] = l.drop cursor := by
  unfold tail?
  by_cases hcursor : cursor ≤ l.length
  · rw [slice?_eq hcursor (Nat.le_refl _), List.take_length]
    rfl
  · unfold slice?
    rw [if_neg (by omega), List.drop_of_length_le (by omega)]
    rfl

theorem slice?_zero (l : List α) (n : Nat) :
    slice? l 0 n = if n ≤ l.length then some (l.take n) else none := by
  unfold slice?
  simp

/-- A range is the front of what stands at its start. -/
theorem slice?_add {b : Bytes} {start : Nat} (hstart : start ≤ b.length) (n : Nat) :
    slice? b start (start + n) = (splitAt? n (b.drop start)).map (·.1) := by
  have hrest := List.length_drop (i := start) (l := b)
  unfold splitAt?
  by_cases hn : start + n ≤ b.length
  · rw [slice?_eq (Nat.le_add_right _ _) hn, if_pos (by omega), List.drop_take,
      Nat.add_sub_cancel_left]
    rfl
  · unfold slice?
    rw [if_neg (fun h => hn h.2), if_neg (by omega)]
    rfl

/-- Octets without the spaces that fill up their end, which are counted and then cut off. -/
def trim (b : Bytes) : Checked Bytes := do
  let stop ← retreat b.length (b.reverse.takeWhile (· = 0x20)).length
  slice b 0 stop

theorem trim_eq (b : Bytes) : trim b = done (.ok (trimSpaces b)) := by
  have hlength := length_trimSpaces b
  have hstop : b.length - (b.reverse.takeWhile (· = 0x20)).length = (trimSpaces b).length := by omega
  unfold trim
  rw [retreat_eq (by omega), done_ok_bind, hstop, slice_eq (Nat.zero_le _) (by omega),
    take_length_trimSpaces]
  rfl

end Checked

end Aprs
