import Aprs.Bytes

namespace Aprs

theorem splitAt?_of_getElem? {b : Bytes} {n : Nat} {x : UInt8} (hx : b[n]? = some x) :
    splitAt? n b = some (b.take n, x :: b.drop (n + 1)) := by
  obtain ⟨hn, hget⟩ := List.getElem?_eq_some_iff.1 hx
  unfold splitAt?
  rw [if_pos (Nat.le_of_lt hn), List.drop_eq_getElem_cons hn, hget]

theorem splitAt?_of_getElem?_eq_none {b : Bytes} {n : Nat} (hnone : b[n]? = none) :
    splitAt? n b = none ∨ splitAt? n b = some (b.take n, []) := by
  rw [List.getElem?_eq_none_iff] at hnone
  unfold splitAt?
  split
  · rw [List.drop_of_length_le hnone]
    exact .inr rfl
  · exact .inl rfl

/-- A body is what is left of it and the one terminator that was taken off. -/
theorem stripTerminator_append (b : Bytes) :
    ∃ terminator ∈ [[], [0x0A], [0x0D], [0x0D, 0x0A]], b = stripTerminator b ++ terminator := by
  unfold stripTerminator
  split
  case h_1 hreverse =>
    refine ⟨[0x0D, 0x0A], by simp, ?_⟩
    rw [← List.reverse_inj, hreverse]
    simp
  case h_2 hreverse =>
    refine ⟨[0x0A], by simp, ?_⟩
    rw [← List.reverse_inj, hreverse]
    simp
  case h_3 hreverse =>
    refine ⟨[0x0D], by simp, ?_⟩
    rw [← List.reverse_inj, hreverse]
    simp
  case h_4 => exact ⟨[], by simp, by simp⟩

/-- Taking off a terminator leaves nothing only of the terminator itself. -/
theorem stripTerminator_eq_nil {first : UInt8} {rest : Bytes}
    (hstrip : stripTerminator (first :: rest) = []) : first = 0x0A ∨ first = 0x0D := by
  unfold stripTerminator at hstrip
  split at hstrip
  case h_1 hreverse =>
    rw [List.reverse_eq_nil_iff.1 hstrip, ← List.reverse_inj, List.reverse_reverse] at hreverse
    exact .inr (List.cons.inj hreverse).1
  case h_2 hreverse =>
    rw [List.reverse_eq_nil_iff.1 hstrip, ← List.reverse_inj, List.reverse_reverse] at hreverse
    exact .inl (List.cons.inj hreverse).1
  case h_3 hreverse =>
    rw [List.reverse_eq_nil_iff.1 hstrip, ← List.reverse_inj, List.reverse_reverse] at hreverse
    exact .inr (List.cons.inj hreverse).1
  case h_4 => cases hstrip

/-- A terminator is no longer than what stands behind the last octet that is in none. -/
theorem stripTerminator_append_cons {last : UInt8} (hlf : last ≠ 0x0A) (hcr : last ≠ 0x0D)
    (front rest : Bytes) :
    stripTerminator (front ++ last :: rest) = front ++ last :: stripTerminator rest := by
  obtain ⟨back, rfl⟩ : ∃ back, rest = back.reverse := ⟨rest.reverse, rest.reverse_reverse.symm⟩
  have hreverse : (front ++ last :: back.reverse).reverse = back ++ last :: front.reverse := by simp
  unfold stripTerminator
  rw [hreverse, List.reverse_reverse]
  rcases back with _ | ⟨x, back⟩
  · simp [hlf, hcr]
  · by_cases hx : x = 0x0A
    · subst hx
      rcases back with _ | ⟨y, back⟩
      · simp [hcr]
      · by_cases hy : y = 0x0D
        · simp [hy]
        · simp [hy]
    · by_cases hx' : x = 0x0D
      · simp [hx']
      · simp [hx, hx']

theorem length_trimSpaces (b : Bytes) :
    (trimSpaces b).length + (b.reverse.takeWhile (· = 0x20)).length = b.length := by
  have hparts := List.takeWhile_append_dropWhile (p := (· = (0x20 : UInt8))) (l := b.reverse)
  have hlength := congrArg List.length hparts
  rw [List.length_append, List.length_reverse] at hlength
  unfold trimSpaces
  rw [List.length_reverse]
  omega

/-- The octets that are trimmed off an end are all spaces. -/
theorem trimSpaces_append (b : Bytes) :
    trimSpaces b ++ List.replicate (b.length - (trimSpaces b).length) 0x20 = b := by
  have hall := List.all_takeWhile (p := (· = (0x20 : UInt8))) (l := b.reverse)
  have hspaces : b.reverse.takeWhile (· = 0x20) =
      List.replicate (b.reverse.takeWhile (· = 0x20)).length 0x20 := by
    refine List.eq_replicate_of_mem fun x hx => ?_
    simpa using List.all_eq_true.1 hall x hx
  have hcount : b.length - (trimSpaces b).length = (b.reverse.takeWhile (· = 0x20)).length := by
    have hlength := length_trimSpaces b
    omega
  rw [hcount, ← List.reverse_inj, List.reverse_append, List.reverse_replicate, ← hspaces]
  unfold trimSpaces
  rw [List.reverse_reverse, List.takeWhile_append_dropWhile]

theorem take_length_trimSpaces (b : Bytes) : b.take (trimSpaces b).length = trimSpaces b := by
  have hparts := trimSpaces_append b
  exact (congrArg (List.take (trimSpaces b).length) hparts).symm.trans List.take_left

/-- A field of a fixed width is its trimmed form filled up again. -/
theorem padSpaces_trimSpaces {n : Nat} {b : Bytes} (hlength : b.length = n) :
    padSpaces n (trimSpaces b) = b := by
  unfold padSpaces
  rw [← hlength]
  exact trimSpaces_append b

theorem getLast?_trimSpaces (b : Bytes) : (trimSpaces b).getLast? ≠ some 0x20 := by
  intro hlast
  have hnext := List.head?_dropWhile_not (· = (0x20 : UInt8)) b.reverse
  unfold trimSpaces at hlast
  rw [List.getLast?_reverse] at hlast
  rw [hlast] at hnext
  exact of_decide_eq_false hnext rfl

/-- Octets that do not end in a space are what is left of them when they have been filled up. -/
theorem trimSpaces_padSpaces {b : Bytes} (hlast : b.getLast? ≠ some 0x20) (n : Nat) :
    trimSpaces (padSpaces n b) = b := by
  have hspaces : ∀ x ∈ List.replicate (n - b.length) (0x20 : UInt8), decide (x = 0x20) := by
    intro x hx
    exact decide_eq_true (List.eq_of_mem_replicate hx)
  have hwhole : b.reverse.dropWhile (· = 0x20) = b.reverse := by
    rcases List.eq_nil_or_concat b with rfl | ⟨front, last, rfl⟩
    · rfl
    · have hne : last ≠ 0x20 := by simpa using hlast
      simp [hne]
  unfold trimSpaces padSpaces
  rw [List.reverse_append, List.reverse_replicate, List.dropWhile_append_of_pos hspaces, hwhole,
    List.reverse_reverse]

theorem length_padSpaces {n : Nat} {b : Bytes} (hroom : b.length ≤ n) :
    (padSpaces n b).length = n := by
  rw [padSpaces, List.length_append, List.length_replicate]
  omega

/-- A field of a fixed width is filled up from its trimmed form, and from nothing else that does
not end in a space. -/
theorem trimSpaces_eq_iff {n : Nat} {field b : Bytes} :
    (field.length = n ∧ trimSpaces field = b) ↔
      b.length ≤ n ∧ b.getLast? ≠ some 0x20 ∧ padSpaces n b = field := by
  constructor
  · rintro ⟨rfl, rfl⟩
    have hlength := length_trimSpaces field
    exact ⟨by omega, getLast?_trimSpaces field, padSpaces_trimSpaces rfl⟩
  · rintro ⟨hroom, hlast, rfl⟩
    exact ⟨length_padSpaces hroom, trimSpaces_padSpaces hlast n⟩

end Aprs
