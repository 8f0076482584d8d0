namespace Aprs

/-- Octets in the order they arrive. -/
abbrev Bytes := List UInt8

/-- The first `n` octets and the ones after them. There is an answer only if there
are that many octets, so both parts together are always the whole. -/
def splitAt? (n : Nat) (b : Bytes) : Option (Bytes × Bytes) :=
  if n ≤ b.length then some (b.take n, b.drop n) else none

/-- A field is split off exactly if it has its width. -/
theorem splitAt?_eq_some_iff {n : Nat} {b field rest : Bytes} :
    splitAt? n b = some (field, rest) ↔ b = field ++ rest ∧ field.length = n := by
  unfold splitAt?
  constructor
  · intro h
    split at h
    case isTrue hn =>
      obtain ⟨rfl, rfl⟩ := Prod.mk.inj (Option.some.inj h)
      exact ⟨(List.take_append_drop n b).symm, List.length_take_of_le hn⟩
    case isFalse => simp at h
  · rintro ⟨rfl, rfl⟩
    simp

theorem splitAt?_eq_none_iff {n : Nat} {b : Bytes} : splitAt? n b = none ↔ b.length < n := by
  simp [splitAt?]

/-- The octets before the first `x` and the ones after it, if `x` occurs. -/
def cut? {α : Type} [DecidableEq α] (x : α) : List α → Option (List α × List α)
  | [] => none
  | y :: rest =>
    if y = x then some ([], rest) else (cut? x rest).map fun (before, after) => (y :: before, after)

theorem cut?_eq_none_iff {α : Type} [DecidableEq α] {x : α} {l : List α} :
    cut? x l = none ↔ x ∉ l := by
  induction l with
  | nil => simp [cut?]
  | cons y rest ih =>
    by_cases h : y = x
    · simp [cut?, h]
    · have h' : ¬ x = y := fun e => h e.symm
      simp [cut?, h, h', ih]

/-- A list is cut at the first place where the delimiter stands. -/
theorem cut?_eq_some_iff {α : Type} [DecidableEq α] {x : α} {l before after : List α} :
    cut? x l = some (before, after) ↔ l = before ++ x :: after ∧ x ∉ before := by
  induction l generalizing before with
  | nil => simp [cut?]
  | cons y rest ih =>
    by_cases h : y = x
    · subst h
      simp only [cut?, if_true, Option.some.injEq, Prod.mk.injEq]
      constructor
      · rintro ⟨rfl, rfl⟩
        simp
      · rintro ⟨hl, hy⟩
        cases before with
        | nil => exact ⟨rfl, (List.cons.inj hl).2⟩
        | cons z zs => exact absurd (List.cons.inj hl).1 fun e => hy (e ▸ List.mem_cons_self)
    · simp only [cut?, if_neg h, Option.map_eq_some_iff, Prod.exists, Prod.mk.injEq]
      constructor
      · rintro ⟨b, a, hcut, rfl, rfl⟩
        obtain ⟨rfl, hx⟩ := ih.1 hcut
        exact ⟨rfl, by simp [hx, Ne.symm h]⟩
      · rintro ⟨hl, hx⟩
        cases before with
        | nil => exact absurd (List.cons.inj hl).1 h
        | cons z zs =>
          obtain ⟨rfl, rfl⟩ := List.cons.inj hl
          exact ⟨zs, after, ih.2 ⟨rfl, fun hmem => hx (List.mem_cons_of_mem _ hmem)⟩, rfl, rfl⟩

/-- Octets without the spaces that fill up their end. -/
def trimSpaces (b : Bytes) : Bytes := (b.reverse.dropWhile (· = 0x20)).reverse

/-- Octets filled up with spaces at the end until there are `n` of them. -/
def padSpaces (n : Nat) (b : Bytes) : Bytes := b ++ List.replicate (n - b.length) 0x20

/-- A body without the CR, LF or CR LF that ended its line. One is taken off and no more. -/
def stripTerminator (b : Bytes) : Bytes :=
  match b.reverse with
  | 0x0A :: 0x0D :: rest => rest.reverse
  | 0x0A :: rest => rest.reverse
  | 0x0D :: rest => rest.reverse
  | _ => b

end Aprs
