namespace Aprs

variable {ε α β : Type}

theorem ok_bind (a : α) (f : α → Except ε β) : Except.ok a >>= f = f a := rfl

theorem error_bind (e : ε) (f : α → Except ε β) : Except.error e >>= f = .error e := rfl

theorem ite_error_bind {p : Prop} [Decidable p] (e : ε) (a : α) (f : α → Except ε β) :
    (if p then Except.error e else .ok a) >>= f = if p then .error e else f a := by
  split <;> rfl

theorem bind_eq_ok_iff {x : Except ε α} {f : α → Except ε β} {y : β} :
    x >>= f = .ok y ↔ ∃ a, x = .ok a ∧ f a = .ok y := by
  cases x <;> simp [Bind.bind, Except.bind]

/-- A chain fails where its first part does, or in what comes after a first part that succeeds. -/
theorem bind_eq_error_iff {x : Except ε α} {f : α → Except ε β} {e : ε} :
    x >>= f = .error e ↔ x = .error e ∨ ∃ a, x = .ok a ∧ f a = .error e := by
  cases x <;> simp [Bind.bind, Except.bind]

/-- What comes after a first part only fails with it, if it does not fail. -/
theorem bind_eq_error_iff_of_ok {x : Except ε α} {f : α → Except ε β} {e : ε}
    (hf : ∀ a, ∃ b, f a = .ok b) : x >>= f = .error e ↔ x = .error e := by
  rw [bind_eq_error_iff]
  constructor
  · rintro (hx | ⟨a, _, hfa⟩)
    · exact hx
    · obtain ⟨b, hok⟩ := hf a
      rw [hok] at hfa
      cases hfa
  · exact .inl

theorem map_eq_ok_iff {x : Except ε α} {f : α → β} {y : β} :
    x.map f = .ok y ↔ ∃ a, x = .ok a ∧ f a = y := by
  cases x <;> simp [Except.map]

theorem map_eq_error_iff {x : Except ε α} {f : α → β} {e : ε} :
    x.map f = .error e ↔ x = .error e := by
  cases x <;> simp [Except.map]

theorem ok_mapError {ε' : Type} (f : ε → ε') (a : α) :
    (Except.ok a : Except ε α).mapError f = .ok a := rfl

theorem error_mapError {ε' : Type} (f : ε → ε') (e : ε) :
    (Except.error e : Except ε α).mapError f = .error (f e) := rfl

theorem mapError_eq_ok_iff {ε' : Type} {x : Except ε α} {f : ε → ε'} {a : α} :
    x.mapError f = .ok a ↔ x = .ok a := by
  cases x <;> simp [ok_mapError, error_mapError]

theorem mapError_eq_error_iff {ε' : Type} {x : Except ε α} {f : ε → ε'} {e' : ε'} :
    x.mapError f = .error e' ↔ ∃ e, x = .error e ∧ f e = e' := by
  cases x <;> simp [ok_mapError, error_mapError]

theorem toOption_eq_some_iff {x : Except ε α} {a : α} : x.toOption = some a ↔ x = .ok a := by
  cases x <;> simp [Except.toOption]

theorem elim_error_eq_ok_iff {e : ε} {x : Option α} {a : α} :
    x.elim (.error e) .ok = Except.ok a ↔ x = some a := by
  cases x <;> simp

/-- Reading a list succeeds where reading each of its members does, in the same order. -/
theorem mapM_eq_ok_iff {f : α → Except ε β} {l : List α} {found : List β} :
    l.mapM f = .ok found ↔ l.map f = found.map Except.ok := by
  induction l generalizing found with
  | nil => cases found <;> simp [pure, Except.pure]
  | cons a l ih =>
    rw [List.mapM_cons, bind_eq_ok_iff]
    constructor
    · rintro ⟨b, ha, hrest⟩
      obtain ⟨rest, hl, hfound⟩ := bind_eq_ok_iff.1 hrest
      obtain rfl := Except.ok.inj hfound
      rw [List.map_cons, List.map_cons, ha, ih.1 hl]
    · intro hmap
      cases found with
      | nil => cases hmap
      | cons b rest =>
        obtain ⟨ha, hl⟩ := List.cons.inj hmap
        exact ⟨b, ha, bind_eq_ok_iff.2 ⟨rest, ih.2 hl, rfl⟩⟩

/-- Reading a list fails with the first of its members that is not read. -/
theorem mapM_eq_error_iff {f : α → Except ε β} {l : List α} {e : ε} :
    l.mapM f = .error e ↔ ∃ front a back, l = front ++ a :: back ∧
      (∀ x ∈ front, ∃ y, f x = .ok y) ∧ f a = .error e := by
  induction l with
  | nil => simp [pure, Except.pure]
  | cons a l ih =>
    have hrest (b : β) : (l.mapM f >>= fun found => pure (b :: found)) = .error e ↔
        l.mapM f = .error e := bind_eq_error_iff_of_ok fun _ => ⟨_, rfl⟩
    rw [List.mapM_cons, bind_eq_error_iff]
    simp only [hrest, ih]
    constructor
    · rintro (ha | ⟨b, ha, front, bad, back, rfl, hfront, hbad⟩)
      · exact ⟨[], a, l, rfl, by simp, ha⟩
      · exact ⟨a :: front, bad, back, rfl, List.forall_mem_cons.2 ⟨⟨b, ha⟩, hfront⟩, hbad⟩
    · rintro ⟨front, bad, back, hl, hfront, hbad⟩
      cases front with
      | nil =>
        obtain ⟨rfl, rfl⟩ := List.cons.inj hl
        exact .inl hbad
      | cons x front =>
        obtain ⟨rfl, rfl⟩ := List.cons.inj hl
        obtain ⟨⟨b, ha⟩, hrest⟩ := List.forall_mem_cons.1 hfront
        exact .inr ⟨b, ha, front, bad, back, rfl, hrest, hbad⟩

/-- The error of a list is that of one of its members. -/
theorem mapM_eq_error {f : α → Except ε β} {l : List α} {e : ε} (hmap : l.mapM f = .error e) :
    ∃ a ∈ l, f a = .error e := by
  obtain ⟨front, a, back, rfl, _, ha⟩ := mapM_eq_error_iff.1 hmap
  exact ⟨a, List.mem_append_right front List.mem_cons_self, ha⟩

end Aprs
