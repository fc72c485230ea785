/-! Results of computations that may fail. -/
namespace Stepwise

variable {ε α β γ : Type}

/-- Two computations in a row succeed when the first does and the second does with its result. -/
theorem bind_eq_ok_iff {x : Except ε α} {f : α → Except ε β} {b : β} :
    x >>= f = .ok b ↔ ∃ a, x = .ok a ∧ f a = .ok b := by
  cases x with
  | error e => exact iff_of_false nofun nofun
  | ok a =>
      constructor
      · exact fun h => ⟨a, rfl, h⟩
      · rintro ⟨_, hEq, h⟩
        cases hEq
        exact h

/-- Two computations in a row fail when the first does, or the second with the result of the first. -/
theorem bind_eq_error_iff {x : Except ε α} {f : α → Except ε β} {e : ε} :
    x >>= f = .error e ↔ x = .error e ∨ ∃ a, x = .ok a ∧ f a = .error e := by
  cases x with
  | error cause =>
      constructor
      · intro h
        cases h
        exact .inl rfl
      · rintro (h | ⟨_, hEq, -⟩)
        · cases h
          rfl
        · cases hEq
  | ok a =>
      constructor
      · exact fun h => .inr ⟨a, rfl, h⟩
      · rintro (hEq | ⟨_, hEq, h⟩)
        · cases hEq
        · cases hEq
          exact h

theorem map_eq_ok_iff {x : Except ε α} {f : α → β} {b : β} :
    x.map f = .ok b ↔ ∃ a, x = .ok a ∧ f a = b := by
  cases x with
  | error e => exact iff_of_false nofun nofun
  | ok a =>
      constructor
      · intro h
        cases h
        exact ⟨a, rfl, rfl⟩
      · rintro ⟨_, hEq, rfl⟩
        cases hEq
        rfl

theorem map_map (x : Except ε α) (f : α → β) (g : β → γ) :
    (x.map f).map g = x.map fun a => g (f a) := by
  cases x <;> rfl

theorem mapError_eq_error_iff {ε' : Type} {x : Except ε α} {f : ε → ε'} {e : ε'} :
    x.mapError f = .error e ↔ ∃ cause, x = .error cause ∧ f cause = e := by
  cases x with
  | ok a => exact iff_of_false nofun nofun
  | error cause =>
      constructor
      · intro h
        cases h
        exact ⟨cause, rfl, rfl⟩
      · rintro ⟨_, hEq, rfl⟩
        cases hEq
        rfl

theorem exists_ok_of_isOk {x : Except ε α} (h : x.isOk = true) : ∃ a, x = .ok a := by
  cases x with
  | error e => cases h
  | ok a => exact ⟨a, rfl⟩

/-- A fold that fails does so at one item, with what the items before it come to. -/
theorem exists_of_foldlM_eq_error {f : β → α → Except ε β} {items : List α} {start : β} {e : ε}
    (h : items.foldlM f start = .error e) :
    ∃ k x b, items[k]? = some x ∧ (items.take k).foldlM f start = .ok b ∧ f b x = .error e := by
  induction items generalizing start with
  | nil => cases h
  | cons first rest ih =>
      rw [List.foldlM_cons] at h
      cases hFirst : f start first with
      | error cause =>
          rw [hFirst] at h
          cases h
          exact ⟨0, first, start, rfl, rfl, hFirst⟩
      | ok next =>
          rw [hFirst] at h
          obtain ⟨k, x, b, hItem, hFold, hFails⟩ := ih h
          refine ⟨k + 1, x, b, hItem, ?_, hFails⟩
          rw [List.take_succ_cons, List.foldlM_cons, hFirst]
          exact hFold

end Stepwise
