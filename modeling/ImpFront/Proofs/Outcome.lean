/-!
# Steps that may fail

Trees are built, settings are read and checks are made step by step, and the first step
that fails decides. What is said here holds of such steps whatever their values and
errors are.
-/

namespace ImpFront

variable {ε ε' α β : Type}

/-- A step that succeeds passes its value on. -/
theorem ok_bind (a : α) (f : α → Except ε β) : (Except.ok a >>= f) = f a := rfl

/-- Steps succeed together if each of them does. -/
theorem bind_eq_ok_iff {x : Except ε α} {f : α → Except ε β} {b : β} :
    (x >>= f) = .ok b ↔ ∃ a, x = .ok a ∧ f a = .ok b := by
  cases x with
  | ok a =>
    constructor
    · exact fun h => ⟨a, rfl, h⟩
    · rintro ⟨_, ha, h⟩
      obtain rfl := Except.ok.inj ha
      exact h
  | error e =>
    constructor
    · exact fun h => nomatch h
    · rintro ⟨_, ha, -⟩
      cases ha

theorem map_eq_ok {f : α → β} {x : Except ε α} {b : β} :
    x.map f = .ok b ↔ ∃ a, x = .ok a ∧ f a = b := by
  cases x with
  | error e => simp [Except.map]
  | ok a => simp [Except.map]

/-- A step on what may be there. -/
theorem mapM_eq_ok_some {f : α → Except ε β} {x : Option α} {b : β} :
    x.mapM f = .ok (some b) ↔ ∃ a, x = some a ∧ f a = .ok b := by
  cases x with
  | none => simp [pure, Except.pure]
  | some a => cases hb : f a <;> simp [hb, Functor.map, Except.map]

/-- Another error makes no other value. -/
theorem mapError_eq_ok {g : ε → ε'} {x : Except ε α} {a : α} :
    x.mapError g = .ok a ↔ x = .ok a := by
  constructor
  · intro h
    cases x with
    | error e => cases h
    | ok b =>
      cases h
      rfl
  · rintro rfl
    rfl

/-- Errors of two steps are errors of the one or of the other. -/
theorem mapError_bind (g : ε → ε') (x : Except ε α) (f : α → Except ε β) :
    (x >>= f).mapError g = x.mapError g >>= fun a => (f a).mapError g := by
  cases x <;> rfl

@[simp] theorem mapError_pure (g : ε → ε') (a : α) :
    (pure a : Except ε α).mapError g = pure a := rfl

/-- What is computed from the value of a result is computed from a value. -/
theorem exists_of_toOption_map {r : Except ε α} {f : α → β} {b : β}
    (h : r.toOption.map f = some b) : ∃ a, r = .ok a ∧ f a = b := by
  cases r with
  | error e => simp [Except.toOption] at h
  | ok a => exact ⟨a, rfl, Option.some.inj h⟩

end ImpFront
