/-!
# Computations that may fail

What the success or the failure of a computation says of its parts: a computation that follows another
one, and one whose errors are put into other words. Where there is a state, it is kept when a
computation fails.
-/

namespace Offside

section

variable {ε δ α β : Type}

theorem except_bind_eq_ok {x : Except ε α} {f : α → Except ε β} {b : β} (h : (x >>= f) = .ok b) :
    ∃ a, x = .ok a ∧ f a = .ok b := by
  cases x with
  | error error => cases h
  | ok a => exact ⟨a, rfl, h⟩

theorem except_bind_eq_error {x : Except ε α} {f : α → Except ε β} {error : ε}
    (h : (x >>= f) = .error error) : x = .error error ∨ ∃ a, x = .ok a ∧ f a = .error error := by
  cases x with
  | error _ =>
      cases h
      exact .inl rfl
  | ok a => exact .inr ⟨a, rfl, h⟩

theorem mapError_eq_error {x : Except ε α} {f : ε → δ} {error : δ}
    (h : x.mapError f = .error error) : ∃ failed, x = .error failed ∧ error = f failed := by
  cases x with
  | error failed => exact ⟨failed, rfl, (Except.error.inj h).symm⟩
  | ok a => cases h

theorem mapError_eq_ok {x : Except ε α} {f : ε → δ} {a : α} (h : x.mapError f = .ok a) :
    x = .ok a := by
  cases x with
  | error failed => cases h
  | ok b => exact congrArg _ (Except.ok.inj h)

/-- A computation goes on from the state that the one before it leaves; an error ends both. -/
theorem exceptT_run_bind {σ : Type} (m : ExceptT ε (StateM σ) α) (f : α → ExceptT ε (StateM σ) β)
    (state : σ) :
    (m >>= f).run state = match m.run state with
      | (.ok a, after) => (f a).run after
      | (.error error, after) => (.error error, after) := by
  change (ExceptT.bind m f) state = _
  simp only [ExceptT.bind, ExceptT.mk, Bind.bind, StateT.bind, ExceptT.run]
  cases m state with
  | mk outcome after => cases outcome <;> rfl

end

end Offside
