/-!
# Steps that may fail

What the success of a whole says about its parts.
-/

namespace TokenEdit

variable {ε ε' α β : Type}

/-- If two steps in a row succeed, both do. -/
theorem exists_of_bind_eq_ok {x : Except ε α} {f : α → Except ε β} {result : β}
    (h : x >>= f = .ok result) : ∃ a, x = .ok a ∧ f a = .ok result := by
  cases x with
  | error e => exact absurd h (by simp [bind, Except.bind])
  | ok a => exact ⟨a, rfl, h⟩

/-- To name an error otherwise is not to succeed. -/
theorem eq_ok_of_mapError {f : ε → ε'} {x : Except ε α} {a : α} (h : x.mapError f = .ok a) :
    x = .ok a := by
  cases x with
  | error e => exact absurd h nofun
  | ok b => exact congrArg Except.ok (Except.ok.inj h)

end TokenEdit
