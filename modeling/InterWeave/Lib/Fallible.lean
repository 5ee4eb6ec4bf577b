import Mathlib

/-!
Taking apart computations that may fail.
-/

namespace Fallible

variable {ε δ α β : Type}

theorem bind_eq_ok {next : α → Except ε β} :
    (first >>= next) = .ok result ↔ ∃ value, first = .ok value ∧ next value = .ok result := by
  cases first with
  | error reason => exact iff_of_false nofun fun ⟨_, same, _⟩ => nomatch same
  | ok value =>
    refine ⟨fun same => ⟨value, rfl, same⟩, fun ⟨_, same, rest⟩ => ?_⟩
    cases same
    exact rest

theorem ok_bind (value : α) (next : α → Except ε β) : (Except.ok value >>= next) = next value :=
  rfl

theorem map_eq_ok {first : Except ε α} :
    first.map change = .ok result ↔ ∃ value, first = .ok value ∧ change value = result := by
  cases first with
  | error reason => exact iff_of_false nofun fun ⟨_, same, _⟩ => nomatch same
  | ok value => simp [Except.map]

theorem mapError_eq_ok {first : Except ε α} :
    first.mapError change = .ok result ↔ first = .ok result := by
  cases first with
  | error reason => exact iff_of_false nofun nofun
  | ok value => simp [Except.mapError]

end Fallible
