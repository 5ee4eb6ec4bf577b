import Mathlib

/-!
Unsigned arithmetic that stops at the end of its range instead of wrapping.
Subtraction needs nothing here: truncated subtraction on `Nat` already saturates.
-/

namespace Saturating

def u32Max : Nat := 2 ^ 32 - 1
def u64Max : Nat := 2 ^ 64 - 1

def add32 (a b : Nat) : Nat := min (a + b) u32Max
def add64 (a b : Nat) : Nat := min (a + b) u64Max
def mul64 (a b : Nat) : Nat := min (a * b) u64Max

theorem add64_le_add64 (order : small ≤ large) (more : Nat) : add64 small more ≤ add64 large more :=
  min_le_min_right _ (Nat.add_le_add_right order _)

theorem add64_le_iff (early : time < u64Max) (start length : Nat) :
    add64 start length ≤ time ↔ start + length ≤ time := by
  unfold add64
  omega

end Saturating
