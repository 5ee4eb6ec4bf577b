import Mathlib

/-!
A recency list: the front is the next to go, the back was used last. What
matters about one key is the part of the list behind it.
-/

namespace Recency

variable {α : Type} [DecidableEq α]

def behind (key : α) : List α → List α
  | [] => []
  | x :: rest => if x = key then rest else behind key rest

@[simp]
theorem behind_cons_self {key : α} {rest : List α} : behind key (key :: rest) = rest := by
  simp [behind]

theorem behind_cons_of_ne {rest : List α} (distinct : x ≠ key) :
    behind key (x :: rest) = behind key rest := by
  simp [behind, distinct]

theorem behind_sublist (key : α) (order : List α) : (behind key order).Sublist order := by
  induction order with
  | nil => exact .slnil
  | cons x rest ih =>
    unfold behind
    split
    · exact List.sublist_cons_self x rest
    · exact ih.cons x

theorem behind_append (member : key ∈ order) {later : List α} :
    behind key (order ++ later) = behind key order ++ later := by
  induction order with
  | nil => cases member
  | cons x rest ih =>
    by_cases same : x = key
    · simp [behind, same]
    · have inRest : key ∈ rest := (List.mem_cons.mp member).resolve_left (Ne.symm same)
      simpa [behind, same] using ih inRest

theorem behind_append_of_notMem (absent : key ∉ order) {later : List α} :
    behind key (order ++ later) = behind key later := by
  induction order with
  | nil => rfl
  | cons x rest ih =>
    have distinct : x ≠ key := fun same => absent (by simp [same])
    simpa [behind, distinct] using ih fun member => absent (List.mem_cons_of_mem x member)

theorem behind_filter (kept : keep key = true) {order : List α} :
    behind key (order.filter keep) = (behind key order).filter keep := by
  induction order with
  | nil => rfl
  | cons x rest ih =>
    by_cases same : x = key
    · simp [behind, same, kept]
    · by_cases keepsX : keep x = true
      · simpa [behind, same, keepsX] using ih
      · simpa [behind, same, keepsX] using ih

theorem behind_erase_subset (distinct : other ≠ key) {order : List α} :
    behind key (order.erase other) ⊆ behind key order := by
  induction order with
  | nil => exact List.Subset.refl _
  | cons x rest ih =>
    by_cases isOther : x = other
    · subst x
      simp only [List.erase_cons_head, behind_cons_of_ne distinct]
      exact List.Subset.refl _
    · rw [List.erase_cons_tail (by simpa using isOther)]
      by_cases same : x = key
      · subst x
        simpa using List.erase_subset
      · rw [behind_cons_of_ne same, behind_cons_of_ne same]
        exact ih

end Recency
