import Mathlib

/-!
Stable sorting by a key.
-/

namespace KeySort

variable {α κ : Type} [LinearOrder κ]

def sortByKey (key : α → κ) (items : List α) : List α :=
  items.insertionSort fun first second => key first ≤ key second

variable (key : α → κ) (items : List α)

theorem sortByKey_perm : (sortByKey key items).Perm items :=
  List.perm_insertionSort _ items

theorem mem_sortByKey : item ∈ sortByKey key items ↔ item ∈ items :=
  (sortByKey_perm key items).mem_iff

theorem length_sortByKey : (sortByKey key items).length = items.length :=
  (sortByKey_perm key items).length_eq

theorem sortByKey_pairwise :
    (sortByKey key items).Pairwise fun first second => key first ≤ key second := by
  have total : Std.Total fun first second : α => key first ≤ key second :=
    ⟨fun first second => le_total (key first) (key second)⟩
  have transitive : IsTrans α fun first second => key first ≤ key second :=
    ⟨fun _ _ _ => le_trans⟩
  exact List.pairwise_insertionSort _ items

theorem take_le_drop (count : Nat) (front : first ∈ (sortByKey key items).take count)
    (back : second ∈ (sortByKey key items).drop count) : key first ≤ key second := by
  have sorted := sortByKey_pairwise key items
  rw [← List.take_append_drop count (sortByKey key items), List.pairwise_append] at sorted
  exact sorted.2.2 first front second back

end KeySort
