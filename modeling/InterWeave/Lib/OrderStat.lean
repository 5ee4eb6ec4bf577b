import InterWeave.Lib.KeySort

/-!
The n-th largest of a list of numbers, and how many of them lie above a bound.
-/

namespace OrderStat

open KeySort

variable (bound start : Nat) (items : List Nat)

def nthLargest (items : List Nat) (n : Nat) : Nat :=
  (sortByKey id items).getD (items.length - n) 0

def countAbove (bound : Nat) (items : List Nat) : Nat := items.countP fun item => bound < item

theorem countAbove_sort : countAbove bound (sortByKey id items) = countAbove bound items :=
  (sortByKey_perm id items).countP_eq _

theorem sorted_get_le {items : List Nat} {first second : Nat} (order : first ≤ second)
    (inside : second < (sortByKey id items).length) :
    (sortByKey id items)[first] ≤ (sortByKey id items)[second] := by
  have sorted := List.pairwise_iff_getElem.mp (sortByKey_pairwise id items)
  rcases Nat.eq_or_lt_of_le order with rfl | before
  · exact le_rfl
  · exact sorted first second (by omega) inside before

theorem lt_nthLargest_iff {items : List Nat} {n : Nat} (positive : 0 < n)
    (enough : n ≤ items.length) (bound : Nat) :
    bound < nthLargest items n ↔ n ≤ countAbove bound items := by
  have length := length_sortByKey id items
  have inside : items.length - n < (sortByKey id items).length := by omega
  have here : nthLargest items n = (sortByKey id items)[items.length - n] := by
    simp [nthLargest, List.getD, List.getElem?_eq_getElem inside]
  rw [here, ← countAbove_sort]
  constructor
  · intro above
    have tail : countAbove bound ((sortByKey id items).drop (items.length - n)) =
        ((sortByKey id items).drop (items.length - n)).length := by
      refine List.countP_eq_length.mpr fun item member => ?_
      obtain ⟨index, within, rfl⟩ := List.mem_iff_getElem.mp member
      rw [List.getElem_drop, decide_eq_true_eq]
      rw [List.length_drop] at within
      exact lt_of_lt_of_le above (sorted_get_le (by omega) (by omega))
    have part : countAbove bound ((sortByKey id items).drop (items.length - n)) ≤
        countAbove bound (sortByKey id items) := (List.drop_sublist _ _).countP_le
    rw [tail, List.length_drop] at part
    omega
  · intro many
    by_contra below
    have front : countAbove bound ((sortByKey id items).take (items.length - n + 1)) = 0 := by
      refine List.countP_eq_zero.mpr fun item member => ?_
      obtain ⟨index, within, rfl⟩ := List.mem_iff_getElem.mp member
      rw [List.getElem_take, decide_eq_true_eq]
      rw [List.length_take] at within
      have small : (sortByKey id items)[index] ≤ (sortByKey id items)[items.length - n] :=
        sorted_get_le (by omega) inside
      omega
    have total : countAbove bound (sortByKey id items) =
        countAbove bound ((sortByKey id items).take (items.length - n + 1)) +
          countAbove bound ((sortByKey id items).drop (items.length - n + 1)) := by
      unfold countAbove
      rw [← List.countP_append, List.take_append_drop]
    have back : countAbove bound ((sortByKey id items).drop (items.length - n + 1)) ≤
        ((sortByKey id items).drop (items.length - n + 1)).length := List.countP_le_length
    rw [List.length_drop] at back
    omega

theorem lt_foldl_max_iff :
    bound < items.foldl max start ↔ bound < start ∨ ∃ item ∈ items, bound < item := by
  induction items generalizing start with
  | nil => simp
  | cons item rest ih =>
    rw [List.foldl_cons, ih, lt_max_iff]
    simp [exists_eq_or_imp, or_assoc]

theorem lt_foldl_min_iff :
    bound < items.foldl min start ↔ bound < start ∧ ∀ item ∈ items, bound < item := by
  induction items generalizing start with
  | nil => simp
  | cons item rest ih =>
    rw [List.foldl_cons, ih, lt_min_iff]
    simp only [List.mem_cons, forall_eq_or_imp, and_assoc]

theorem foldl_min_eq_or_mem : items.foldl min start = start ∨ items.foldl min start ∈ items := by
  induction items generalizing start with
  | nil => exact .inl rfl
  | cons item rest ih =>
    rw [List.foldl_cons]
    rcases ih (min start item) with kept | later
    · rw [kept]
      rcases min_choice start item with first | second
      · exact .inl first
      · rw [second]
        exact .inr List.mem_cons_self
    · exact .inr (List.mem_cons_of_mem item later)

theorem foldl_min_mem {start : Nat} {items : List Nat} (nonempty : items ≠ [])
    (below : ∀ item ∈ items, item ≤ start) : items.foldl min start ∈ items := by
  rcases foldl_min_eq_or_mem start items with kept | member
  · obtain ⟨item, member⟩ := List.exists_mem_of_ne_nil items nonempty
    have least : items.foldl min start ≤ item := by
      by_contra above
      exact absurd ((lt_foldl_min_iff item start items).mp (not_le.mp above)).2 (by
        intro all
        exact lt_irrefl item (all item member))
    have same : item = start := le_antisymm (below item member) (kept ▸ least)
    rw [kept, ← same]
    exact member
  · exact member

end OrderStat
