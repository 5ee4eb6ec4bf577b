import InterWeave.Lib.OrderedMap

/-!
Sums over the entries of an ordered map with values in any commutative monoid, and how
they change with one entry.
-/

namespace OrderedMap

open Std (ExtTreeMap)

variable {K V M : Type} [LinearOrder K] [AddCommMonoid M]

def sumOver (weight : K → V → M) (m : ExtTreeMap K V) : M :=
  (m.toList.map fun entry => weight entry.1 entry.2).sum

variable (weight : K → V → M)

@[simp]
theorem sumOver_empty : sumOver weight (∅ : ExtTreeMap K V) = 0 := by
  have listing : (∅ : ExtTreeMap K V).toList = [] := ExtTreeMap.toList_eq_nil_iff.mpr rfl
  simp [sumOver, listing]

theorem sumOver_insert (m : ExtTreeMap K V) (k : K) (v : V) :
    sumOver weight (m.insert k v) = weight k v + sumOver weight (m.erase k) := by
  unfold sumOver
  rw [((toList_insert_perm m k v).map _).sum_eq, List.map_cons, List.sum_cons]

theorem sumOver_insert_fresh (absent : m[k]? = none) :
    sumOver weight (m.insert k v) = weight k v + sumOver weight m := by
  rw [sumOver_insert, erase_of_get_none absent]

theorem sumOver_erase (found : m[k]? = some v) :
    sumOver weight m = weight k v + sumOver weight (m.erase k) := by
  unfold sumOver
  rw [((toList_perm_erase found).map _).sum_eq, List.map_cons, List.sum_cons]

theorem sumOver_replace (found : m[k]? = some old) :
    sumOver weight (m.insert k new) + weight k old = sumOver weight m + weight k new := by
  rw [sumOver_insert, sumOver_erase weight found]
  abel

theorem sumOver_map {W : Type} {f : K → V → W} (weight : K → W → M) {m : ExtTreeMap K V} :
    sumOver weight (m.map f) = sumOver (fun k v => weight k (f k v)) m := by
  simp [sumOver, ExtTreeMap.toList_map, List.map_map, Function.comp_def]

theorem countWhere_eq_sumOver (test : K → V → Bool) :
    countWhere test m = sumOver (fun k v => if test k v then 1 else 0) m := by
  unfold countWhere sumOver
  induction m.toList with
  | nil => rfl
  | cons entry rest ih =>
    by_cases passes : test entry.1 entry.2 = true
    · simp [passes, ih, Nat.add_comm]
    · simp [passes, ih]

section

variable (test : K → V → Bool) {m : ExtTreeMap K V} {k : K}

theorem countWhere_insert_fresh (v : V) (absent : m[k]? = none) :
    countWhere test (m.insert k v) = (if test k v then 1 else 0) + countWhere test m := by
  rw [countWhere_eq_sumOver, countWhere_eq_sumOver, sumOver_insert_fresh _ absent]

theorem countWhere_replace (found : m[k]? = some old) (new : V) :
    countWhere test (m.insert k new) + (if test k old then 1 else 0) =
      countWhere test m + (if test k new then 1 else 0) := by
  rw [countWhere_eq_sumOver, countWhere_eq_sumOver, sumOver_replace _ found]

theorem countWhere_map (same : ∀ k v, test k (f k v) = test k v) :
    countWhere test (m.map f) = countWhere test m := by
  rw [countWhere_eq_sumOver, countWhere_eq_sumOver, sumOver_map]
  simp only [same]

end

end OrderedMap
