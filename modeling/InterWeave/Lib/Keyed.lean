import InterWeave.Lib.OrderedMap

/-!
Lists made from the entries of a map, one item for an entry at most, when every item shows the
key it was made from: what such a list holds for one key.
-/

namespace Keyed

open Std (ExtTreeMap)

variable {K V I : Type} [LinearOrder K] {make : K → V → Option I} {keyOf : I → Option K}

theorem filter_eq_nil (owns : ∀ k v item, make k v = some item → keyOf item = some k)
    {m : ExtTreeMap K V} (absent : m[k]? = none) :
    (m.toList.filterMap fun entry => make entry.1 entry.2).filter
      (fun item => keyOf item = some k) = [] := by
  refine List.filter_eq_nil_iff.mpr fun item member same => ?_
  obtain ⟨⟨other, value⟩, listed, made⟩ := List.mem_filterMap.mp member
  have found := ExtTreeMap.mem_toList_iff_getElem?_eq_some.mp listed
  have equal : other = k :=
    Option.some.inj ((owns other value item made).symm.trans (of_decide_eq_true same))
  rw [equal, absent] at found
  cases found

theorem filter_eq (owns : ∀ k v item, make k v = some item → keyOf item = some k)
    (m : ExtTreeMap K V) (k : K) :
    (m.toList.filterMap fun entry => make entry.1 entry.2).filter
      (fun item => keyOf item = some k) = (m[k]?.bind (make k)).toList := by
  cases found : m[k]? with
  | none => exact filter_eq_nil owns found
  | some value =>
    have others := filter_eq_nil owns (m := m.erase k) (k := k) (by simp)
    have split := ((OrderedMap.toList_perm_erase found).filterMap
      fun entry => make entry.1 entry.2).filter fun item => decide (keyOf item = some k)
    rw [List.filterMap_cons] at split
    cases made : make k value with
    | none =>
      simp only [made, others] at split
      simpa [made] using split
    | some item =>
      have own : decide (keyOf item = some k) = true := decide_eq_true (owns k value item made)
      simp only [made, List.filter_cons, own, others, ↓reduceIte] at split
      simpa [made] using split

end Keyed
