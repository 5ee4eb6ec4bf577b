import Mathlib

/-!
Facts about `Std.ExtTreeMap` over linearly ordered keys: how the ordered listing
changes under insertion and removal, and sums over the entries.
-/

namespace OrderedMap

open Std (ExtTreeMap)

variable {K V : Type} [LinearOrder K]

instance transCmp : Std.TransCmp (compare : K → K → Ordering) := inferInstance

instance isTransLe : IsTrans K (· ≤ ·) := inferInstance

instance antisymmLe : Std.Antisymm (fun a b : K => a ≤ b) := inferInstance

variable (m : ExtTreeMap K V) (k : K) (v : V)

theorem toList_nodup : m.toList.Nodup := by
  refine List.Pairwise.imp ?_ m.distinct_keys_toList
  rintro first second distinct rfl
  exact distinct Std.ReflCmp.compare_self

@[grind =] theorem get_insert (m : ExtTreeMap K V) (k a : K) (v : V) :
    (m.insert k v)[a]? = if k = a then some v else m[a]? := by
  simp [ExtTreeMap.getElem?_insert]

@[grind =] theorem get_erase (m : ExtTreeMap K V) (k a : K) :
    (m.erase k)[a]? = if k = a then none else m[a]? := by
  simp [ExtTreeMap.getElem?_erase]

theorem mem_iff_get : k ∈ m ↔ ∃ v, m[k]? = some v := by
  rw [ExtTreeMap.mem_iff_isSome_getElem?, Option.isSome_iff_exists]

theorem notMem_iff_get : k ∉ m ↔ m[k]? = none := by
  rw [ExtTreeMap.mem_iff_isSome_getElem?]
  simp

@[grind =] theorem mem_insert (m : ExtTreeMap K V) (k a : K) (v : V) :
    a ∈ m.insert k v ↔ a = k ∨ a ∈ m := by
  rw [ExtTreeMap.mem_insert, Std.LawfulEqCmp.compare_eq_iff_eq, eq_comm]

@[grind =] theorem mem_erase (m : ExtTreeMap K V) (k a : K) : a ∈ m.erase k ↔ a ≠ k ∧ a ∈ m := by
  rw [ExtTreeMap.mem_erase, Ne, Std.LawfulEqCmp.compare_eq_iff_eq, ne_comm]

theorem isEmpty_eq_false_iff_exists : m.isEmpty = false ↔ ∃ k, k ∈ m := by
  rw [← ExtTreeMap.isEmpty_keys, List.isEmpty_eq_false_iff_exists_mem]
  simp

theorem size_erase_lt {m : ExtTreeMap K V} {k : K} (present : k ∈ m) :
    (m.erase k).size < m.size := by
  have nonempty : m.size ≠ 0 := by
    intro empty
    rw [ExtTreeMap.eq_empty_iff_size_eq_zero.mpr empty] at present
    simp at present
  rw [ExtTreeMap.size_erase, if_pos (ExtTreeMap.contains_iff_mem.mpr present)]
  omega

theorem toList_insert_perm :
    (m.insert k v).toList.Perm ((k, v) :: (m.erase k).toList) := by
  have fresh : (k, v) ∉ (m.erase k).toList := by
    simp [ExtTreeMap.mem_toList_iff_getElem?_eq_some]
  rw [List.perm_ext_iff_of_nodup (toList_nodup _) (List.nodup_cons.mpr ⟨fresh, toList_nodup _⟩)]
  rintro ⟨a, b⟩
  simp only [ExtTreeMap.mem_toList_iff_getElem?_eq_some, List.mem_cons, get_insert, get_erase]
  by_cases same : k = a <;> simp [same, eq_comm]

theorem insert_erase_of_get {m : ExtTreeMap K V} {k : K} {v : V} (found : m[k]? = some v) :
    (m.erase k).insert k v = m := by
  apply ExtTreeMap.ext_getElem?
  intro a
  rw [get_insert, get_erase]
  split
  next same => rw [← same, found]
  · rfl

theorem insert_of_get {m : ExtTreeMap K V} {k : K} {v : V} (found : m[k]? = some v) :
    m.insert k v = m := by
  apply ExtTreeMap.ext_getElem?
  intro a
  rw [get_insert]
  split
  next same => rw [← same, found]
  · rfl

theorem erase_erase : (m.erase k).erase k = m.erase k := by
  apply ExtTreeMap.ext_getElem?
  intro a
  simp only [get_erase]
  split <;> rfl

theorem erase_insert : (m.insert k v).erase k = m.erase k := by
  apply ExtTreeMap.ext_getElem?
  intro a
  simp only [get_erase, get_insert]
  split <;> rfl

theorem erase_of_get_none {m : ExtTreeMap K V} {k : K} (absent : m[k]? = none) :
    m.erase k = m := by
  apply ExtTreeMap.ext_getElem?
  intro a
  rw [get_erase]
  split
  next same => rw [← same, absent]
  · rfl

theorem insert_insert (w : V) :
    (m.insert k v).insert k w = m.insert k w := by
  apply ExtTreeMap.ext_getElem?
  intro a
  simp only [get_insert]
  split <;> rfl

theorem toList_perm_erase {m : ExtTreeMap K V} {k : K} {v : V} (found : m[k]? = some v) :
    m.toList.Perm ((k, v) :: (m.erase k).toList) := by
  have split := toList_insert_perm (m.erase k) k v
  rwa [insert_erase_of_get found, erase_erase] at split

theorem get_foldl_erase (keys : List K) (m : ExtTreeMap K V) (a : K) :
    (keys.foldl ExtTreeMap.erase m)[a]? = if a ∈ keys then none else m[a]? := by
  induction keys generalizing m with
  | nil => simp
  | cons k rest ih =>
    rw [List.foldl_cons, ih, get_erase]
    by_cases here : k = a
    · simp [here]
    · simp [here, Ne.symm here]

def total (weight : K → V → Nat) (m : ExtTreeMap K V) : Nat :=
  (m.toList.map fun entry => weight entry.1 entry.2).sum

section

variable (weight : K → V → Nat)

@[simp]
theorem total_empty : total weight (∅ : ExtTreeMap K V) = 0 := by
  have listing : (∅ : ExtTreeMap K V).toList = [] := ExtTreeMap.toList_eq_nil_iff.mpr rfl
  simp [total, listing]

theorem total_insert (m : ExtTreeMap K V) (k : K) (v : V) :
    total weight (m.insert k v) = weight k v + total weight (m.erase k) := by
  unfold total
  rw [((toList_insert_perm m k v).map _).sum_nat, List.map_cons, List.sum_cons]

theorem total_of_get {m : ExtTreeMap K V} {k : K} {v : V} (found : m[k]? = some v) :
    total weight m = weight k v + total weight (m.erase k) := by
  unfold total
  rw [((toList_perm_erase found).map _).sum_nat, List.map_cons, List.sum_cons]

theorem total_insert_fresh {m : ExtTreeMap K V} {k : K} (v : V) (absent : m[k]? = none) :
    total weight (m.insert k v) = weight k v + total weight m := by
  rw [total_insert, erase_of_get_none absent]

theorem total_replace {m : ExtTreeMap K V} {k : K} {old new : V} (found : m[k]? = some old)
    (same : weight k new = weight k old) : total weight (m.insert k new) = total weight m := by
  rw [total_insert, total_of_get weight found, same]

end

def countWhere (test : K → V → Bool) (m : ExtTreeMap K V) : Nat :=
  (m.toList.filter fun entry => test entry.1 entry.2).length

def keysWhere (test : K → V → Bool) (m : ExtTreeMap K V) : List K :=
  (m.toList.filter fun entry => test entry.1 entry.2).map Prod.fst

section

variable {W : Type} {test : K → V → Bool} {other : K → W → Bool} {m : ExtTreeMap K V}
  {n : ExtTreeMap K W}

theorem length_keysWhere : (keysWhere test m).length = countWhere test m := by
  simp [keysWhere, countWhere]

theorem nodup_keysWhere : (keysWhere test m).Nodup := by
  have distinct : (m.toList.map Prod.fst).Nodup := by
    rw [ExtTreeMap.map_fst_toList_eq_keys]
    exact ExtTreeMap.nodup_keys
  exact distinct.sublist (List.filter_sublist.map Prod.fst)

theorem mem_keysWhere {k : K} :
    k ∈ keysWhere test m ↔ ∃ v, m[k]? = some v ∧ test k v = true := by
  simp only [keysWhere, List.mem_map, List.mem_filter, Prod.exists]
  constructor
  · rintro ⟨a, v, ⟨member, passes⟩, rfl⟩
    exact ⟨v, ExtTreeMap.mem_toList_iff_getElem?_eq_some.mp member, passes⟩
  · rintro ⟨v, found, passes⟩
    exact ⟨k, v, ⟨ExtTreeMap.mem_toList_iff_getElem?_eq_some.mpr found, passes⟩, rfl⟩

theorem countWhere_le (sub : ∀ k v, m[k]? = some v → test k v = true →
    ∃ w, n[k]? = some w ∧ other k w = true) : countWhere test m ≤ countWhere other n := by
  rw [← length_keysWhere, ← length_keysWhere]
  apply (nodup_keysWhere.subperm ?_).length_le
  intro k member
  obtain ⟨v, found, passes⟩ := mem_keysWhere.mp member
  exact mem_keysWhere.mpr (sub k v found passes)

theorem countWhere_le_succ (exempt : K) (sub : ∀ k v, k ≠ exempt → m[k]? = some v →
    test k v = true → ∃ w, n[k]? = some w ∧ other k w = true) :
    countWhere test m ≤ countWhere other n + 1 := by
  rw [← length_keysWhere, ← length_keysWhere]
  have within : keysWhere test m ⊆ exempt :: keysWhere other n := by
    intro k member
    obtain ⟨v, found, passes⟩ := mem_keysWhere.mp member
    by_cases same : k = exempt
    · exact List.mem_cons.mpr (.inl same)
    · exact List.mem_cons_of_mem _ (mem_keysWhere.mpr (sub k v same found passes))
  exact (nodup_keysWhere.subperm within).length_le

theorem countWhere_lt (extra : K) (counted : ∃ w, n[extra]? = some w ∧ other extra w = true)
    (sub : ∀ k v, m[k]? = some v → test k v = true →
      k ≠ extra ∧ ∃ w, n[k]? = some w ∧ other k w = true) :
    countWhere test m < countWhere other n := by
  rw [← length_keysWhere, ← length_keysWhere]
  have fresh : extra ∉ keysWhere test m := by
    intro member
    obtain ⟨v, found, passes⟩ := mem_keysWhere.mp member
    exact (sub extra v found passes).1 rfl
  have within : extra :: keysWhere test m ⊆ keysWhere other n := by
    intro k member
    rcases List.mem_cons.mp member with rfl | later
    · exact mem_keysWhere.mpr counted
    · obtain ⟨v, found, passes⟩ := mem_keysWhere.mp later
      exact mem_keysWhere.mpr (sub k v found passes).2
  have bound := ((List.nodup_cons.mpr ⟨fresh, nodup_keysWhere⟩).subperm within).length_le
  simpa using bound

end

end OrderedMap
