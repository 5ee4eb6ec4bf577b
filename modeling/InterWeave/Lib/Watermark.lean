import InterWeave.Lib.OrderedMap

/-!
Tables of forward-only marks with a bound on their size. A table that is full drops a
victim of the caller's choice before it takes a new key, so marks can be lost; as long as
all keys ever raised fit into the bound, none is.
-/

namespace Watermark

open Std (ExtTreeMap)
open OrderedMap

variable {K : Type} [LinearOrder K]

variable (table : ExtTreeMap K Nat) (key : K)

def mark : Nat :=
  table[key]?.getD 0

def lift (value : Nat) : ExtTreeMap K Nat :=
  table.insert key (max (mark table key) value)

def makeRoom (bound : Nat) (victim : ExtTreeMap K Nat → Option K) (table : ExtTreeMap K Nat)
    (key : K) : ExtTreeMap K Nat :=
  if bound ≤ table.size ∧ key ∉ table then
    match victim table with
    | some dropped => table.erase dropped
    | none => table
  else
    table

def raise (bound : Nat) (victim : ExtTreeMap K Nat → Option K) (table : ExtTreeMap K Nat)
    (key : K) (value : Nat) : ExtTreeMap K Nat :=
  lift (makeRoom bound victim table key) key value

section

variable {table : ExtTreeMap K Nat} {key other : K} {value : Nat}

@[simp]
theorem mark_empty : mark (∅ : ExtTreeMap K Nat) key = 0 := by
  simp [mark]

theorem mark_of_get (found : table[key]? = some value) : mark table key = value := by
  simp [mark, found]

theorem mark_lift :
    mark (lift table key value) other =
      if key = other then max (mark table key) value else mark table other := by
  unfold lift
  generalize max (mark table key) value = lifted
  by_cases same : key = other <;> simp [mark, get_insert, same]

theorem mark_le_lift : mark table other ≤ mark (lift table key value) other := by
  rw [mark_lift]
  split
  next same => exact same ▸ le_max_left _ _
  · exact le_rfl

theorem le_mark_lift : value ≤ mark (lift table key value) key := by
  rw [mark_lift, if_pos rfl]
  exact le_max_right _ _

theorem mem_lift : other ∈ lift table key value ↔ other = key ∨ other ∈ table :=
  mem_insert _ _ _ _

end

def Within (table : ExtTreeMap K Nat) (keys : Finset K) : Prop :=
  ∀ key ∈ table, key ∈ keys

section

variable {bound : Nat} {victim : ExtTreeMap K Nat → Option K} {table : ExtTreeMap K Nat}
  {keys : Finset K} {key : K} {value : Nat}

theorem within_empty : Within (∅ : ExtTreeMap K Nat) keys := by
  intro key member
  simp at member

section

variable (inside : Within table keys)

include inside

theorem Within.mono (grows : keys ⊆ more) : Within table more :=
  fun key member => grows (inside key member)

theorem Within.lift (named : key ∈ keys) : Within (Watermark.lift table key value) keys := by
  intro other member
  rcases mem_lift.mp member with rfl | held
  · exact named
  · exact inside other held

theorem Within.size_le : table.size ≤ keys.card := by
  rw [← ExtTreeMap.length_keys, ← List.toFinset_card_of_nodup ExtTreeMap.nodup_keys]
  apply Finset.card_le_card
  intro key member
  exact inside key (ExtTreeMap.mem_keys.mp (List.mem_toFinset.mp member))

theorem Within.size_lt (named : key ∈ keys) (fresh : key ∉ table) : table.size < keys.card := by
  have smaller : Within table (keys.erase key) := by
    intro other member
    refine Finset.mem_erase.mpr ⟨?_, inside other member⟩
    rintro rfl
    exact fresh member
  have bounded := smaller.size_le
  rw [Finset.card_erase_of_mem named] at bounded
  have positive := Finset.card_pos.mpr ⟨key, named⟩
  omega

theorem raise_eq_lift (named : key ∈ keys) (fits : keys.card ≤ bound) :
    raise bound victim table key value = lift table key value := by
  have room : ¬(bound ≤ table.size ∧ key ∉ table) := by
    rintro ⟨full, fresh⟩
    have := inside.size_lt named fresh
    omega
  rw [raise, makeRoom, if_neg room]

end

def Picks (victim : ExtTreeMap K Nat → Option K) : Prop :=
  ∀ table, 0 < table.size → ∃ key ∈ table, victim table = some key

theorem size_raise_le (picks : Picks victim) (positive : 0 < bound)
    (bounded : table.size ≤ bound) : (raise bound victim table key value).size ≤ bound := by
  have room : key ∈ makeRoom bound victim table key ∧
        (makeRoom bound victim table key).size ≤ bound ∨
      (makeRoom bound victim table key).size < bound := by
    unfold makeRoom
    split
    next full =>
      obtain ⟨dropped, held, chosen⟩ := picks table (positive.trans_le full.1)
      rw [chosen]
      exact .inr ((size_erase_lt held).trans_le bounded)
    next space =>
      by_cases held : key ∈ table
      · exact .inl ⟨held, bounded⟩
      · exact .inr (not_le.mp fun full => space ⟨full, held⟩)
  rw [raise, lift, ExtTreeMap.size_insert]
  split
  · exact room.elim And.right le_of_lt
  next fresh =>
    rcases room with ⟨held, -⟩ | short
    · exact absurd held fresh
    · exact short

end

def pour {L : Type} (name : L → K) (marks : List (L × Nat)) (table : ExtTreeMap K Nat) :
    ExtTreeMap K Nat :=
  marks.foldl (fun table item => lift table (name item.1) item.2) table

section

variable {L : Type} {name : L → K} {marks : List (L × Nat)}
  {table : ExtTreeMap K Nat} {keys : Finset K} {key : K}

theorem Within.pour (inside : Within table keys) (named : ∀ item ∈ marks, name item.1 ∈ keys) :
    Within (Watermark.pour name marks table) keys :=
  List.foldlRecOn marks (motive := (Within · keys)) _ inside
    fun _ inside item listed => inside.lift (named item listed)

theorem mark_pour_of_unnamed (unnamed : ∀ item ∈ marks, name item.1 ≠ key) :
    mark (Watermark.pour name marks table) key = mark table key :=
  List.foldlRecOn marks (motive := (mark · key = mark table key)) _ rfl
    fun _ same item listed => by rw [mark_lift, if_neg (unnamed item listed), same]

theorem mark_pour_of_named (distinct : (marks.map Prod.fst).Nodup)
    (injective : Function.Injective name) (named : (label, value) ∈ marks) :
    mark (Watermark.pour name marks table) (name label) = max (mark table (name label)) value := by
  induction marks generalizing table with
  | nil => cases named
  | cons item rest ih =>
    rw [List.map_cons, List.nodup_cons] at distinct
    rw [Watermark.pour, List.foldl_cons]
    rcases List.mem_cons.mp named with rfl | later
    · have others : ∀ item ∈ rest, name item.1 ≠ name label := by
        intro other member same
        exact distinct.1 (List.mem_map.mpr ⟨other, member, injective same⟩)
      exact (mark_pour_of_unnamed others).trans (by rw [mark_lift, if_pos rfl])
    · have differs : name item.1 ≠ name label := by
        intro same
        apply distinct.1
        rw [injective same]
        exact List.mem_map_of_mem later
      exact (ih distinct.2 later).trans (by rw [mark_lift, if_neg differs])

theorem mark_pour_toList [LinearOrder L] (source : ExtTreeMap L Nat)
    (injective : Function.Injective name) (label : L) :
    mark (Watermark.pour name source.toList table) (name label) =
      max (mark table (name label)) (mark source label) := by
  rcases found : source[label]? with _ | value
  · have unnamed : ∀ item ∈ source.toList, name item.1 ≠ name label := by
      rintro ⟨other, value⟩ member same
      obtain rfl := injective same
      rw [ExtTreeMap.mem_toList_iff_getElem?_eq_some, found] at member
      cases member
    rw [mark_pour_of_unnamed unnamed]
    simp [mark, found]
  · rw [mark_of_get found]
    apply mark_pour_of_named ?_ injective
    · exact ExtTreeMap.mem_toList_iff_getElem?_eq_some.mpr found
    · rw [ExtTreeMap.map_fst_toList_eq_keys]
      exact ExtTreeMap.nodup_keys

end

theorem foldl_raise_eq_pour {L : Type} {name : L → K} {marks : List (L × Nat)}
    {table : ExtTreeMap K Nat} (inside : Within table keys)
    (named : ∀ item ∈ marks, name item.1 ∈ keys) (fits : keys.card ≤ bound) :
    marks.foldl (fun table item => raise bound victim table (name item.1) item.2) table =
      pour name marks table := by
  induction marks generalizing table with
  | nil => rfl
  | cons item rest ih =>
    have here := named item List.mem_cons_self
    rw [List.foldl_cons, raise_eq_lift inside here fits, ih (inside.lift here)]
    · rfl
    · exact fun later member => named later (List.mem_cons_of_mem _ member)

end Watermark
