import InterWeave.Lib.OrderedMap

/-!
Tables whose row ids are drawn from a counter that only grows: the id of a row that is gone is
not given to another one.
-/

open Std (ExtTreeMap) in
structure AutoTable (α : Type) where
  rows : ExtTreeMap Nat α
  /-- The largest id that was ever drawn. -/
  seq : Nat
  bounded : ∀ id ∈ rows, id ≤ seq

namespace AutoTable

open Std (ExtTreeMap)

variable {α : Type}

variable (ids : List Nat)

def empty : AutoTable α :=
  ⟨∅, 0, fun _ held => absurd held ExtTreeMap.not_mem_empty⟩

def insert (table : AutoTable α) (row : α) : AutoTable α where
  rows := table.rows.insert (table.seq + 1) row
  seq := table.seq + 1
  bounded := by
    intro id held
    rcases (OrderedMap.mem_insert _ _ _ _).mp held with rfl | held
    · exact Nat.le_refl _
    · exact (table.bounded id held).trans (Nat.le_succ _)

variable (table : AutoTable α) (id : Nat)

def skip : AutoTable α where
  rows := table.rows
  seq := table.seq + 1
  bounded := fun id held => (table.bounded id held).trans (Nat.le_succ _)

def erase (table : AutoTable α) (id : Nat) : AutoTable α where
  rows := table.rows.erase id
  seq := table.seq
  bounded := fun other held => table.bounded other ((OrderedMap.mem_erase _ _ _).mp held).2

def change (update : α → α) : AutoTable α where
  rows := match table.rows[id]? with
    | some row => table.rows.insert id (update row)
    | none => table.rows
  seq := table.seq
  bounded := by
    intro other held
    cases found : table.rows[id]? with
    | none =>
      rw [found] at held
      exact table.bounded other held
    | some row =>
      rw [found] at held
      rcases (OrderedMap.mem_insert _ _ _ _).mp held with rfl | held
      · exact table.bounded _ ((OrderedMap.mem_iff_get _ _).mpr ⟨row, found⟩)
      · exact table.bounded other held

def eraseAll (ids : List Nat) : AutoTable α :=
  ids.foldl erase table

def find (table : AutoTable α) (test : α → Bool) : Option (Nat × α) :=
  table.rows.toList.find? fun entry => test entry.2

theorem find_some {table : AutoTable α} {test : α → Bool} {id : Nat} {row : α}
    (found : table.find test = some (id, row)) :
    table.rows[id]? = some row ∧ test row = true := by
  refine ⟨ExtTreeMap.mem_toList_iff_getElem?_eq_some.mp (List.mem_of_find?_eq_some found), ?_⟩
  unfold find at found
  simpa using List.find?_some found

theorem find_none {table : AutoTable α} {test : α → Bool} (absent : table.find test = none)
    {id : Nat} {row : α} (held : table.rows[id]? = some row) : test row = false := by
  have fails := List.find?_eq_none.mp absent (id, row)
    (ExtTreeMap.mem_toList_iff_getElem?_eq_some.mpr held)
  simpa using fails

theorem get_insert (row : α) (id : Nat) :
    (table.insert row).rows[id]? = if table.seq + 1 = id then some row else table.rows[id]? :=
  OrderedMap.get_insert _ _ _ _

theorem get_erase (gone id : Nat) :
    (table.erase gone).rows[id]? = if gone = id then none else table.rows[id]? :=
  OrderedMap.get_erase _ _ _

theorem get_change {id : Nat} {row : α} (held : table.rows[id]? = some row) (update : α → α)
    (other : Nat) :
    (table.change id update).rows[other]? =
      if id = other then some (update row) else table.rows[other]? := by
  simp only [change, held]
  exact OrderedMap.get_insert _ _ _ _

theorem get_next : table.rows[table.seq + 1]? = none := by
  refine (OrderedMap.notMem_iff_get _ _).mp fun held => ?_
  have bound := table.bounded _ held
  omega

theorem get_eraseAll :
    (table.eraseAll ids).rows[id]? = if id ∈ ids then none else table.rows[id]? := by
  induction ids generalizing table with
  | nil => simp [eraseAll]
  | cons gone rest ih =>
    have step := ih (table.erase gone)
    rw [get_erase] at step
    refine step.trans ?_
    by_cases later : id ∈ rest
    · simp [later]
    · by_cases now : gone = id
      · simp [now]
      · simp [later, now, Ne.symm now]

theorem seq_eraseAll : (table.eraseAll ids).seq = table.seq := by
  induction ids generalizing table with
  | nil => rfl
  | cons gone rest ih => exact ih (table.erase gone)

/-- Rows that are fewer than all, taken from the oldest on, do not include the one under the last
id that was drawn. -/
theorem seq_notMem_take {table : AutoTable α} {count : Nat} (few : count < table.rows.size) :
    table.seq ∉ table.rows.keys.take count := by
  intro taken
  have left : table.rows.keys.drop count ≠ [] := by
    rw [Ne, List.drop_eq_nil_iff, ExtTreeMap.length_keys]
    omega
  obtain ⟨later, following⟩ := List.exists_mem_of_ne_nil _ left
  have sorted := ExtTreeMap.ordered_keys (t := table.rows)
  rw [← List.take_append_drop count table.rows.keys, List.pairwise_append] at sorted
  have above := compare_lt_iff_lt.mp (sorted.2.2 table.seq taken later following)
  have below := table.bounded later (ExtTreeMap.mem_keys.mp (List.mem_of_mem_drop following))
  omega

structure Grows (before after : AutoTable α) : Prop where
  seq : before.seq ≤ after.seq
  fresh : ∀ id ∈ after.rows, id ∉ before.rows → before.seq < id

def issued (before after : AutoTable α) : List Nat :=
  after.rows.keys.filter (· ∉ before.rows)

theorem Grows.refl (table : AutoTable α) : Grows table table :=
  ⟨Nat.le_refl _, fun _ held absent => absurd held absent⟩

theorem Grows.trans {first second third : AutoTable α} (step : Grows first second)
    (next : Grows second third) : Grows first third where
  seq := step.seq.trans next.seq
  fresh := by
    intro id held absent
    by_cases between : id ∈ second.rows
    · exact step.fresh id between absent
    · exact step.seq.trans_lt (next.fresh id held between)

theorem grows_insert (row : α) : Grows table (table.insert row) where
  seq := Nat.le_succ _
  fresh := by
    intro id held absent
    rcases (OrderedMap.mem_insert _ _ _ _).mp held with rfl | held
    · exact Nat.lt_succ_self _
    · exact absurd held absent

theorem grows_skip : Grows table table.skip :=
  ⟨Nat.le_succ _, fun _ held absent => absurd held absent⟩

theorem grows_erase : Grows table (table.erase id) :=
  ⟨Nat.le_refl _, fun _ held absent => absurd ((OrderedMap.mem_erase _ _ _).mp held).2 absent⟩

theorem grows_change (update : α → α) :
    Grows table (table.change id update) where
  seq := Nat.le_refl _
  fresh := by
    intro other held absent
    refine absurd ?_ absent
    cases found : table.rows[id]? with
    | none => simpa only [change, found] using held
    | some row =>
      have kept : other ∈ table.rows.insert id (update row) := by
        simpa only [change, found] using held
      rcases (OrderedMap.mem_insert _ _ _ _).mp kept with rfl | kept
      · exact (OrderedMap.mem_iff_get _ _).mpr ⟨row, found⟩
      · exact kept

theorem grows_eraseAll : Grows table (table.eraseAll ids) := by
  induction ids generalizing table with
  | nil => exact Grows.refl table
  | cons gone rest ih => exact (grows_erase table gone).trans (ih _)

theorem mem_issued {before after : AutoTable α} {id : Nat} :
    id ∈ issued before after ↔ id ∈ after.rows ∧ id ∉ before.rows := by
  simp [issued, ExtTreeMap.mem_keys]

structure Issues (first : AutoTable α) (log : List Nat) (now : AutoTable α) : Prop where
  seq : first.seq ≤ now.seq
  nodup : log.Nodup
  bounds : ∀ id ∈ log, first.seq < id ∧ id ≤ now.seq

theorem Issues.start (table : AutoTable α) : Issues table [] table :=
  ⟨Nat.le_refl _, List.nodup_nil, nofun⟩

theorem Issues.step {first now after : AutoTable α} {log : List Nat}
    (issues : Issues first log now) (grows : Grows now after) :
    Issues first (log ++ issued now after) after where
  seq := issues.seq.trans grows.seq
  nodup := by
    refine List.Nodup.append issues.nodup (ExtTreeMap.nodup_keys.filter _) ?_
    intro id old new
    obtain ⟨held, absent⟩ := mem_issued.mp new
    have above := grows.fresh id held absent
    have below := (issues.bounds id old).2
    omega
  bounds := by
    intro id listed
    rcases List.mem_append.mp listed with old | new
    · exact ⟨(issues.bounds id old).1, (issues.bounds id old).2.trans grows.seq⟩
    · obtain ⟨held, absent⟩ := mem_issued.mp new
      exact ⟨issues.seq.trans_lt (grows.fresh id held absent), after.bounded id held⟩

end AutoTable
