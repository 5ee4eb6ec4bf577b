import InterWeave.Lib.SqlCore

/-!
Copying the rows of a table into one with a wider key loses none of them, and ids drawn from the
sequence only grow.
-/

namespace Sql

open Std (ExtTreeMap)
open OrderedMap

theorem get_select :
    get (select columns blob cells) name =
      match columns.lookup name with
      | some expr => expr.eval blob cells
      | none => .null := by
  induction columns with
  | nil => rfl
  | cons column later ih =>
    obtain ⟨first, expr⟩ := column
    by_cases same : name = first
    · simp [get, select, same]
    · have other : (name == first) = false := by simpa using same
      simpa [get, select, List.lookup_cons, other] using ih

theorem lookup_cons {α : Type} {first : String} {value : α} (later : List (String × α))
    {name : String} :
    ((first, value) :: later).lookup name =
      if name = first then some value else later.lookup name := by
  rw [List.lookup_cons]
  by_cases same : name = first
  · simp [same]
  · have other : (name == first) = false := by simpa using same
    rw [other, if_neg same]

theorem mem_of_lookup {α : Type} {entries : List (String × α)} {value : α}
    (found : entries.lookup name = some value) : (name, value) ∈ entries := by
  obtain ⟨before, after, same, -⟩ := List.lookup_eq_some_iff.mp found
  exact same ▸ by simp

theorem get_select_of_lookup (listed : columns.lookup name = some expr) :
    get (select columns blob cells) name = expr.eval blob cells := by
  rw [get_select, listed]

namespace Shape

theorem clash_eq_false {shape : Shape} :
    shape.clash first second = false ↔ ∀ names ∈ shape.unique,
      shape.key first names = shape.key second names → .null ∈ shape.key first names := by
  simp [clash, List.any_eq_false]

theorem clash_comm {shape : Shape} : shape.clash first second = shape.clash second first := by
  rw [Bool.eq_iff_iff]
  simp only [clash, List.any_eq_true, Bool.and_eq_true, beq_iff_eq]
  refine exists_congr fun names => and_congr_right fun _ => ?_
  constructor
  · rintro ⟨same, free⟩
    exact ⟨same.symm, same ▸ free⟩
  · rintro ⟨same, free⟩
    exact ⟨same.symm, same ▸ free⟩

end Shape

structure Table.Valid (table : Table) : Prop where
  accepted : ∀ (id : Nat) cells, table.rows[id]? = some cells → table.shape.accepts cells = true
  apart : ∀ (id other : Nat) cells next, table.rows[id]? = some cells →
    table.rows[other]? = some next → id ≠ other → table.shape.clash cells next = false

namespace Table

theorem takes_iff {table : Table} {id : Nat} :
    table.takes id cells = true ↔ table.shape.accepts cells = true ∧ id ∉ table.rows ∧
      ∀ (other : Nat) next, table.rows[other]? = some next →
        table.shape.clash next cells = false := by
  simp only [takes, Bool.and_eq_true, Bool.not_eq_true', ← Bool.not_eq_true,
    ExtTreeMap.contains_iff_mem, List.any_eq_true, Prod.exists, and_assoc]
  refine and_congr_right fun _ => and_congr_right fun _ => ?_
  constructor
  · intro free other next held clashes
    exact free ⟨other, next, ExtTreeMap.mem_toList_iff_getElem?_eq_some.mpr held, clashes⟩
  · rintro free ⟨other, next, listed, clashes⟩
    exact free other next (ExtTreeMap.mem_toList_iff_getElem?_eq_some.mp listed) clashes

theorem get_put (table : Table) (id : Nat) (cells : Cells) (other : Nat) :
    (table.put id cells).rows[other]? = if id = other then some cells else table.rows[other]? :=
  get_insert _ _ _ _

theorem valid_empty {shape : Shape} : Table.Valid ⟨shape, ∅⟩ :=
  ⟨fun id cells held => by simp at held, fun id other cells next held => by simp at held⟩

theorem Valid.put {table : Table} (valid : table.Valid) {id : Nat}
    (taken : table.takes id cells = true) : (table.put id cells).Valid where
  accepted := by
    intro other next held
    rw [get_put] at held
    split at held
    · cases held
      exact (takes_iff.mp taken).1
    · exact valid.accepted other next held
  apart := by
    obtain ⟨-, -, free⟩ := takes_iff.mp taken
    intro first second cells next held also different
    rw [get_put] at held also
    split at held <;> split at also
    next one two => exact absurd (one.symm.trans two) different
    · cases held
      exact Shape.clash_comm.trans (free second next also)
    · cases also
      exact free first cells held
    · exact valid.apart first second cells next held also different

theorem Valid.erase {table : Table} (valid : table.Valid) (gone : Nat) :
    Table.Valid { table with rows := table.rows.erase gone } := by
  have kept : ∀ (id : Nat) cells, (table.rows.erase gone)[id]? = some cells →
      table.rows[id]? = some cells := by
    intro id cells held
    rw [get_erase] at held
    split at held
    · cases held
    · exact held
  exact ⟨fun id cells held => valid.accepted id cells (kept id cells held),
    fun id other cells next held also => valid.apart id other cells next (kept id cells held)
      (kept other next also)⟩

theorem le_maxId {table : Table} {id : Nat} (held : id ∈ table.rows) : id ≤ table.maxId := by
  have listed := ExtTreeMap.mem_keys.mpr held
  unfold maxId
  generalize table.rows.keys = ids at listed ⊢
  induction ids with
  | nil => cases listed
  | cons first later ih =>
    rcases List.mem_cons.mp listed with rfl | listed
    · exact le_max_left _ _
    · exact (ih listed).trans (le_max_right _ _)

theorem maxId_le {table : Table} (below : ∀ id ∈ table.rows, id ≤ bound) : table.maxId ≤ bound := by
  have listed : ∀ id ∈ table.rows.keys, id ≤ bound := fun id held =>
    below id (ExtTreeMap.mem_keys.mp held)
  unfold maxId
  generalize table.rows.keys = ids at listed ⊢
  induction ids with
  | nil => exact Nat.zero_le _
  | cons first later ih =>
    exact max_le (listed first List.mem_cons_self)
      (ih fun id held => listed id (List.mem_cons_of_mem _ held))

end Table

structure Copied (columns : List (String × Expr)) (blobs : Nat → List UInt8)
    (rows : List (Nat × Cells)) (before after : Table) : Prop where
  shape : after.shape = before.shape
  copied : ∀ entry ∈ rows, after.rows[entry.1]? = some (select columns (blobs entry.1) entry.2)
  rest : ∀ id, id ∉ rows.map Prod.fst → after.rows[id]? = before.rows[id]?

section

variable {columns : List (String × Expr)} {blobs : Nat → List UInt8}

theorem Copied.cons {id : Nat} {cells : Cells} {later : List (Nat × Cells)} {table after : Table}
    (distinct : (((id, cells) :: later).map Prod.fst).Nodup)
    (copied : Copied columns blobs later (table.put id (select columns (blobs id) cells)) after) :
    Copied columns blobs ((id, cells) :: later) table after where
  shape := copied.shape
  copied := by
    intro entry listed
    rcases List.mem_cons.mp listed with rfl | listed
    · rw [copied.rest id (List.nodup_cons.mp distinct).1, Table.get_put, if_pos rfl]
    · exact copied.copied entry listed
  rest := by
    intro other absent
    rw [List.map_cons, List.mem_cons, not_or] at absent
    rw [copied.rest other absent.2, Table.get_put, if_neg (Ne.symm absent.1)]

theorem copyRows_valid (valid : table.Valid)
    (done : copyRows conflict columns blobs rows table = some after) : after.Valid := by
  induction rows generalizing table with
  | nil =>
    cases done
    exact valid
  | cons entry later ih =>
    obtain ⟨id, cells⟩ := entry
    obtain ⟨middle, inserted, rest⟩ := Option.bind_eq_some_iff.mp done
    unfold Table.insertOr at inserted
    split at inserted
    next taken =>
      cases inserted
      exact ih (valid.put taken) rest
    · split at inserted
      · cases inserted
      · cases inserted
        exact ih valid rest

theorem copyRows_abort {rows : List (Nat × Cells)} (distinct : (rows.map Prod.fst).Nodup)
    (done : copyRows .abort columns blobs rows table = some after) :
    Copied columns blobs rows table after := by
  induction rows generalizing table with
  | nil =>
    cases done
    exact ⟨rfl, nofun, fun _ _ => rfl⟩
  | cons entry later ih =>
    obtain ⟨id, cells⟩ := entry
    obtain ⟨middle, inserted, rest⟩ := Option.bind_eq_some_iff.mp done
    unfold Table.insertOr at inserted
    split at inserted
    · cases inserted
      exact (ih (List.nodup_cons.mp distinct).2 rest).cons distinct
    · cases inserted

theorem copyRows_total {conflict : Conflict} (rows : List (Nat × Cells)) (table : Table)
    (distinct : (rows.map Prod.fst).Nodup)
    (accepts : ∀ entry ∈ rows, table.shape.accepts (select columns (blobs entry.1) entry.2) = true)
    (apart : rows.Pairwise fun first second => table.shape.clash
      (select columns (blobs first.1) first.2) (select columns (blobs second.1) second.2) = false)
    (free : ∀ entry ∈ rows, entry.1 ∉ table.rows ∧ ∀ (other : Nat) next,
      table.rows[other]? = some next →
        table.shape.clash next (select columns (blobs entry.1) entry.2) = false) :
    ∃ after, copyRows conflict columns blobs rows table = some after ∧
      Copied columns blobs rows table after := by
  induction rows generalizing table with
  | nil => exact ⟨table, rfl, rfl, nofun, fun _ _ => rfl⟩
  | cons entry later ih =>
    obtain ⟨id, cells⟩ := entry
    have first := free (id, cells) List.mem_cons_self
    have taken : table.takes id (select columns (blobs id) cells) = true :=
      Table.takes_iff.mpr ⟨accepts (id, cells) List.mem_cons_self, first.1, first.2⟩
    obtain ⟨fresh, others⟩ := List.nodup_cons.mp distinct
    obtain ⟨here, following⟩ := List.pairwise_cons.mp apart
    obtain ⟨after, done, copied⟩ := ih (table.put id (select columns (blobs id) cells)) others
      (fun entry listed => accepts entry (List.mem_cons_of_mem _ listed)) following (by
        intro entry listed
        obtain ⟨absent, apart⟩ := free entry (List.mem_cons_of_mem _ listed)
        refine ⟨fun held => ?_, fun other next held => ?_⟩
        · rcases (mem_insert _ _ _ _).mp held with same | held
          · exact fresh (List.mem_map.mpr ⟨entry, listed, same⟩)
          · exact absent held
        · rw [Table.get_put] at held
          split at held
          · cases held
            exact here entry listed
          · exact apart other next held)
    refine ⟨after, ?_, copied.cons distinct⟩
    unfold copyRows Table.insertOr
    rw [if_pos taken]
    exact done

end

def sameRead (columns : List (String × Expr)) (old new : Shape) (name : String) : Bool :=
  old.generated.lookup name == new.generated.lookup name &&
    columns.lookup ((old.generated.lookup name).getD name) ==
      some (.column ((old.generated.lookup name).getD name))

/-- Every constraint of a new table follows from those of the old one, or is met by the random
blob of the row. -/
def widens (length : Nat) (columns : List (String × Expr)) (old new : Shape) : Bool :=
  (new.columns.all fun column =>
    match columns.lookup column.name with
    | some (.column name) => column.length.isNone &&
        (!column.notNull || old.columns.any fun known => known.name == name && known.notNull)
    | some .randomBlob => column.length.isNone || column.length == some length
    | none => false) &&
  new.unique.all fun names =>
    (old.unique.any fun known =>
      known.all fun name => names.contains name && sameRead columns old new name) ||
    names.any fun name =>
      new.generated.lookup name == none && columns.lookup name == some .randomBlob

section

variable {length : Nat} {columns : List (String × Expr)} {old new : Shape}

theorem read_select (same : sameRead columns old new name = true) :
    new.read (select columns blob first) name = old.read first name := by
  simp only [sameRead, Bool.and_eq_true, beq_iff_eq] at same
  obtain ⟨generated, listed⟩ := same
  unfold Shape.read
  rw [← generated]
  cases found : old.generated.lookup name with
  | none =>
    rw [found, Option.getD_none] at listed
    exact get_select_of_lookup listed
  | some base =>
    rw [found, Option.getD_some] at listed
    exact congrArg Value.ifNull (get_select_of_lookup listed)

theorem Column.notNull_of_accepts {column : Column} (accepted : column.accepts value = true)
    (notNull : column.notNull = true) :
    value ≠ .null := by
  rintro rfl
  simp [accepts, notNull] at accepted

theorem widens_accepts (wide : widens length columns old new = true)
    (accepted : old.accepts cells = true)
    (sized : .randomBlob ∈ columns.map Prod.snd → blob.length = length) :
    new.accepts (select columns blob cells) = true := by
  simp only [widens, Bool.and_eq_true, List.all_eq_true] at wide
  rw [Shape.accepts, List.all_eq_true]
  intro column listed
  have fits := wide.1 column listed
  rw [get_select]
  cases found : columns.lookup column.name with
  | none => simp [found] at fits
  | some expr =>
    have used : expr ∈ columns.map Prod.snd := List.mem_map.mpr
      ⟨(column.name, expr), mem_of_lookup found, rfl⟩
    cases expr with
    | column name =>
      simp only [found, Bool.and_eq_true, Option.isNone_iff_eq_none, Bool.or_eq_true,
        Bool.not_eq_true', List.any_eq_true, beq_iff_eq] at fits
      obtain ⟨unchecked, nullable | ⟨known, among, rfl, notNull⟩⟩ := fits
      · simp [Column.accepts, unchecked, nullable]
      · have passed := List.all_eq_true.mp accepted known among
        have value := Column.notNull_of_accepts passed notNull
        simp [Column.accepts, unchecked, Expr.eval, value]
    | randomBlob =>
      have size := sized used
      simp only [found, Bool.or_eq_true, Option.isNone_iff_eq_none, beq_iff_eq] at fits
      rcases fits with unchecked | checked
      · simp [Column.accepts, unchecked, Expr.eval]
      · simp [Column.accepts, checked, Expr.eval, Value.length, size]

theorem widens_apart (wide : widens length columns old new = true)
    (apart : old.clash first second = false)
    (distinct : .randomBlob ∈ columns.map Prod.snd → blob ≠ other) :
    new.clash (select columns blob first) (select columns other second) = false := by
  simp only [widens, Bool.and_eq_true, List.all_eq_true, Bool.or_eq_true, List.any_eq_true,
    List.contains_iff_mem, beq_iff_eq] at wide
  rw [Shape.clash_eq_false]
  intro names unique same
  have equal : ∀ name ∈ names, new.read (select columns blob first) name =
      new.read (select columns other second) name := List.map_inj_left.mp same
  rcases wide.2 names unique with ⟨known, among, covered⟩ | ⟨name, listed, plain, random⟩
  · have agree : old.key first known = old.key second known := by
      refine List.map_congr_left fun name listed => ?_
      obtain ⟨inside, reads⟩ := covered name listed
      rw [← read_select reads, equal name inside, read_select reads]
    have null := Shape.clash_eq_false.mp apart known among agree
    obtain ⟨name, listed, empty⟩ := List.mem_map.mp null
    obtain ⟨inside, reads⟩ := covered name listed
    refine List.mem_map.mpr ⟨name, inside, ?_⟩
    rw [read_select reads, empty]
  · have used : Expr.randomBlob ∈ columns.map Prod.snd := List.mem_map.mpr
      ⟨(name, .randomBlob), mem_of_lookup random, rfl⟩
    have values := equal name listed
    simp only [Shape.read, plain, get_select, random, Expr.eval, Value.blob.injEq] at values
    exact absurd values (distinct used)

end

theorem copyRows_widens {table : Table} (valid : table.Valid)
    (wide : widens length columns table.shape new = true)
    (sized : .randomBlob ∈ columns.map Prod.snd → ∀ id, (blobs id).length = length)
    (distinct : .randomBlob ∈ columns.map Prod.snd → Set.InjOn blobs {id | id ∈ table.rows}) :
    ∃ after, copyRows conflict columns blobs table.rows.toList ⟨new, ∅⟩ = some after ∧
      Copied columns blobs table.rows.toList ⟨new, ∅⟩ after := by
  have held : ∀ entry ∈ table.rows.toList, table.rows[entry.1]? = some entry.2 :=
    fun entry listed => ExtTreeMap.mem_toList_iff_getElem?_eq_some.mp listed
  have ids : (table.rows.toList.map Prod.fst).Nodup := by
    rw [ExtTreeMap.map_fst_toList_eq_keys]
    exact ExtTreeMap.nodup_keys
  refine copyRows_total _ _ ids (fun entry listed => ?_) ?_ fun entry listed => ?_
  · exact widens_accepts wide (valid.accepted _ _ (held entry listed)) fun used => sized used _
  · refine (List.pairwise_map.mp ids).imp_of_mem fun {first second} here there different => ?_
    have listed : ∀ entry ∈ table.rows.toList, entry.1 ∈ table.rows := fun entry listed =>
      (mem_iff_get _ _).mpr ⟨entry.2, held entry listed⟩
    refine widens_apart wide ?_ fun used same =>
      different (distinct used (listed first here) (listed second there) same)
    exact valid.apart _ _ _ _ (held first here) (held second there) different
  · exact ⟨ExtTreeMap.not_mem_empty, fun other next found => by simp at found⟩

/-- The statements that move the rows of a table into one of another shape and put it in the
place of the first. -/
def rebuild (conflict : Conflict) (table temporary : String) (shape : Shape)
    (columns : List (String × Expr)) : List Statement :=
  [.createTable temporary shape, .insertSelect conflict temporary columns table,
    .dropTable table, .renameTable temporary table]

structure Rebuilt (before after : Database) (name temporary : String) (filled : Table) : Prop where
  version : after.version = before.version
  table : after.tables[name]? = some filled
  tables : ∀ other : String, other ≠ name → after.tables[other]? = before.tables[other]?
  sequence : ∀ other : String, other ≠ name → other ≠ temporary →
    after.sequence[other]? = before.sequence[other]?

namespace Environment

variable {ε : Type}

variable (env : Environment ε)

def calm : Environment ε :=
  { env with fault := fun _ _ => none }

theorem exec_calm {env : Environment ε} (done : env.exec statement db = .ok after) :
    env.calm.exec statement db = .ok after := by
  unfold exec at done
  split at done
  · cases done
  · exact done

theorem executeBatch_cons :
    env.executeBatch (statement :: later) db =
      (env.exec statement db >>= env.executeBatch later) :=
  List.foldlM_cons

theorem executeBatch_append :
    env.executeBatch (first ++ second) db =
      (env.executeBatch first db >>= env.executeBatch second) :=
  List.foldlM_append

theorem executeBatch_calm {env : Environment ε}
    (done : env.executeBatch statements db = .ok after) :
    env.calm.executeBatch statements db = .ok after := by
  induction statements generalizing db with
  | nil => exact done
  | cons statement later ih =>
    rw [executeBatch_cons] at done ⊢
    obtain ⟨middle, first, rest⟩ := Fallible.bind_eq_ok.mp done
    exact Fallible.bind_eq_ok.mpr ⟨middle, exec_calm first, ih rest⟩

end Environment

section

variable {ε : Type} (env : Environment ε) {db : Database}

theorem exec_calm_create (absent : db.tables[name]? = none) :
    env.calm.exec (.createTable name shape) db =
      .ok { db with tables := db.tables.insert name ⟨shape, ∅⟩ } := by
  simp [Environment.exec, Environment.calm, Database.apply, Database.withoutTable, absent]

theorem exec_calm_insertSelect (present : db.tables[source]? = some table)
    (empty : db.tables[into]? = some target) :
    env.calm.exec (.insertSelect conflict into columns source) db =
      match copyRows conflict columns env.blobs table.rows.toList target with
      | none => .error .constraint
      | some filled => .ok { db with
          tables := db.tables.insert into filled, sequence := db.raise into filled } := by
  cases filled : copyRows conflict columns env.blobs table.rows.toList target with
  | none | some copied =>
    simp [Environment.exec, Environment.calm, Database.apply, Database.withTable, present,
      empty, filled]

theorem exec_calm_drop (present : db.tables[name]? = some table) :
    env.calm.exec (.dropTable name) db =
      .ok { db with tables := db.tables.erase name, sequence := db.sequence.erase name } := by
  simp only [Environment.exec, Environment.calm, Database.apply, Database.withTable, present]

theorem exec_calm_rename (present : db.tables[old]? = some table)
    (absent : db.tables[new]? = none) :
    env.calm.exec (.renameTable old new) db =
      .ok { db with
        tables := (db.tables.erase old).insert new table
        sequence := db.renameSequence old new } := by
  simp only [Environment.exec, Environment.calm, Database.apply, Database.withTable,
    Database.withoutTable, present, absent]

theorem get_raise_of_ne (apart : other ≠ name) :
    (db.raise name table)[other]? = db.sequence[other]? := by
  unfold Database.raise
  split
  · rw [get_insert, if_neg (Ne.symm apart)]
  · rfl

theorem rebuild_calm (present : db.tables[name]? = some table)
    (absent : db.tables[temporary]? = none) :
    (copyRows conflict columns env.blobs table.rows.toList ⟨shape, ∅⟩ = none ∧
      env.calm.executeBatch (rebuild conflict name temporary shape columns) db =
        .error .constraint) ∨
    ∃ filled after, copyRows conflict columns env.blobs table.rows.toList ⟨shape, ∅⟩ =
        some filled ∧
      env.calm.executeBatch (rebuild conflict name temporary shape columns) db = .ok after ∧
      Rebuilt db after name temporary filled := by
  have apart : name ≠ temporary := by
    rintro rfl
    rw [present] at absent
    cases absent
  have kept : (db.tables.insert temporary ⟨shape, ∅⟩)[name]? = some table := by
    rw [get_insert, if_neg (Ne.symm apart), present]
  have fresh : (db.tables.insert temporary ⟨shape, ∅⟩)[temporary]? = some ⟨shape, ∅⟩ := by
    rw [get_insert, if_pos rfl]
  rw [rebuild, Environment.executeBatch_cons, exec_calm_create env absent,
    Fallible.ok_bind, Environment.executeBatch_cons,
    exec_calm_insertSelect env kept fresh]
  cases copied : copyRows conflict columns env.blobs table.rows.toList ⟨shape, ∅⟩ with
  | none => exact .inl ⟨rfl, rfl⟩
  | some filled =>
    simp only [Fallible.ok_bind]
    have old : ((db.tables.insert temporary ⟨shape, ∅⟩).insert temporary filled)[name]? =
        some table := by
      rw [get_insert, if_neg (Ne.symm apart), kept]
    have moved : (((db.tables.insert temporary ⟨shape, ∅⟩).insert temporary filled).erase
        name)[temporary]? = some filled := by
      rw [get_erase, if_neg apart, get_insert, if_pos rfl]
    have gone : (((db.tables.insert temporary ⟨shape, ∅⟩).insert temporary filled).erase
        name)[name]? = none := by
      rw [get_erase, if_pos rfl]
    rw [Environment.executeBatch_cons, exec_calm_drop env old, Fallible.ok_bind,
      Environment.executeBatch_cons, exec_calm_rename env moved gone]
    refine .inr ⟨filled, _, rfl, rfl, rfl, ?_, fun other different => ?_,
      fun other different distinct => ?_⟩
    · exact (get_insert _ _ _ _).trans (if_pos rfl)
    · simp only [get_insert, get_erase, if_neg (Ne.symm different)]
      split
      next same => rw [← same, absent]
      · rfl
    · unfold Database.renameSequence
      split
      all_goals simp only [get_insert, get_erase,
        if_neg (Ne.symm different), if_neg (Ne.symm distinct)]
      all_goals exact get_raise_of_ne distinct

end

def Database.Sequenced (db : Database) (name : String) : Prop :=
  ∀ table, db.tables[name]? = some table →
    table.shape.autoincrement = true ∧ ∀ id ∈ table.rows, id ≤ db.seq name

namespace Database

variable {db : Database} {name : String}

theorem seq_raise_of_ne (db : Database) (table : Table) (apart : name ≠ other) :
    ((db.raise other table)[name]?).getD 0 = db.seq name := by
  rw [get_raise_of_ne apart, seq]

theorem Sequenced.nextId (sequenced : db.Sequenced name) (present : db.tables[name]? = some table) :
    db.nextId name table = db.seq name + 1 := by
  have bound := Table.maxId_le (sequenced table present).2
  rw [Database.nextId, max_eq_left bound]

theorem Sequenced.seq_insert (sequenced : db.Sequenced name)
    (present : db.tables[name]? = some table) (cells : Cells) :
    ((db.raise name (table.put (db.nextId name table) cells))[name]?).getD 0 =
      db.seq name + 1 := by
  have here : db.nextId name table ∈ (table.put (db.nextId name table) cells).rows :=
    (mem_insert _ _ _ _).mpr (.inl rfl)
  have some : (table.put (db.nextId name table) cells).rows.isEmpty = false :=
    (isEmpty_eq_false_iff_exists _).mpr ⟨_, here⟩
  have most : (table.put (db.nextId name table) cells).maxId = db.seq name + 1 := by
    rw [← sequenced.nextId present]
    refine le_antisymm (Table.maxId_le fun id held => ?_) (Table.le_maxId here)
    rcases (mem_insert _ _ _ _).mp held with rfl | held
    · exact Nat.le_refl _
    · have bound := (sequenced table present).2 id held
      rw [sequenced.nextId present]
      omega
  have auto : (table.put (db.nextId name table) cells).shape.autoincrement = true :=
    (sequenced table present).1
  rw [raise, auto, some, most]
  simp

theorem Sequenced.edit (sequenced : db.Sequenced name) (edit : Edit) :
    (db.edit edit).1.Sequenced name ∧ db.seq name ≤ (db.edit edit).1.seq name ∧
      ∀ id, (db.edit edit).2 = some (name, id) →
        db.seq name < id ∧ id ≤ (db.edit edit).1.seq name := by
  cases edit with
  | insert other cells =>
    simp only [Database.edit]
    split
    · exact ⟨sequenced, Nat.le_refl _, nofun⟩
    next table present =>
      split
      · by_cases same : name = other
        · subst same
          have raised := sequenced.seq_insert present cells
          refine ⟨fun now found => ?_, ?_, fun id issued => ?_⟩
          · rw [get_insert, if_pos rfl] at found
            cases found
            refine ⟨(sequenced table present).1, fun id held => ?_⟩
            rcases (mem_insert _ _ _ _).mp held with rfl | held
            · exact (sequenced.nextId present).trans_le raised.ge
            · exact ((sequenced table present).2 id held).trans
                ((Nat.le_succ _).trans raised.ge)
          · exact (Nat.le_succ _).trans raised.ge
          · cases issued
            have next := sequenced.nextId present
            exact ⟨Nat.lt_of_lt_of_eq (Nat.lt_succ_self _) next.symm, next.trans_le raised.ge⟩
        · have unchanged := seq_raise_of_ne db (table.put (db.nextId other table) cells) same
          refine ⟨fun now found => ?_, unchanged.ge, fun id issued => ?_⟩
          · rw [get_insert, if_neg (Ne.symm same)] at found
            obtain ⟨auto, bound⟩ := sequenced now found
            exact ⟨auto, fun id held => (bound id held).trans unchanged.ge⟩
          · cases issued
            exact absurd rfl same
      · exact ⟨sequenced, Nat.le_refl _, nofun⟩
  | delete other gone =>
    simp only [Database.edit]
    split
    · exact ⟨sequenced, Nat.le_refl _, nofun⟩
    next table present =>
      refine ⟨fun now found => ?_, Nat.le_refl _, nofun⟩
      rw [get_insert] at found
      split at found
      next same =>
        cases found
        obtain ⟨auto, bound⟩ := sequenced table (same ▸ present)
        exact ⟨auto, fun id held => bound id ((mem_erase _ _ _).mp held).2⟩
      · exact sequenced now found

theorem mem_allocated_cons {edit : Edit} {id : Nat} :
    id ∈ allocated name db (edit :: later) ↔
      (db.edit edit).2 = some (name, id) ∨ id ∈ allocated name (db.edit edit).1 later := by
  rw [Database.allocated]
  rcases db.edit edit with ⟨after, _ | ⟨table, issued⟩⟩
  · simp
  · by_cases same : table = name
    · simp [same, eq_comm]
    · simp [same]

theorem Sequenced.allocated (edits : List Edit) (sequenced : db.Sequenced name) :
    ∀ id ∈ allocated name db edits, db.seq name < id := by
  induction edits generalizing db with
  | nil => exact nofun
  | cons edit later ih =>
    obtain ⟨after, grown, fresh⟩ := sequenced.edit edit
    intro id listed
    rcases mem_allocated_cons.mp listed with issued | listed
    · exact (fresh id issued).1
    · exact grown.trans_lt (ih after id listed)

theorem Sequenced.edits (list : List Edit) (sequenced : db.Sequenced name) :
    (db.edits list).Sequenced name ∧ db.seq name ≤ (db.edits list).seq name := by
  induction list generalizing db with
  | nil => exact ⟨sequenced, Nat.le_refl _⟩
  | cons edit later ih =>
    obtain ⟨after, grown, -⟩ := sequenced.edit edit
    obtain ⟨last, more⟩ := ih after
    exact ⟨last, grown.trans more⟩

theorem Sequenced.allocated_le (edits : List Edit) (sequenced : db.Sequenced name) :
    ∀ id ∈ Database.allocated name db edits, id ≤ (db.edits edits).seq name := by
  induction edits generalizing db with
  | nil => exact nofun
  | cons edit later ih =>
    obtain ⟨after, -, fresh⟩ := sequenced.edit edit
    intro id listed
    rcases mem_allocated_cons.mp listed with issued | listed
    · exact (fresh id issued).2.trans (after.edits later).2
    · exact ih after id listed

/-- An edit replaces at most one table, by one of its shape that is valid if it was, and gives an
id in that one only. -/
theorem edit_cases (db : Database) (edit : Edit) :
    (db.edit edit).1.tables = db.tables ∧ (db.edit edit).2 = none ∨
      ∃ name table after, db.tables[name]? = some table ∧ after.shape = table.shape ∧
        (table.Valid → after.Valid) ∧ (db.edit edit).1.tables = db.tables.insert name after ∧
        ∀ other id, (db.edit edit).2 = some (other, id) → other = name := by
  cases edit with
  | insert name cells =>
    simp only [Database.edit]
    split
    · exact .inl ⟨rfl, rfl⟩
    next table present =>
      split
      next taken =>
        exact .inr ⟨name, table, table.put (db.nextId name table) cells, present, rfl,
          fun valid => valid.put taken, rfl, by simp +contextual⟩
      · exact .inl ⟨rfl, rfl⟩
  | delete name gone =>
    simp only [Database.edit]
    split
    · exact .inl ⟨rfl, rfl⟩
    next table present =>
      exact .inr ⟨name, table, { table with rows := table.rows.erase gone }, present, rfl,
        fun valid => valid.erase gone, rfl, nofun⟩

theorem edit_present (db : Database) (edit : Edit)
    (held : name ∈ db.tables ∨ ∃ id, (db.edit edit).2 = some (name, id)) :
    name ∈ (db.edit edit).1.tables := by
  rcases db.edit_cases edit with ⟨same, none⟩ | ⟨changed, table, after, -, -, -, same, only⟩
  · grind
  · grind

theorem edits_present (list : List Edit) (db : Database) (held : name ∈ db.tables) :
    name ∈ (db.edits list).tables := by
  induction list generalizing db with
  | nil => exact held
  | cons edit later ih => exact ih _ (db.edit_present edit (.inl held))

theorem allocated_present (edits : List Edit) (db : Database) {id : Nat}
    (drawn : id ∈ Database.allocated name db edits) : name ∈ (db.edits edits).tables := by
  induction edits generalizing db with
  | nil => cases drawn
  | cons edit later ih =>
    rcases mem_allocated_cons.mp drawn with issued | drawn
    · exact edits_present later _ (db.edit_present edit (.inr ⟨id, issued⟩))
    · exact ih _ drawn

end Database

structure Table.Carries (table after : Table) : Prop where
  columns : table.shape.columns.map Column.name ⊆ after.shape.columns.map Column.name
  ids : ∀ id, id ∈ after.rows ↔ id ∈ table.rows
  cells : ∀ (id : Nat) cells, table.rows[id]? = some cells → ∃ copied,
    after.rows[id]? = some copied ∧
      ∀ name ∈ table.shape.columns.map Column.name, get copied name = get cells name

theorem Table.Carries.refl (table : Table) : table.Carries table :=
  ⟨List.Subset.refl _, fun _ => .rfl, fun _ cells held => ⟨cells, held, fun _ _ => rfl⟩⟩

theorem Table.Carries.trans {first second third : Table} (step : first.Carries second)
    (next : second.Carries third) : first.Carries third where
  columns := fun _ listed => next.columns (step.columns listed)
  ids := fun id => (next.ids id).trans (step.ids id)
  cells := by
    intro id cells held
    obtain ⟨middle, found, same⟩ := step.cells id cells held
    obtain ⟨last, there, also⟩ := next.cells id middle found
    exact ⟨last, there, fun name listed =>
      (also name (step.columns listed)).trans (same name listed)⟩

def selectsAll (columns : List (String × Expr)) (old new : Shape) : Bool :=
  old.columns.all fun column => columns.lookup column.name == some (.column column.name) &&
    new.columns.any fun kept => kept.name == column.name

theorem Copied.carries {table after : Table}
    (copied : Copied columns blobs table.rows.toList ⟨new, ∅⟩ after)
    (all : selectsAll columns table.shape new = true) : table.Carries after := by
  simp only [selectsAll, List.all_eq_true, Bool.and_eq_true, beq_iff_eq, List.any_eq_true] at all
  have held : ∀ (id : Nat) cells, table.rows[id]? = some cells →
      after.rows[id]? = some (select columns (blobs id) cells) := fun id cells there =>
    copied.copied (id, cells) (ExtTreeMap.mem_toList_iff_getElem?_eq_some.mpr there)
  refine ⟨?_, fun id => ⟨fun there => ?_, fun there => ?_⟩, fun id cells there => ?_⟩
  · intro name listed
    obtain ⟨column, among, rfl⟩ := List.mem_map.mp listed
    obtain ⟨kept, present, same⟩ := (all column among).2
    rw [copied.shape]
    exact List.mem_map.mpr ⟨kept, present, same⟩
  · by_contra absent
    have outside : id ∉ table.rows.toList.map Prod.fst := by
      rw [ExtTreeMap.map_fst_toList_eq_keys, ExtTreeMap.mem_keys]
      exact absent
    have none := copied.rest id outside
    rw [(notMem_iff_get _ _).mp ExtTreeMap.not_mem_empty] at none
    exact (notMem_iff_get _ _).mpr none there
  · obtain ⟨cells, found⟩ := (mem_iff_get _ _).mp there
    exact (mem_iff_get _ _).mpr ⟨_, held id cells found⟩
  · refine ⟨_, held id cells there, fun name listed => ?_⟩
    obtain ⟨column, among, rfl⟩ := List.mem_map.mp listed
    exact get_select_of_lookup (all column among).1

structure Database.Preserves (before after : Database) : Prop where
  tables : ∀ (name : String) table, before.tables[name]? = some table →
    ∃ now, after.tables[name]? = some now ∧ table.Carries now
  seq : ∀ (name : String) table, before.tables[name]? = some table →
    before.seq name ≤ after.seq name
  added : ∀ (name : String) table, after.tables[name]? = some table → name ∉ before.tables →
    ∀ id, id ∉ table.rows

namespace Database

theorem Preserves.refl (db : Database) : db.Preserves db :=
  ⟨fun _ table present => ⟨table, present, .refl table⟩, fun _ _ _ => Nat.le_refl _,
    fun _ table present absent => absurd ((mem_iff_get _ _).mpr ⟨table, present⟩) absent⟩

theorem Preserves.trans {first second third : Database} (step : first.Preserves second)
    (next : second.Preserves third) : first.Preserves third where
  tables := by
    intro name table present
    obtain ⟨middle, there, carried⟩ := step.tables name table present
    obtain ⟨last, found, also⟩ := next.tables name middle there
    exact ⟨last, found, carried.trans also⟩
  seq := by
    intro name table present
    obtain ⟨middle, there, -⟩ := step.tables name table present
    exact (step.seq name table present).trans (next.seq name middle there)
  added := by
    intro name table present absent
    by_cases between : name ∈ second.tables
    · obtain ⟨middle, there⟩ := (mem_iff_get _ _).mp between
      obtain ⟨last, found, carried⟩ := next.tables name middle there
      cases Option.some.inj (present.symm.trans found)
      exact fun id held => step.added name middle there absent id ((carried.ids id).mp held)
    · exact next.added name table present between

end Database

end Sql
