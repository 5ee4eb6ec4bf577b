import InterWeave.Human.SchemaCore

/-!
Migrating a database of any supported version keeps every row under its id and every sequence, or
leaves the database as it was.
-/

namespace InterWeave.Human.Schema

open Sql OrderedMap
open Fallible (bind_eq_ok map_eq_ok mapError_eq_ok)

variable {after : Database} {migration : Env → Database → Except StoreError Database} (env : Env)
    (current : Int) (table : String)

def contentTables : List String := ["pending_outbound", "unread_inbound", "kept_inbound"]

variable (version : Nat)

def pendingAt : Shape :=
  if version < 6 then pendingV1 else pendingV6

def inboundAt : List Column → Shape :=
  if version < 2 then inboundV1
  else if version < 3 then inboundV2
  else if version < 4 then inboundV3
  else inboundV4

def baseTables : List (String × Shape) :=
  [("pending_outbound", pendingAt version),
    ("unread_inbound", inboundAt version unreadColumns),
    ("kept_inbound", inboundAt version keptColumns),
    ("settings", settings)]

def contactTables : List (String × Shape) :=
  [("contacts", contacts), ("contact_routes", contactRoutes),
    ("conversation_index", conversationIndex)]

def schemaAt : List (String × Shape) :=
  (if version < 1 then [] else baseTables version) ++
    (if version < 5 then [] else contactTables) ++
    (if version < 7 then [] else [("read_pairs", readPairs)])

/-- A database as a build of that version leaves it: its tables have their shapes, their rows meet
the constraints, and the sequences of the content tables are past their rows. -/
structure Supported (version : Nat) (db : Database) : Prop where
  schema : ∀ name : String, (db.tables[name]?).map Table.shape = (schemaAt version).lookup name
  valid : ∀ (name : String) table, db.tables[name]? = some table → table.Valid
  sequenced : ∀ name ∈ contentTables, db.Sequenced name

theorem sequenceOf_calm : sequenceOf env.calm table db = .ok db.sequence[table]? := rfl

theorem carrySequence_calm {table : Table} (present : db.tables[name]? = some table)
    (previous : Option Nat) :
    ∃ after, carrySequence env.calm name previous db = .ok after ∧
      after.version = db.version ∧ after.tables = db.tables ∧
      after.seq name = max (previous.getD 0) table.maxId ∧
      ∀ other : String, other ≠ name → after.sequence[other]? = db.sequence[other]? := by
  have maximum : env.calm.exec (.selectMaxId name) db = .ok db := by
    simp only [Environment.exec, Environment.calm, Database.apply, Database.withTable, present]
  have erased : ∀ other : String, other ≠ name →
      (db.sequence.erase name)[other]? = db.sequence[other]? := fun other apart => by
    rw [get_erase, if_neg (Ne.symm apart)]
  by_cases positive : max (previous.getD 0) table.maxId > 0
  · refine ⟨⟨db.version, db.tables, (db.sequence.erase name).insert name
      (max (previous.getD 0) table.maxId)⟩, ?_, rfl, rfl, ?_, fun other apart => ?_⟩
    · rw [carrySequence, maximum]
      simp only [bind, Except.bind, Except.mapError, present, Option.map_some, Option.getD_some,
        if_pos positive]
      rfl
    · simp [Database.seq]
    · exact ((get_insert _ _ _ _).trans (if_neg (Ne.symm apart))).trans
        (erased other apart)
  · refine ⟨⟨db.version, db.tables, db.sequence.erase name⟩, ?_, rfl, rfl, ?_, erased⟩
    · rw [carrySequence, maximum]
      simp only [bind, Except.bind, Except.mapError, present, Option.map_some, Option.getD_some,
        if_neg positive]
      rfl
    · have zero : max (previous.getD 0) table.maxId = 0 := by omega
      simp [Database.seq, zero]

/-- A database in the middle of a migration: the shapes of its tables, what is kept of the database
the migration began with, and the tables whose sequences are still to be carried over. -/
structure Underway (schema : List (String × Shape)) (lag : List String)
    (before db : Database) : Prop where
  schema : ∀ name : String, (db.tables[name]?).map Table.shape = schema.lookup name
  valid : ∀ (name : String) table, db.tables[name]? = some table → table.Valid
  sequenced : ∀ name ∈ contentTables, name ∉ lag → db.Sequenced name
  version : db.version = before.version
  tables : ∀ (name : String) table, before.tables[name]? = some table →
    ∃ now, db.tables[name]? = some now ∧ table.Carries now
  seq : ∀ (name : String) table, before.tables[name]? = some table → name ∉ lag →
    before.seq name ≤ db.seq name
  added : ∀ (name : String) table, db.tables[name]? = some table → name ∉ before.tables →
    ∀ id, id ∉ table.rows

theorem Supported.underway {version : Nat} {db : Database} (supported : Supported version db) :
    Underway (schemaAt version) [] db db :=
  have kept := Database.Preserves.refl db
  ⟨supported.schema, supported.valid, fun name content _ => supported.sequenced name content, rfl,
    kept.tables, fun name table present _ => kept.seq name table present, kept.added⟩

namespace Underway

variable {schema : List (String × Shape)} {lag : List String} {before db : Database} {name : String}

theorem arrives {version : Nat} (way : Underway (schemaAt version) [] before db) :
    Supported version db ∧ before.Preserves db ∧ db.version = before.version :=
  ⟨⟨way.schema, way.valid, fun name content => way.sequenced name content List.not_mem_nil⟩,
    ⟨way.tables, fun name table present => way.seq name table present List.not_mem_nil, way.added⟩,
    way.version⟩

theorem absent (way : Underway schema lag before db) (unknown : schema.lookup name = none) :
    db.tables[name]? = none := by
  have shape := way.schema name
  rwa [unknown, Option.map_eq_none_iff] at shape

theorem present (way : Underway schema lag before db) {shape : Shape}
    (known : schema.lookup name = some shape) :
    ∃ table, db.tables[name]? = some table ∧ table.shape = shape := by
  have found := way.schema name
  rwa [known, Option.map_eq_some_iff] at found

theorem create (way : Underway schema lag before db) (unknown : schema.lookup name = none)
    (auto : name ∈ contentTables → shape.autoincrement = true) :
    Underway (schema ++ [(name, shape)]) lag before
      { db with tables := db.tables.insert name ⟨shape, ∅⟩ } := by
  have absent := way.absent unknown
  refine ⟨fun other => ?_, ?_, ?_, way.version, ?_, way.seq, ?_⟩
  · rw [get_insert, List.lookup_append, lookup_cons, ← way.schema other]
    by_cases same : name = other
    · simp [same, same ▸ absent]
    · simp [same, Ne.symm same]
  · grind [way.valid, Table.valid_empty]
  · intro other content here table there
    have old := way.sequenced other content here
    grind [Database.Sequenced, Database.seq, Std.ExtTreeMap.not_mem_empty]
  · grind [way.tables]
  · grind [way.added, Std.ExtTreeMap.not_mem_empty]

theorem creates (created : List (String × Shape)) {schema : List (String × Shape)} {db : Database}
    (way : Underway schema lag before db) (distinct : ((schema ++ created).map Prod.fst).Nodup)
    (auto : ∀ entry ∈ created, entry.1 ∈ contentTables → entry.2.autoincrement = true) :
    ∃ after, env.calm.executeBatch (created.map fun table => .createTable table.1 table.2) db =
        .ok after ∧
      Underway (schema ++ created) lag before after := by
  induction created generalizing schema db with
  | nil => exact ⟨db, rfl, by rwa [List.append_nil]⟩
  | cons first later ih =>
    have unknown : schema.lookup first.1 = none := by
      refine List.lookup_eq_none_iff.mpr fun entry listed => ?_
      rw [bne_iff_ne]
      rintro same
      rw [List.map_append, List.nodup_append] at distinct
      exact distinct.2.2 entry.1 (List.mem_map_of_mem listed) first.1 (by simp) same.symm
    have next := way.create unknown (auto first List.mem_cons_self)
    rw [← List.singleton_append, ← List.append_assoc] at distinct ⊢
    obtain ⟨after, done, arrived⟩ := ih next distinct
      fun entry listed => auto entry (List.mem_cons_of_mem _ listed)
    refine ⟨after, ?_, arrived⟩
    rw [List.singleton_append, List.map_cons, Environment.executeBatch_cons,
      exec_calm_create env (way.absent unknown), Fallible.ok_bind, done]

end Underway

def reshape (name : String) (shape : Shape) (schema : List (String × Shape)) :
    List (String × Shape) :=
  schema.map fun entry => if entry.1 = name then (name, shape) else entry

theorem lookup_reshape :
    (reshape name shape schema).lookup other =
      if other = name then (schema.lookup name).map fun _ => shape else schema.lookup other := by
  induction schema with
  | nil => simp [reshape]
  | cons first later ih =>
    obtain ⟨head, old⟩ := first
    have cons : reshape name shape ((head, old) :: later) =
      (if head = name then (name, shape) else (head, old)) :: reshape name shape later := rfl
    rw [cons]
    by_cases here : head = name
    · subst here
      rw [if_pos rfl, lookup_cons, lookup_cons, ih]
      grind
    · rw [if_neg here, lookup_cons, lookup_cons, ih]
      grind [lookup_cons]

def rebuilds (schema : List (String × Shape)) (name temporary : String) (new : Shape)
    (columns : List (String × Expr)) : Bool :=
  schema.lookup temporary == none && (schema.lookup name).any fun old =>
    widens 16 columns old new && selectsAll columns old new

namespace Underway

variable {schema : List (String × Shape)} {lag : List String} {before db : Database}

section

variable (way : Underway schema lag before db)

include way

theorem rebuilt {name temporary : String} {table filled : Table}
    (present : db.tables[name]? = some table) (free : db.tables[temporary]? = none)
    (built : Rebuilt db after name temporary filled) (carries : table.Carries filled)
    (valid : filled.Valid) :
    Underway (reshape name filled.shape schema) (name :: lag) before after := by
  have seq : ∀ (other : String) table, db.tables[other]? = some table → other ≠ name →
      after.seq other = db.seq other := by
    intro other table there apart
    rw [Database.seq, built.sequence other apart, Database.seq]
    rintro rfl
    rw [free] at there
    cases there
  have known := way.schema name
  rw [present] at known
  refine ⟨fun other => ?_, ?_, ?_, built.version.trans way.version, ?_, ?_, ?_⟩
  · rw [lookup_reshape, ← known]
    grind [built.table, built.tables, way.schema]
  · grind [built.table, built.tables, way.valid]
  · intro other content here
    have old := way.sequenced other content
    grind [Database.Sequenced, built.tables]
  · intro other old there
    obtain ⟨now, found, kept⟩ := way.tables other old there
    grind [built.table, built.tables, Table.Carries.trans]
  · intro other old there here
    obtain ⟨now, found, -⟩ := way.tables other old there
    have kept := way.seq other old there
    grind
  · grind [built.table, built.tables, way.added, carries.ids]

theorem rebuild (conflict : Conflict) (name temporary : String) (new : Shape)
    (columns : List (String × Expr)) (check : rebuilds schema name temporary new columns = true)
    (strict : conflict = .abort ∨ .randomBlob ∉ columns.map Prod.snd) :
    (∀ after,
      env.calm.executeBatch (Sql.rebuild conflict name temporary new columns) db = .ok after →
      Underway (reshape name new schema) (name :: lag) before after) ∧
    ((.randomBlob ∈ columns.map Prod.snd → (∀ id, (env.blobs id).length = 16) ∧
        ∀ table, db.tables[name]? = some table → Set.InjOn env.blobs {id | id ∈ table.rows}) →
      ∃ after, env.calm.executeBatch (Sql.rebuild conflict name temporary new columns) db =
        .ok after) := by
  simp only [rebuilds, Bool.and_eq_true, beq_iff_eq, Option.any_eq_true] at check
  obtain ⟨unused, old, known, wide, all⟩ := check
  obtain ⟨table, present, rfl⟩ := way.present known
  have free := way.absent unused
  have valid := way.valid name table present
  have ids : (table.rows.toList.map Prod.fst).Nodup := by
    rw [Std.ExtTreeMap.map_fst_toList_eq_keys]
    exact Std.ExtTreeMap.nodup_keys
  rcases rebuild_calm env present free with
    ⟨failed, error⟩ | ⟨filled, middle, copy, done, built⟩
  · refine ⟨fun after success => ?_, fun blobs => ?_⟩
    · rw [error] at success
      cases success
    · obtain ⟨filled, copy, -⟩ := copyRows_widens valid wide
        (fun used => (blobs used).1) (fun used => (blobs used).2 table present)
      rw [copy] at failed
      cases failed
  · refine ⟨fun after success => ?_, fun _ => ⟨middle, done⟩⟩
    cases Except.ok.inj (done.symm.trans success)
    have copied : Copied columns env.blobs table.rows.toList ⟨new, ∅⟩ filled := by
      rcases strict with rfl | plain
      · exact copyRows_abort ids copy
      · obtain ⟨again, same, copied⟩ := copyRows_widens valid wide
          (fun used => absurd used plain) (fun used => absurd used plain)
        cases Option.some.inj (copy.symm.trans same)
        exact copied
    have shape : filled.shape = new := copied.shape
    rw [← shape]
    exact way.rebuilt present free built (copied.carries all)
      (copyRows_valid Table.valid_empty copy)

theorem rebuild_plain (conflict : Conflict) {name temporary : String} {new : Shape}
    {columns : List (String × Expr)} (check : rebuilds schema name temporary new columns = true)
    (plain : .randomBlob ∉ columns.map Prod.snd) :
    ∃ after, env.calm.executeBatch (Sql.rebuild conflict name temporary new columns) db =
        .ok after ∧
      Underway (reshape name new schema) (name :: lag) before after := by
  obtain ⟨kept, total⟩ := way.rebuild env conflict name temporary new columns check (.inr plain)
  obtain ⟨after, done⟩ := total fun used => absurd used plain
  exact ⟨after, done, kept after done⟩

theorem carry (name : String) (rest : List String)
    (auto : (schema.lookup name).any (·.autoincrement) = true)
    (others : ∀ other ∈ lag, other = name ∨ other ∈ rest) :
    ∃ after, carrySequence env.calm name before.sequence[name]? db = .ok after ∧
      Underway schema rest before after := by
  obtain ⟨shape, known, counts⟩ := (Option.any_eq_true _ _).mp auto
  obtain ⟨table, present, rfl⟩ := way.present known
  obtain ⟨after, done, version, tables, raised, sequence⟩ :=
    carrySequence_calm env present before.sequence[name]?
  have same : ∀ other, other ≠ name → after.seq other = db.seq other := fun other apart => by
    rw [Database.seq, sequence other apart, Database.seq]
  have free : ∀ other, other ≠ name → other ∉ rest → other ∉ lag := fun other apart here inside =>
    (others other inside).elim apart here
  refine ⟨after, done, tables ▸ way.schema, tables ▸ way.valid, ?_, version.trans way.version,
    tables ▸ way.tables, ?_, tables ▸ way.added⟩
  · intro other content here now there
    rw [tables] at there
    by_cases apart : other = name
    · subst apart
      cases Option.some.inj (present.symm.trans there)
      exact ⟨counts, fun id inside => raised ▸ (Table.le_maxId inside).trans (le_max_right _ _)⟩
    · rw [same other apart]
      exact way.sequenced other content (free other apart here) now there
  · intro other old there here
    by_cases apart : other = name
    · exact apart ▸ raised ▸ le_max_left _ _
    · exact same other apart ▸ way.seq other old there (free other apart here)

end

end Underway

structure DistinctBlobs (env : Env) (db : Database) : Prop where
  length : ∀ id, (env.blobs id).length = 16
  distinct : ∀ table, db.tables["pending_outbound"]? = some table →
    Set.InjOn env.blobs {id | id ∈ table.rows}

theorem DistinctBlobs.preserves {env : Env} {db : Database} (blobs : DistinctBlobs env db)
    (preserved : db.Preserves after) : DistinctBlobs env after where
  length := blobs.length
  distinct := by
    intro table present
    by_cases held : "pending_outbound" ∈ db.tables
    · obtain ⟨old, there⟩ := (mem_iff_get _ _).mp held
      obtain ⟨now, found, carried⟩ := preserved.tables _ old there
      cases Option.some.inj (present.symm.trans found)
      exact fun id here other also same =>
        blobs.distinct old there ((carried.ids id).mp here) ((carried.ids other).mp also) same
    · exact fun id here => absurd here (preserved.added _ table present held id)

structure Leads (env : Env) (first last : Nat)
    (body : Database → Except StoreError Database) : Prop where
  kept : ∀ db after, Supported first db → body db = .ok after →
    Supported last after ∧ db.Preserves after ∧ after.version = db.version
  total : ∀ db, DistinctBlobs env db → Supported first db → ∃ after, body db = .ok after

theorem Leads.of_underway {env : Env} {first last : Nat}
    {body : Database → Except StoreError Database}
    (arrives : ∀ db, Supported first db →
      ∃ after, body db = .ok after ∧ Underway (schemaAt last) [] db after) :
    Leads env first last body where
  kept := by
    intro db after supported done
    obtain ⟨other, again, way⟩ := arrives db supported
    cases Except.ok.inj (done.symm.trans again)
    exact way.arrives
  total := fun db _ supported => (arrives db supported).imp fun _ outcome => outcome.1

theorem creates_leads {version next : Nat} (created : List (String × Shape))
    {wrap : Failure SqlCode → StoreError}
    (body : ∀ db, migration env.calm db = (env.calm.executeBatch
      (created.map fun table => .createTable table.1 table.2) db).mapError wrap)
    (grown : schemaAt version ++ created = schemaAt next)
    (distinct : ((schemaAt version ++ created).map Prod.fst).Nodup)
    (auto : ∀ entry ∈ created, entry.1 ∈ contentTables → entry.2.autoincrement = true) :
    Leads env version next (migration env.calm) := by
  refine .of_underway fun db supported => ?_
  obtain ⟨after, done, way⟩ := supported.underway.creates env created distinct auto
  refine ⟨after, ?_, grown ▸ way⟩
  rw [body, done]
  rfl

def rebuildsInbound (version next : Nat) (unread kept : String) (shape : List Column → Shape) :
    Bool :=
  let middle := reshape "unread_inbound" (shape unreadColumns) (schemaAt version)
  rebuilds (schemaAt version) "unread_inbound" unread (shape unreadColumns) (same unreadColumns) &&
    rebuilds middle "kept_inbound" kept (shape keptColumns) (same keptColumns) &&
    (schemaAt next == reshape "kept_inbound" (shape keptColumns) middle) &&
    ["unread_inbound", "kept_inbound"].all fun name =>
      ((schemaAt next).lookup name).any (·.autoincrement)

theorem rebuildInbound_leads {version next : Nat} {unread kept : String}
    {shape : List Column → Shape} (check : rebuildsInbound version next unread kept shape = true) :
    Leads env version next (rebuildInbound conflict unread kept shape env.calm) := by
  simp only [rebuildsInbound, Bool.and_eq_true, beq_iff_eq, List.all_cons] at check
  obtain ⟨⟨⟨unreadFits, keptFits⟩, grown⟩, unreadAuto, keptAuto, -⟩ := check
  refine .of_underway fun db supported => ?_
  obtain ⟨first, unreadDone, way⟩ :=
    supported.underway.rebuild_plain env conflict unreadFits (by decide)
  obtain ⟨second, keptDone, way⟩ := way.rebuild_plain env conflict keptFits (by decide)
  rw [← grown] at way
  obtain ⟨third, unreadCarried, way⟩ :=
    way.carry env "unread_inbound" ["kept_inbound"] unreadAuto (by decide)
  obtain ⟨after, keptCarried, way⟩ := way.carry env "kept_inbound" [] keptAuto (by decide)
  refine ⟨after, ?_, way⟩
  simp only [rebuildInbound, sequenceOf_calm, Environment.executeBatch_append, unreadDone,
    keptDone, Fallible.ok_bind, Except.mapError, unreadCarried, keptCarried]

theorem migration1_leads : Leads env 0 1 (migration1 env.calm) :=
  creates_leads env (baseTables 1) (fun _ => rfl) rfl (by decide) (by decide)

theorem migration2_leads : Leads env 1 2 (migration2 env.calm) :=
  rebuildInbound_leads env (by decide +kernel)

theorem migration3_leads : Leads env 2 3 (migration3 env.calm) :=
  rebuildInbound_leads env (by decide +kernel)

theorem migration4_leads : Leads env 3 4 (migration4 env.calm) :=
  rebuildInbound_leads env (by decide +kernel)

theorem migration5_leads : Leads env 4 5 (migration5 env.calm) :=
  creates_leads env contactTables (fun _ => rfl) rfl (by decide) (by decide)

theorem migration6_leads : Leads env 5 6 (migration6 env.calm) := by
  have built := fun (db : Database) (supported : Supported 5 db) =>
    supported.underway.rebuild env .abort "pending_outbound" "pending_outbound_v6" pendingV6
      pendingV6Select (by decide +kernel) (.inl rfl)
  refine ⟨fun db after supported done => ?_, fun db blobs supported => ?_⟩
  · simp only [migration6, sequenceOf_calm, Fallible.ok_bind] at done
    obtain ⟨middle, moved, done⟩ := bind_eq_ok.mp done
    have way := (built db supported).1 middle (mapError_eq_ok.mp moved)
    obtain ⟨last, carried, way⟩ := way.carry env "pending_outbound" [] (by decide) (by decide)
    cases Except.ok.inj (carried.symm.trans done)
    exact Underway.arrives way
  · obtain ⟨kept, total⟩ := built db supported
    obtain ⟨middle, moved⟩ := total fun _ => ⟨blobs.length, blobs.distinct⟩
    obtain ⟨after, carried, -⟩ :=
      (kept middle moved).carry env "pending_outbound" [] (by decide) (by decide)
    refine ⟨after, ?_⟩
    simp only [migration6, sequenceOf_calm, Fallible.ok_bind, moved, Except.mapError, carried]

theorem migration7_leads : Leads env 6 7 (migration7 env.calm) :=
  creates_leads env [("read_pairs", readPairs)] (fun _ => rfl) rfl (by decide) (by decide)

theorem Leads.then {env : Env} {first second third : Nat}
    {body next : Database → Except StoreError Database} (one : Leads env first second body)
    (two : Leads env second third next) : Leads env first third fun db => body db >>= next where
  kept := by
    intro db after supported done
    obtain ⟨middle, head, rest⟩ := bind_eq_ok.mp done
    obtain ⟨between, preserved, version⟩ := one.kept db middle supported head
    obtain ⟨last, also, same⟩ := two.kept middle after between rest
    exact ⟨last, preserved.trans also, same.trans version⟩
  total := by
    intro db blobs supported
    obtain ⟨middle, head⟩ := one.total db blobs supported
    obtain ⟨between, preserved, -⟩ := one.kept db middle supported head
    obtain ⟨after, rest⟩ := two.total middle (blobs.preserves preserved) between
    exact ⟨after, bind_eq_ok.mpr ⟨middle, head, rest⟩⟩

def Calms {α : Type} (action : Env → Database → Except StoreError α) : Prop :=
  ∀ env db result, action env db = .ok result → action env.calm db = .ok result

theorem calms_exec : Calms fun env db => (env.exec statement db).mapError wrap := fun _ _ _ done =>
  mapError_eq_ok.mpr (Environment.exec_calm (mapError_eq_ok.mp done))

theorem calms_batch :
    Calms fun env db => (env.executeBatch statements db).mapError wrap := fun _ _ _ done =>
  mapError_eq_ok.mpr (Environment.executeBatch_calm (mapError_eq_ok.mp done))

theorem calms_bind {α β : Type} {first : Env → Database → Except StoreError α}
    {next : α → Env → Database → Except StoreError β} (one : Calms first)
    (two : ∀ value, Calms (next value)) :
    Calms fun env db => first env db >>= fun value => next value env db := by
  intro env db result done
  obtain ⟨value, head, rest⟩ := bind_eq_ok.mp done
  exact bind_eq_ok.mpr ⟨value, one env db value head, two value env db result rest⟩

theorem calms_then {β : Type} {first : Env → Database → Except StoreError Database}
    {next : Env → Database → Except StoreError β} (one : Calms first) (two : Calms next) :
    Calms fun env db => first env db >>= next env := by
  intro env db result done
  obtain ⟨middle, head, rest⟩ := bind_eq_ok.mp done
  exact bind_eq_ok.mpr ⟨middle, one env db middle head, two env middle result rest⟩

theorem calms_sequenceOf : Calms fun env db => sequenceOf env table db := by
  intro env db result done
  obtain ⟨middle, read, seq⟩ := map_eq_ok.mp done
  exact map_eq_ok.mpr ⟨middle, calms_exec env db middle read, seq⟩

theorem calms_carrySequence : Calms fun env db => carrySequence env table previous db := by
  intro env db result done
  obtain ⟨middle, read, rest⟩ := bind_eq_ok.mp done
  obtain ⟨cleared, deleted, rest⟩ := bind_eq_ok.mp rest
  refine bind_eq_ok.mpr ⟨middle, calms_exec env db middle read, ?_⟩
  refine bind_eq_ok.mpr ⟨cleared, calms_exec env middle cleared deleted, ?_⟩
  split at rest
  next positive =>
    rw [if_pos positive]
    exact calms_exec env cleared result rest
  next zero =>
    rw [if_neg zero]
    exact rest

theorem calms_rebuildInbound : Calms (rebuildInbound conflict unread kept shape) :=
  calms_bind (calms_sequenceOf _) fun _ => calms_bind (calms_sequenceOf _) fun _ =>
    calms_then calms_batch (calms_then (calms_carrySequence _) (calms_carrySequence _))

theorem calms_migration6 : Calms migration6 :=
  calms_bind (calms_sequenceOf _) fun _ => calms_then calms_batch (calms_carrySequence _)

theorem calms_step (version : Int) (calms : Calms migration) :
    Calms (step current version migration) := by
  intro env db result done
  unfold step at done ⊢
  split at done
  next below =>
    rw [if_pos below]
    exact calms env db result done
  next reached =>
    rw [if_neg reached]
    exact done

theorem calms_migrations : Calms fun env db => migrations env current db :=
  calms_then (calms_step _ _ calms_batch) <|
  calms_then (calms_step _ _ calms_rebuildInbound) <|
  calms_then (calms_step _ _ calms_rebuildInbound) <|
  calms_then (calms_step _ _ calms_rebuildInbound) <|
  calms_then (calms_step _ _ calms_batch) <|
  calms_then (calms_step _ _ calms_migration6) (calms_step _ _ calms_batch)

theorem calms_upgrade : Calms fun env db => upgrade env current db :=
  calms_then (calms_migrations current) (calms_then calms_exec calms_exec)

theorem leads_step {env : Env} (current : Nat) {version : Nat}
    (leads : Leads env version (version + 1) (migration env.calm)) :
    Leads env (max current version) (max current (version + 1))
      (step current (version + 1 : Nat) migration env.calm) := by
  by_cases below : current < version + 1
  · have taken : step current (version + 1 : Nat) migration env.calm = migration env.calm := by
      funext db
      rw [step, if_pos (by exact_mod_cast below)]
    rw [taken, max_eq_right (Nat.le_of_lt_succ below), max_eq_right below.le]
    exact leads
  · have passed : step current (version + 1 : Nat) migration env.calm = .ok := by
      funext db
      rw [step, if_neg (by exact_mod_cast below)]
    rw [passed, max_eq_left (by omega), max_eq_left (by omega)]
    refine ⟨fun db after supported done => ?_, fun db _ _ => ⟨db, rfl⟩⟩
    cases done
    exact ⟨supported, .refl db, rfl⟩

theorem supported_setVersion {version : Nat} {db : Database} (supported : Supported version db)
    (number : Int) : Supported version { db with version := number } :=
  ⟨supported.schema, supported.valid, supported.sequenced⟩

theorem migrations_leads {version : Nat} (below : version < 7) :
    Leads env version 7 (migrations env.calm version) := by
  have chain := (leads_step version (migration1_leads env)).then <|
    (leads_step version (migration2_leads env)).then <|
    (leads_step version (migration3_leads env)).then <|
    (leads_step version (migration4_leads env)).then <|
    (leads_step version (migration5_leads env)).then <|
    (leads_step version (migration6_leads env)).then <|
    leads_step version (migration7_leads env)
  rw [Nat.max_zero, max_eq_right (by omega : version ≤ 6 + 1)] at chain
  exact chain

theorem upgrade_calm :
    upgrade env.calm current db = (migrations env.calm current db).map fun after =>
      { after with version := schemaVersion } := by
  rw [upgrade]
  cases migrations env.calm current db <;> rfl

theorem upgrade_kept {env : Env} {version : Nat} (below : version < 7) {db : Database}
    (supported : Supported version db) (done : upgrade env version db = .ok after) :
    after.version = schemaVersion ∧ Supported 7 after ∧ db.Preserves after := by
  have calm : upgrade env.calm version db = .ok after := calms_upgrade version env db after done
  rw [upgrade_calm] at calm
  obtain ⟨middle, migrated, rfl⟩ := map_eq_ok.mp calm
  obtain ⟨last, preserved, -⟩ :=
    (migrations_leads env below).kept db middle supported migrated
  exact ⟨rfl, supported_setVersion last _, preserved.tables, preserved.seq, preserved.added⟩

theorem upgrade_total {env : Env} (works : ∀ statement db, env.fault statement db = none)
    {version : Nat} (below : version < 7) {db : Database} (blobs : DistinctBlobs env db)
    (supported : Supported version db) : ∃ after, upgrade env version db = .ok after := by
  have quiet : env.calm = env := by
    have none : env.fault = fun _ _ => none := funext fun statement => funext (works statement)
    rw [Environment.calm, ← none]
  obtain ⟨middle, migrated⟩ := (migrations_leads env below).total db blobs supported
  rw [← quiet, upgrade_calm, migrated]
  exact ⟨_, rfl⟩

theorem migrate_cases :
    (∃ reason, migrate env db = (db, .error reason)) ∨
      (db.version = schemaVersion ∧ migrate env db = (db, .ok ())) ∨
      ∃ after, upgrade env db.version db = .ok after ∧ migrate env db = (after, .ok ()) := by
  unfold migrate
  split
  · exact .inl ⟨_, rfl⟩
  · split
    · exact .inl ⟨_, rfl⟩
    · split
      next current => exact .inr (.inl ⟨current, rfl⟩)
      · split
        · exact .inl ⟨_, rfl⟩
        · split
          · exact .inl ⟨_, rfl⟩
          next after done => exact .inr (.inr ⟨after, done, rfl⟩)

theorem migrate_of_upgrade {env : Env} (works : ∀ statement db, env.fault statement db = none)
    {db : Database} (below : db.version < schemaVersion)
    (done : upgrade env db.version db = .ok after) : migrate env db = (after, .ok ()) := by
  have read : ∀ statement, env.exec statement db = db.apply env.blobs statement := by
    intro statement
    rw [Environment.exec, works]
  have version : env.exec .selectVersion db = .ok db := read _
  have begun : env.exec .begin db = .ok db := read _
  rw [migrate, version]
  simp only [if_neg (not_lt.mpr below.le), if_neg below.ne, begun, done]

/-- From a database of any supported version below the current one: a failed migration leaves it
as it was; one that succeeds ends at the current version with every row under its id and with its
cells, and ids drawn afterwards are past every id that was ever drawn; and it succeeds when no
statement fails by itself and the random ids are distinct. -/
theorem migrate_keeps_rows_and_ids (version : Nat) (below : version < 7) (db : Database)
    (supported : Supported version db) (current : db.version = version) :
    (∀ env reason, (migrate env db).2 = .error reason → (migrate env db).1 = db) ∧
    (∀ env, (migrate env db).2 = .ok () →
      (migrate env db).1.version = schemaVersion ∧ Supported 7 (migrate env db).1 ∧
      db.Preserves (migrate env db).1 ∧
      ∀ name ∈ contentTables, ∀ later, ∀ new ∈ Database.allocated name (migrate env db).1 later,
        (name ∈ db.tables → db.seq name < new) ∧
        ∀ (first : Database) earlier, first.Sequenced name → first.edits earlier = db →
          ∀ old ∈ Database.allocated name first earlier, old < new) ∧
    ∀ env, (∀ statement now, env.fault statement now = none) → DistinctBlobs env db →
      (migrate env db).2 = .ok () := by
  have behind : db.version ≠ schemaVersion := by
    rw [current, schemaVersion]
    omega
  refine ⟨fun env reason failed => ?_, fun env success => ?_, fun env works blobs => ?_⟩
  · rcases migrate_cases env with ⟨_, result⟩ | ⟨_, result⟩ | ⟨after, _, result⟩
    · rw [result]
    · rw [result]
    · rw [result] at failed
      cases failed
  · rcases migrate_cases env with ⟨_, result⟩ | ⟨same, _⟩ | ⟨after, done, result⟩
    · rw [result] at success
      cases success
    · exact absurd same behind
    · rw [current] at done
      obtain ⟨number, last, preserved⟩ := upgrade_kept below supported done
      rw [result]
      refine ⟨number, last, preserved, fun name content later new drawn => ?_⟩
      have beyond := (last.sequenced name content).allocated later new drawn
      have past : name ∈ db.tables → db.seq name < new := by
        intro held
        obtain ⟨table, present⟩ := (mem_iff_get _ _).mp held
        exact (preserved.seq name table present).trans_lt beyond
      refine ⟨past, fun first earlier sequenced reached old used => ?_⟩
      have recorded := sequenced.allocated_le earlier old used
      have there := Database.allocated_present earlier first used
      rw [reached] at recorded there
      exact recorded.trans_lt (past there)
  · obtain ⟨after, done⟩ := upgrade_total works below blobs supported
    rw [← current] at done
    rw [migrate_of_upgrade works (by rw [current, schemaVersion]; omega) done]

def emptyTables (shapes : List (String × Shape)) : Std.ExtTreeMap String Table :=
  shapes.foldr (fun table tables => tables.insert table.1 ⟨table.2, ∅⟩) ∅

def fresh (version : Nat) : Database :=
  ⟨version, emptyTables (schemaAt version), ∅⟩

theorem tables_fresh {shapes : List (String × Shape)} :
    (emptyTables shapes)[name]? = (shapes.lookup name).map fun shape => ⟨shape, ∅⟩ := by
  induction shapes with
  | nil => simp [emptyTables]
  | cons first later ih =>
    rw [emptyTables, List.foldr_cons, get_insert, lookup_cons]
    by_cases same : name = first.1
    · rw [if_pos same.symm, if_pos same]
      rfl
    · rw [if_neg (Ne.symm same), if_neg same]
      exact ih

theorem supported_fresh {version : Nat}
    (auto : ∀ name ∈ contentTables, ∀ shape, (schemaAt version).lookup name = some shape →
      shape.autoincrement = true) : Supported version (fresh version) := by
  have empty : ∀ (name : String) table, (fresh version).tables[name]? = some table →
      ∃ shape, (schemaAt version).lookup name = some shape ∧ table = ⟨shape, ∅⟩ := by
    intro name table held
    rw [fresh, tables_fresh] at held
    obtain ⟨shape, found, rfl⟩ := Option.map_eq_some_iff.mp held
    exact ⟨shape, found, rfl⟩
  refine ⟨fun name => ?_, fun name table held => ?_, fun name content table held => ?_⟩
  · rw [fresh, tables_fresh, Option.map_map]
    exact Option.map_id'
  · obtain ⟨shape, -, rfl⟩ := empty name table held
    exact Table.valid_empty
  · obtain ⟨shape, found, rfl⟩ := empty name table held
    exact ⟨auto name content shape found, fun id inside =>
      absurd inside Std.ExtTreeMap.not_mem_empty⟩

theorem Supported.edit {version : Nat} {db : Database} (supported : Supported version db)
    (edit : Edit) : Supported version (db.edit edit).1 := by
  refine ⟨fun name => ?_, fun name table held => ?_, fun name content =>
    ((supported.sequenced name content).edit edit).1⟩
  · rcases db.edit_cases edit with ⟨same, -⟩ | ⟨changed, table, after, present, shape, -, same, -⟩
    · rw [same]
      exact supported.schema name
    · rw [same, get_insert, ← supported.schema name]
      split
      next here => rw [← here, present, Option.map_some, Option.map_some, shape]
      · rfl
  · rcases db.edit_cases edit with ⟨same, -⟩ | ⟨changed, old, after, present, -, valid, same, -⟩
    · rw [same] at held
      exact supported.valid name table held
    · rw [same, get_insert] at held
      split at held
      · cases held
        exact valid (supported.valid changed old present)
      · exact supported.valid name table held

theorem Supported.edits {version : Nat} (supported : Supported version db) (list : List Edit) :
    Supported version (db.edits list) :=
  List.foldlRecOn list (motive := Supported version) _ supported fun _ held edit _ => held.edit edit

namespace Sample

def received (message : String) : Edit :=
  .insert "unread_inbound" [("app_message_id", .text message), ("source_peer", .text "p"),
    ("payload", .blob [1]), ("received_at", .int 5)]

/-- Two messages arrive, and the row with the largest id goes again. -/
def dismissed : List Edit :=
  [received "a", received "b", .delete "unread_inbound" 2]

def environment : Env :=
  ⟨fun _ _ => none, fun _ => List.replicate 16 0⟩

def old : Database := (fresh 1).edits dismissed

theorem sequenced : (fresh 1).Sequenced "unread_inbound" :=
  (supported_fresh (by decide)).sequenced _ (by decide)

theorem supported : Supported 1 old :=
  (supported_fresh (by decide)).edits dismissed

end Sample

/-- The id of a deleted row is not drawn again after the migration. -/
theorem migrate_keeps_rows_and_ids_sample :
    Database.allocated "unread_inbound" (fresh 1) Sample.dismissed = [1, 2] ∧
    (Sample.old.tables["unread_inbound"]?.map fun table => table.rows.size) = some 1 ∧
    (migrate Sample.environment Sample.old).2 = .ok () ∧
    Sample.old.Preserves (migrate Sample.environment Sample.old).1 ∧
    Database.allocated "unread_inbound" (migrate Sample.environment Sample.old).1
      [Sample.received "c"] = [3] ∧
    ∀ new ∈ Database.allocated "unread_inbound" (migrate Sample.environment Sample.old).1
      [Sample.received "c"], 2 < new := by
  obtain ⟨-, kept, total⟩ := migrate_keeps_rows_and_ids 1 (by decide) Sample.old Sample.supported
    (by decide +kernel)
  have none : (Sample.old.tables["pending_outbound"]?.all fun table => table.rows.isEmpty) =
      true := by
    decide +kernel
  have done := total Sample.environment (fun _ _ => rfl) ⟨fun _ => rfl, by
    intro table present id held
    rw [present, Option.all_some] at none
    rw [Std.ExtTreeMap.isEmpty_iff] at none
    exact absurd held (none ▸ Std.ExtTreeMap.not_mem_empty)⟩
  have drawn : Database.allocated "unread_inbound" (fresh 1) Sample.dismissed = [1, 2] := by
    decide +kernel
  obtain ⟨-, -, preserved, later⟩ := kept Sample.environment done
  refine ⟨drawn, by decide +kernel, done, preserved, by decide +kernel, fun new member => ?_⟩
  refine (later _ (by decide) [Sample.received "c"] new member).2 (fresh 1) Sample.dismissed
    Sample.sequenced rfl 2 ?_
  rw [drawn]
  decide

end InterWeave.Human.Schema
