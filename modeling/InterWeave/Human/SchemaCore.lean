import InterWeave.Human.StoreCore
import InterWeave.Lib.Sql

/-!
`human::store::schema`: the migrations from each schema version to the next, and `migrate`, which
runs those that are missing in one transaction.
-/

namespace InterWeave.Human.Schema

open Sql

def schemaVersion : Int := 7

abbrev Env := Environment SqlCode

def codeOf : Failure SqlCode → SqlCode
  | .fault code => code
  | .constraint => .constraintViolation
  | .noTable _ | .tableExists _ => .other

def migrationError (failure : Failure SqlCode) : StoreError :=
  match codeOf failure with
  | .databaseBusy | .databaseLocked | .diskFull | .cannotOpen | .systemIoFailure | .outOfMemory
  | .readOnly => .sql (codeOf failure)
  | code => .migration (.statement code)

def sqlError (failure : Failure SqlCode) : StoreError :=
  .sql (codeOf failure)

def required (name : String) : Column := ⟨name, true, none⟩

def optional (name : String) : Column := ⟨name, false, none⟩

def pendingColumns : List Column :=
  [required "destination_peer", optional "destination_endpoint", optional "channel_id",
    optional "media_type", required "payload", required "created_at", optional "last_attempt_at",
    required "attempts"]

def pendingV1 : Shape where
  autoincrement := true
  columns := required "app_message_id" :: pendingColumns
  unique := [["app_message_id"]]

def pendingV6 : Shape where
  autoincrement := true
  columns := required "app_message_id" :: ⟨"transport_message_id", true, some 16⟩ :: pendingColumns
  unique := [["app_message_id"], ["transport_message_id"]]

def unreadColumns : List Column :=
  [required "app_message_id", required "source_peer", optional "source_endpoint",
    optional "channel_id", optional "media_type", required "payload", required "received_at"]

def keptColumns : List Column :=
  unreadColumns ++ [required "read_at", required "kept_at"]

def endpointKey : String × String := ("source_endpoint_key", "source_endpoint")

def channelKey : String × String := ("channel_key", "channel_id")

variable (columns : List Column) (env : Env) (current : Int) (db : Database)

/-- The inbound tables of versions 1 to 4 differ in their key only. -/
def inboundV1 : Shape where
  autoincrement := true
  columns := columns
  unique := [["app_message_id"]]

def inboundV2 : Shape where
  autoincrement := true
  columns := columns
  unique := [["source_peer", "app_message_id"]]

def inboundV3 : Shape where
  autoincrement := true
  columns := columns
  generated := [endpointKey]
  unique := [["source_peer", "source_endpoint_key", "app_message_id"]]

def inboundV4 : Shape where
  autoincrement := true
  columns := columns
  generated := [endpointKey, channelKey]
  unique := [["source_peer", "source_endpoint_key", "channel_key", "app_message_id"]]

def settings : Shape where
  autoincrement := false
  columns := [optional "key", required "value"]
  unique := [["key"]]

def contacts : Shape where
  autoincrement := false
  columns := [required "contact_id", required "display_name", optional "avatar_ref",
    optional "notes", required "created_at", required "updated_at"]
  unique := [["contact_id"]]

def contactRoutes : Shape where
  autoincrement := false
  columns := [required "contact_id", required "peer_id", required "endpoint_id",
    optional "device_label", optional "verification_note", optional "last_seen"]
  unique := [["contact_id", "peer_id", "endpoint_id"]]

def conversationIndex : Shape where
  autoincrement := false
  columns := [required "conversation_id", required "peer_id", optional "endpoint_id",
    optional "channel_id", optional "title", optional "last_activity"]
  unique := [["conversation_id"]]

def readPairs : Shape where
  autoincrement := true
  columns := [required "app_message_id", required "source_peer", optional "source_endpoint",
    optional "channel_id", required "at"]
  generated := [endpointKey, channelKey]
  unique := [["source_peer", "source_endpoint_key", "channel_key", "app_message_id"]]

def same : List (String × Expr) :=
  columns.map fun column => (column.name, .column column.name)

def pendingV6Select : List (String × Expr) :=
  ("app_message_id", .column "app_message_id") :: ("transport_message_id", .randomBlob) ::
    same pendingColumns

def sequenceOf (table : String) (db : Database) : Except StoreError (Option Nat) :=
  ((env.exec (.selectSequence table) db).mapError migrationError).map fun db => db.sequence[table]?

def carrySequence (table : String) (previous : Option Nat) (db : Database) :
    Except StoreError Database := do
  let db ← (env.exec (.selectMaxId table) db).mapError migrationError
  let copied := ((db.tables[table]?).map Table.maxId).getD 0
  let highWater := max (previous.getD 0) copied
  let db ← (env.exec (.deleteSequence table) db).mapError migrationError
  if highWater > 0 then (env.exec (.insertSequence table highWater) db).mapError migrationError
  else .ok db

def migration1 : Except StoreError Database :=
  (env.executeBatch
    [.createTable "pending_outbound" pendingV1,
      .createTable "unread_inbound" (inboundV1 unreadColumns),
      .createTable "kept_inbound" (inboundV1 keptColumns),
      .createTable "settings" settings] db).mapError sqlError

/-- Versions 2, 3 and 4: both inbound tables are rebuilt and keep their sequences. -/
def rebuildInbound (conflict : Conflict) (unread kept : String)
    (shape : List Column → Shape) (env : Env) (db : Database) : Except StoreError Database := do
  let unreadSeq ← sequenceOf env "unread_inbound" db
  let keptSeq ← sequenceOf env "kept_inbound" db
  let db ← (env.executeBatch
    (rebuild conflict "unread_inbound" unread (shape unreadColumns) (same unreadColumns) ++
      rebuild conflict "kept_inbound" kept (shape keptColumns) (same keptColumns))
    db).mapError migrationError
  let db ← carrySequence env "unread_inbound" unreadSeq db
  carrySequence env "kept_inbound" keptSeq db

def migration2 : Env → Database → Except StoreError Database :=
  rebuildInbound .ignore "unread_inbound_v2" "kept_inbound_v2" inboundV2

def migration3 : Env → Database → Except StoreError Database :=
  rebuildInbound .abort "unread_inbound_v3" "kept_inbound_v3" inboundV3

def migration4 : Env → Database → Except StoreError Database :=
  rebuildInbound .abort "unread_inbound_v4" "kept_inbound_v4" inboundV4

def migration5 : Except StoreError Database :=
  (env.executeBatch
    [.createTable "contacts" contacts, .createTable "contact_routes" contactRoutes,
      .createTable "conversation_index" conversationIndex] db).mapError migrationError

def migration6 : Except StoreError Database := do
  let seq ← sequenceOf env "pending_outbound" db
  let db ← (env.executeBatch
    (rebuild .abort "pending_outbound" "pending_outbound_v6" pendingV6 pendingV6Select)
    db).mapError migrationError
  carrySequence env "pending_outbound" seq db

def migration7 : Except StoreError Database :=
  (env.executeBatch [.createTable "read_pairs" readPairs] db).mapError migrationError

/-- A migration runs when the version the transaction began with is below it. -/
def step (version : Int) (migration : Env → Database → Except StoreError Database) (env : Env)
    (db : Database) : Except StoreError Database :=
  if current < version then migration env db else .ok db

def migrations : Except StoreError Database := do
  let db ← step current 1 migration1 env db
  let db ← step current 2 migration2 env db
  let db ← step current 3 migration3 env db
  let db ← step current 4 migration4 env db
  let db ← step current 5 migration5 env db
  let db ← step current 6 migration6 env db
  step current 7 migration7 env db

def upgrade : Except StoreError Database := do
  let db ← migrations env current db
  let db ← (env.exec (.setVersion schemaVersion) db).mapError sqlError
  (env.exec .commit db).mapError sqlError

/-- A transaction that is not committed is rolled back when it is dropped. -/
def migrate : Database × Except StoreError Unit :=
  match env.exec .selectVersion db with
  | .error failure => (db, .error (sqlError failure))
  | .ok _ =>
    if db.version > schemaVersion then (db, .error (.migration (.newer db.version)))
    else if db.version = schemaVersion then (db, .ok ())
    else
      match env.exec .begin db with
      | .error failure => (db, .error (sqlError failure))
      | .ok _ =>
        match upgrade env db.version db with
        | .error reason => (db, .error reason)
        | .ok after => (after, .ok ())

end InterWeave.Human.Schema
