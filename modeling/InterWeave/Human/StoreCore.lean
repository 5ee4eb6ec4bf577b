import InterWeave.Api.Payload
import InterWeave.Lib.AutoTable

/-!
`human::store` and the retention state machine of `human::core`: three tables of message content,
one of content-free read pairs, and the operations that move a message between them. A failure of
the database is an input: it fails the statement, or the whole transaction, and changes nothing.
-/

namespace InterWeave.Human

inductive Durability where
  | durable
  | remove
  deriving DecidableEq, Repr

inductive TerminalCause where
  | accepted
  | published
  | cancelled
  deriving DecidableEq, Repr

inductive OutboundState where
  | pending
  | terminal
  deriving DecidableEq, Repr

structure OutboundMessage where
  state : OutboundState := .pending
  cause : Option TerminalCause := none
  deriving DecidableEq, Repr

namespace OutboundMessage

def durability (message : OutboundMessage) : Durability :=
  match message.state with
  | .pending => .durable
  | .terminal => .remove

def transportTerminal (message : OutboundMessage) (cause : TerminalCause) :
    OutboundMessage × Durability :=
  let ended : OutboundMessage :=
    if message.state = .pending then ⟨.terminal, some cause⟩ else message
  (ended, ended.durability)

end OutboundMessage

inductive InboundState where
  | unread
  | readEphemeral
  | kept
  deriving DecidableEq, Repr

inductive KeepRefused where
  | notYetRead
  | contentNoLongerHeld
  deriving DecidableEq, Repr

structure InboundMessage where
  state : InboundState := .unread
  contentHeld : Bool := true
  deriving DecidableEq, Repr

namespace InboundMessage

variable (message : InboundMessage)

def durability : Durability :=
  match message.state with
  | .unread | .kept => .durable
  | .readEphemeral => .remove

def markRead : InboundMessage × Durability :=
  let read := if message.state = .unread then { message with state := .readEphemeral } else message
  (read, read.durability)

def keep : InboundMessage × Except KeepRefused Durability :=
  match message.state with
  | .unread => (message, .error .notYetRead)
  | .readEphemeral =>
    if message.contentHeld then
      ({ message with state := .kept }, .ok .durable)
    else (message, .error .contentNoLongerHeld)
  | .kept => (message, .ok .durable)

def unkeep : InboundMessage × Durability :=
  let read := if message.state = .kept then { message with state := .readEphemeral } else message
  (read, read.durability)

end InboundMessage

inductive StorageHealth where
  | healthy
  | degraded
  deriving DecidableEq, Repr

abbrev RowId := Nat

def AppMessageId.canonical (value : String) : Bool :=
  (bytesOf value).length == 32 &&
    (bytesOf value).all fun b => isAsciiDigit b || (0x61 ≤ b && b ≤ 0x66)

@[ext]
structure AppMessageId where
  asStr : String
  valid : AppMessageId.canonical asStr = true
  deriving DecidableEq

structure InboundOrigin where
  peer : TransportIdentity
  endpoint : Option EndpointId
  channel : Option ChannelId
  deriving DecidableEq

inductive OutboundDestination where
  | direct (peer : TransportIdentity) (endpoint : Option EndpointId)
  | broadcast (channel : ChannelId)
  deriving DecidableEq

structure NewOutbound where
  appMessageId : AppMessageId
  transportMessageId : MessageId
  destination : OutboundDestination
  mediaType : Option MediaType
  payload : List UInt8
  createdAt : Nat
  deriving DecidableEq

structure PendingOutbound where
  rowId : RowId
  appMessageId : AppMessageId
  transportMessageId : MessageId
  destination : OutboundDestination
  mediaType : Option MediaType
  payload : List UInt8
  createdAt : Nat
  lastAttemptAt : Option Nat
  attempts : Nat
  deriving DecidableEq

structure NewInbound where
  appMessageId : AppMessageId
  origin : InboundOrigin
  mediaType : Option MediaType
  payload : List UInt8
  receivedAt : Nat
  deriving DecidableEq

structure ReadEphemeral where
  appMessageId : AppMessageId
  origin : InboundOrigin
  mediaType : Option MediaType
  payload : List UInt8
  receivedAt : Nat
  readAt : Nat
  deriving DecidableEq

structure StoredInbound where
  rowId : RowId
  appMessageId : AppMessageId
  origin : InboundOrigin
  mediaType : Option MediaType
  payload : List UInt8
  receivedAt : Nat
  readAt : Option Nat
  keptAt : Option Nat
  deriving DecidableEq

structure PendingRow where
  appMessageId : String
  transportMessageId : List UInt8
  destinationPeer : String
  destinationEndpoint : Option String
  channelId : Option String
  mediaType : Option String
  payload : List UInt8
  createdAt : Int
  lastAttemptAt : Option Int
  attempts : Int
  deriving DecidableEq, Repr

structure InboundRow where
  appMessageId : String
  sourcePeer : String
  sourceEndpoint : Option String
  channelId : Option String
  mediaType : Option String
  payload : List UInt8
  receivedAt : Int
  deriving DecidableEq, Repr

structure KeptRow extends InboundRow where
  readAt : Int
  keptAt : Int
  deriving DecidableEq, Repr

structure PairRow where
  appMessageId : String
  sourcePeer : String
  sourceEndpoint : Option String
  channelId : Option String
  recordedAt : Int
  deriving DecidableEq, Repr

/-- The unique key of the inbound tables and of the read pairs, with `NULL` as the empty text. -/
structure InboundKey where
  sourcePeer : String
  endpointKey : String
  channelKey : String
  appMessageId : String
  deriving DecidableEq, Repr

def InboundRow.key (row : InboundRow) : InboundKey :=
  ⟨row.sourcePeer, row.sourceEndpoint.getD "", row.channelId.getD "", row.appMessageId⟩

def PairRow.key (row : PairRow) : InboundKey :=
  ⟨row.sourcePeer, row.sourceEndpoint.getD "", row.channelId.getD "", row.appMessageId⟩

inductive SqlCode where
  | diskFull
  | systemIoFailure
  | cannotOpen
  | outOfMemory
  | readOnly
  | databaseCorrupt
  | notADatabase
  | databaseBusy
  | databaseLocked
  | constraintViolation
  | other
  deriving DecidableEq, Repr

def isMediumFailure : SqlCode → Bool
  | .constraintViolation | .other => false
  | _ => true

inductive Corruption where
  | identifier (reason : IdError)
  | mediaType (reason : PayloadError)
  | negative (field : String) (value : Int)
  | notCount (field : String) (value : Int)
  | messageIdLength (got : Nat)
  deriving DecidableEq, Repr

inductive MigrationFailure where
  | newer (current : Int)
  | statement (code : SqlCode)
  deriving DecidableEq, Repr

inductive StoreError where
  | degraded
  | noSuchRow
  | keepRefused (reason : KeepRefused)
  | malformedAppMessageId (got : String)
  | tooManyRows (useInstead : String)
  | timestampOutOfRange (field : String) (got : Nat)
  | identityConflict (appMessageId sourcePeer : String)
  | payloadTooLarge (got max : Nat)
  | corrupt (detail : Corruption)
  | sql (code : SqlCode)
  | migration (reason : MigrationFailure)
  | alreadyRead
  deriving DecidableEq, Repr

def i64Max : Nat := 2 ^ 63 - 1

variable (field : String) (held : ReadEphemeral)

def sqlTimestamp (value : Nat) : Except StoreError Int :=
  if value ≤ i64Max then .ok value else .error (.timestampOutOfRange field value)

def storedMs (value : Int) : Except StoreError Nat :=
  if 0 ≤ value then .ok value.toNat else .error (.corrupt (.negative field value))

def storedCount (value : Int) : Except StoreError Nat :=
  if 0 ≤ value ∧ value < 2 ^ 32 then .ok value.toNat
  else .error (.corrupt (.notCount field value))

def checkPayload (payload : List UInt8) : Except StoreError Unit :=
  if payload.length > maxPayloadBytes then
    .error (.payloadTooLarge payload.length maxPayloadBytes)
  else .ok ()

def AppMessageId.parse (value : String) : Except StoreError AppMessageId :=
  if valid : AppMessageId.canonical value = true then .ok ⟨value, valid⟩
  else .error (.malformedAppMessageId value)

def corruptId {α : Type} (parsed : Except IdError α) : Except StoreError α :=
  parsed.mapError fun reason => .corrupt (.identifier reason)

def parseOption {α β : Type} (parse : α → Except StoreError β) :
    Option α → Except StoreError (Option β)
  | none => .ok none
  | some value => (parse value).map some

def parseMediaType (stored : Option String) : Except StoreError (Option MediaType) :=
  parseOption
    (fun value => (MediaType.parse value).mapError fun reason =>
      .corrupt (.mediaType reason)) stored

def parseOrigin (peer : String) (endpoint channel : Option String) :
    Except StoreError InboundOrigin := do
  let peer ← corruptId (TransportIdentity.parse peer)
  let endpoint ← parseOption (fun value => corruptId (EndpointId.parse value)) endpoint
  let channel ← parseOption (fun value => corruptId (ChannelId.parse value)) channel
  pure ⟨peer, endpoint, channel⟩

def InboundRow.intoRead (row : InboundRow) (readAt : Nat) : Except StoreError ReadEphemeral := do
  let appMessageId ← AppMessageId.parse row.appMessageId
  let origin ← parseOrigin row.sourcePeer row.sourceEndpoint row.channelId
  let mediaType ← parseMediaType row.mediaType
  let receivedAt ← storedMs "received_at" row.receivedAt
  pure
    { appMessageId := appMessageId, origin := origin, mediaType := mediaType,
      payload := row.payload, receivedAt := receivedAt, readAt := readAt }

def storedMessageId (bytes : List UInt8) : Except StoreError MessageId :=
  if length : bytes.length = 16 then .ok ⟨bytes, length⟩
  else .error (.corrupt (.messageIdLength bytes.length))

def NewOutbound.row (new : NewOutbound) (lastAttemptAt : Option Nat) (attempts : Nat) :
    PendingRow where
  appMessageId := new.appMessageId.asStr
  transportMessageId := new.transportMessageId.bytes
  destinationPeer := match new.destination with
    | .direct peer _ => peer.asStr
    | .broadcast _ => ""
  destinationEndpoint := match new.destination with
    | .direct _ endpoint => endpoint.map EndpointId.asStr
    | .broadcast _ => none
  channelId := match new.destination with
    | .direct _ _ => none
    | .broadcast channel => some channel.asStr
  mediaType := new.mediaType.map MediaType.asStr
  payload := new.payload
  createdAt := new.createdAt
  lastAttemptAt := lastAttemptAt.map Int.ofNat
  attempts := attempts

def PendingOutbound.again (cancelled : PendingOutbound) : NewOutbound where
  appMessageId := cancelled.appMessageId
  transportMessageId := cancelled.transportMessageId
  destination := cancelled.destination
  mediaType := cancelled.mediaType
  payload := cancelled.payload
  createdAt := cancelled.createdAt

def NewInbound.row (new : NewInbound) : InboundRow where
  appMessageId := new.appMessageId.asStr
  sourcePeer := new.origin.peer.asStr
  sourceEndpoint := new.origin.endpoint.map EndpointId.asStr
  channelId := new.origin.channel.map ChannelId.asStr
  mediaType := new.mediaType.map MediaType.asStr
  payload := new.payload
  receivedAt := new.receivedAt

def ReadEphemeral.row (keptAt : Nat) : KeptRow where
  appMessageId := held.appMessageId.asStr
  sourcePeer := held.origin.peer.asStr
  sourceEndpoint := held.origin.endpoint.map EndpointId.asStr
  channelId := held.origin.channel.map ChannelId.asStr
  mediaType := held.mediaType.map MediaType.asStr
  payload := held.payload
  receivedAt := held.receivedAt
  readAt := held.readAt
  keptAt := keptAt

def ReadEphemeral.pair (recordedAt : Nat) : PairRow where
  appMessageId := held.appMessageId.asStr
  sourcePeer := held.origin.peer.asStr
  sourceEndpoint := held.origin.endpoint.map EndpointId.asStr
  channelId := held.origin.channel.map ChannelId.asStr
  recordedAt := recordedAt

/-- The comparison of the upsert: everything but the two times that it refreshes. -/
def KeptRow.sameMessage (held new : KeptRow) : Bool :=
  held.sourceEndpoint == new.sourceEndpoint && held.channelId == new.channelId &&
    held.mediaType == new.mediaType && held.receivedAt == new.receivedAt &&
    held.payload == new.payload

structure HumanStore where
  pending : AutoTable PendingRow
  unread : AutoTable InboundRow
  kept : AutoTable KeptRow
  pairs : AutoTable PairRow
  health : StorageHealth := .healthy

def readPairCap : Nat := 4096

/-- One `INSERT`: it may fail, meet a unique key, or find no id left. -/
def insertRow {α : Type} (fault : Option SqlCode) (clash : Bool) (table : AutoTable α) (row : α) :
    Except SqlCode (AutoTable α) :=
  match fault with
  | some code => .error code
  | none =>
    if clash then .error .constraintViolation
    else if table.seq ≥ i64Max then .error .diskFull
    else .ok (table.insert row)

def overflow (pairs : AutoTable PairRow) : List Nat :=
  pairs.rows.keys.take (pairs.rows.size - readPairCap)

def recordPair (pairs : AutoTable PairRow) (held : ReadEphemeral) (atMs : Nat) :
    Except StoreError (AutoTable PairRow) := do
  let old := (pairs.rows.toList.filter fun entry => entry.2.key == (held.pair atMs).key).map
    Prod.fst
  let _ ← sqlTimestamp "at" atMs
  match insertRow none false (pairs.eraseAll old) (held.pair atMs) with
  | .error code => .error (.sql code)
  | .ok recorded => .ok (recorded.eraseAll (overflow recorded))

namespace HumanStore

variable (store : HumanStore) (new : NewOutbound) (rowId : RowId) (atMs : Nat)
  (fault : Option SqlCode)

def rejectIfDegraded : Except StoreError Unit :=
  match store.health with
  | .healthy => .ok ()
  | .degraded => .error .degraded

def noteFailure (code : SqlCode) : HumanStore :=
  if isMediumFailure code then { store with health := .degraded } else store

def noteStoreFailure : StoreError → HumanStore
  | .sql code => store.noteFailure code
  | _ => store

def checkOutbound (lastAttemptAt : Option Nat) : Except StoreError Unit := do
  store.rejectIfDegraded
  checkPayload new.payload
  let _ ← parseOption (sqlTimestamp "last_attempt_at") lastAttemptAt
  let _ ← sqlTimestamp "created_at" new.createdAt
  pure ()

def insertPending (lastAttemptAt : Option Nat) (attempts : Nat) (fault : Option SqlCode) :
    HumanStore × Except StoreError RowId :=
  match store.checkOutbound new lastAttemptAt with
  | .error reason => (store, .error reason)
  | .ok () =>
    let row := new.row lastAttemptAt attempts
    let clash := (store.pending.find fun held =>
      held.appMessageId == row.appMessageId ||
        held.transportMessageId == row.transportMessageId).isSome
    match insertRow fault clash store.pending row with
    | .error code => (store.noteFailure code, .error (.sql code))
    | .ok pending => ({ store with pending := pending }, .ok (store.pending.seq + 1))

def commitPendingOutbound : HumanStore × Except StoreError RowId :=
  store.insertPending new none 0 fault

def restorePendingOutbound (cancelled : PendingOutbound) (fault : Option SqlCode) :
    HumanStore × Except StoreError RowId :=
  store.insertPending cancelled.again cancelled.lastAttemptAt cancelled.attempts fault

def applyOutboundDurability : Durability → HumanStore × Except StoreError Unit
  | .durable => (store, .ok ())
  | .remove =>
    match fault with
    | some code => (store.noteFailure code, .error (.sql code))
    | none => ({ store with pending := store.pending.erase rowId }, .ok ())

def transportTerminal (store : HumanStore) (rowId : RowId) (cause : TerminalCause)
    (fault : Option SqlCode) : HumanStore × Except StoreError Unit :=
  store.applyOutboundDurability rowId fault (OutboundMessage.transportTerminal {} cause).2

def checkInbound (new : NewInbound) : Except StoreError Unit := do
  store.rejectIfDegraded
  checkPayload new.payload
  let _ ← sqlTimestamp "received_at" new.receivedAt
  pure ()

def commitUnreadInbound (new : NewInbound) (fault : Option SqlCode) :
    HumanStore × Except StoreError RowId :=
  match store.checkInbound new with
  | .error reason => (store, .error reason)
  | .ok () =>
    if fault.isNone ∧ (store.pairs.find fun pair => pair.key == new.row.key).isSome then
      (store, .error .alreadyRead)
    else
      let clash := (store.unread.find fun held => held.key == new.row.key).isSome
      match insertRow fault clash store.unread new.row with
      | .error code => (store.noteFailure code, .error (.sql code))
      | .ok unread => ({ store with unread := unread }, .ok (store.unread.seq + 1))

/-- The transaction of `mark_read`: the row is parsed before it is deleted. -/
def readRow (durability : Durability) : Except StoreError (HumanStore × Option ReadEphemeral) :=
  match store.unread.rows[rowId]? with
  | none => .ok (store, none)
  | some row => do
      let held ← row.intoRead atMs
      match durability with
      | .durable => pure (store, some held)
      | .remove =>
        let pairs ← recordPair store.pairs held atMs
        pure ({ store with unread := store.unread.erase rowId, pairs := pairs }, some held)

def markRead (store : HumanStore) (rowId : RowId) (atMs : Nat) (fault : Option SqlCode) :
    HumanStore × Except StoreError ReadEphemeral :=
  match sqlTimestamp "read_at" atMs with
  | .error reason => (store, .error reason)
  | .ok _ =>
    match fault with
    | some code => (store.noteFailure code, .error (.sql code))
    | none =>
      match store.readRow rowId atMs (InboundMessage.markRead {}).2 with
      | .error reason => (store.noteStoreFailure reason, .error reason)
      | .ok (_, none) => (store, .error .noSuchRow)
      | .ok (after, some held) => (after, .ok held)

def checkKeep (held : ReadEphemeral) (atMs : Nat) : Except StoreError Unit := do
  store.rejectIfDegraded
  match (InboundMessage.markRead {}).1.keep.2 with
  | .error reason => throw (.keepRefused reason)
  | .ok .remove => throw (.keepRefused .contentNoLongerHeld)
  | .ok .durable =>
    let _ ← sqlTimestamp "received_at" held.receivedAt
    let _ ← sqlTimestamp "read_at" held.readAt
    let _ ← sqlTimestamp "at_ms" atMs
    pure ()

/-- The upsert of `keep`. The id is drawn before the conflict is met, so a conflict leaves a gap. -/
def upsertKept (kept : AutoTable KeptRow) (row : KeptRow) (fault : Option SqlCode) :
    Except SqlCode (AutoTable KeptRow × Option RowId) :=
  match fault with
  | some code => .error code
  | none =>
    if kept.seq ≥ i64Max then .error .diskFull
    else
      match kept.find fun held => held.key == row.key with
      | none => .ok (kept.insert row, some (kept.seq + 1))
      | some (rowId, held) =>
        if held.sameMessage row then
          let times := fun held : KeptRow =>
            { held with readAt := row.readAt, keptAt := row.keptAt }
          .ok ((kept.change rowId times).skip, some rowId)
        else .ok (kept.skip, none)

def keep (held : ReadEphemeral) (atMs : Nat) (fault : Option SqlCode) :
    HumanStore × Except StoreError RowId :=
  match store.checkKeep held atMs with
  | .error reason => (store, .error reason)
  | .ok () =>
    match upsertKept store.kept (held.row atMs) fault with
    | .error code => (store.noteFailure code, .error (.sql code))
    | .ok (kept, none) =>
      ({ store with kept := kept },
        .error (.identityConflict held.appMessageId.asStr held.origin.peer.asStr))
    | .ok (kept, some rowId) => ({ store with kept := kept }, .ok rowId)

def releaseRow (durability : Durability) : Except StoreError (HumanStore × Option ReadEphemeral) :=
  match store.kept.rows[rowId]? with
  | none => .ok (store, none)
  | some row => do
      let readAt ← storedMs "read_at" row.readAt
      let held ← row.toInboundRow.intoRead readAt
      match durability with
      | .durable => pure (store, some held)
      | .remove =>
        let pairs ← recordPair store.pairs held atMs
        pure ({ store with kept := store.kept.erase rowId, pairs := pairs }, some held)

def unkeep (store : HumanStore) (rowId : RowId) (atMs : Nat) (fault : Option SqlCode) :
    HumanStore × Except StoreError (Option ReadEphemeral) :=
  match sqlTimestamp "at" atMs with
  | .error reason => (store, .error reason)
  | .ok _ =>
    match fault with
    | some code => (store.noteFailure code, .error (.sql code))
    | none =>
      let kept := (InboundMessage.markRead {}).1.keep.1
      match store.releaseRow rowId atMs kept.unkeep.2 with
      | .error reason => (store.noteStoreFailure reason, .error reason)
      | .ok (after, released) => (after, .ok released)

end HumanStore

end InterWeave.Human
