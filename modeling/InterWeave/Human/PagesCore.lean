import InterWeave.Human.StoreCore
import InterWeave.Lib.KeysetPage

/-!
The paged reads of `human::store`: pending outbound, unread and kept inbound, and the walk of a
backup over the last two.
-/

namespace InterWeave.Human

open Saturating

structure Cursor where
  sortKey : Nat
  rowId : RowId
  deriving DecidableEq, Repr

inductive BackupTable where
  | unread
  | kept
  deriving DecidableEq, Repr

structure BackupCursor where
  table : BackupTable
  within : Option Cursor
  deriving DecidableEq, Repr

structure Page (τ γ : Type) where
  items : List τ
  next : Option γ

abbrev PageLimits := KeysetPage.Limits

def PageLimits.fetch (limits : PageLimits) : Nat :=
  min (add64 limits.maxRecords 1) i64Max

/-- `None` starts before every row, a timestamp of zero included. -/
def cursorBounds : Option Cursor → Except StoreError (Int × Int)
  | none => .ok (-1, -1)
  | some cursor => (sqlTimestamp "cursor sort_key" cursor.sortKey).map fun key =>
    (key, (cursor.rowId : Int))

/-- What the queries differ in: the column they order by, the payload, and the record they build
with its place in the order. -/
structure Reader (ρ τ : Type) where
  time : ρ → Int
  payload : ρ → List UInt8
  parse : RowId → ρ → Except StoreError τ
  place : τ → Cursor

namespace Reader

variable {ρ τ : Type} (reader : Reader ρ τ)

def key (entry : RowId × ρ) : Int ×ₗ Int :=
  toLex (reader.time entry.2, (entry.1 : Int))

def size (entry : RowId × ρ) : Nat :=
  (reader.payload entry.2).length

/-- The loop over the rows of a query; a row is parsed when it goes into the page. -/
def fill (limits : PageLimits) (taken : List τ) (bytes : Nat) :
    List (RowId × ρ) → Except StoreError (List τ × Bool)
  | [] => .ok (taken, false)
  | entry :: later =>
    if !taken.isEmpty && (decide (taken.length ≥ limits.maxRecords) ||
        decide (add64 bytes (reader.size entry) > limits.maxBytes)) then
      .ok (taken, true)
    else
      match reader.parse entry.1 entry.2 with
      | .error reason => .error reason
      | .ok item =>
        fill limits (taken ++ [item]) (add64 bytes (reader.size entry)) later

def page (table : AutoTable ρ) (after : Option Cursor) (limits : PageLimits) :
    Except StoreError (Page τ Cursor) := do
  let (sortKey, rowId) ← cursorBounds after
  let rows := (KeysetPage.rest reader.key table.rows.toList (toLex (sortKey, rowId))).take
    (PageLimits.fetch limits)
  let (items, more) ← reader.fill limits [] 0 rows
  pure ⟨items, if more then some ((items.getLast?.map reader.place).getD ⟨0, 0⟩) else none⟩

end Reader

def PendingRow.destination (row : PendingRow) : Except StoreError OutboundDestination :=
  match row.channelId with
  | some channel => (corruptId (ChannelId.parse channel)).map .broadcast
  | none => do
      let peer ← corruptId (TransportIdentity.parse row.destinationPeer)
      let endpoint ← parseOption (fun value => corruptId (EndpointId.parse value))
        row.destinationEndpoint
      pure (.direct peer endpoint)

def pendingFrom (rowId : RowId) (row : PendingRow) : Except StoreError PendingOutbound := do
  let destination ← row.destination
  let appMessageId ← AppMessageId.parse row.appMessageId
  let transportMessageId ← storedMessageId row.transportMessageId
  let mediaType ← parseMediaType row.mediaType
  let createdAt ← storedMs "created_at" row.createdAt
  let lastAttemptAt ← parseOption (storedMs "last_attempt_at") row.lastAttemptAt
  let attempts ← storedCount "attempts" row.attempts
  pure
    { rowId := rowId, appMessageId := appMessageId, transportMessageId := transportMessageId,
      destination := destination, mediaType := mediaType, payload := row.payload,
      createdAt := createdAt, lastAttemptAt := lastAttemptAt, attempts := attempts }

def storedFrom (rowId : RowId) (row : InboundRow) (readAt keptAt : Option Int) :
    Except StoreError StoredInbound := do
  let appMessageId ← AppMessageId.parse row.appMessageId
  let origin ← parseOrigin row.sourcePeer row.sourceEndpoint row.channelId
  let mediaType ← parseMediaType row.mediaType
  let receivedAt ← storedMs "received_at" row.receivedAt
  let readAt ← parseOption (storedMs "read_at") readAt
  let keptAt ← parseOption (storedMs "kept_at") keptAt
  pure
    { rowId := rowId, appMessageId := appMessageId, origin := origin, mediaType := mediaType,
      payload := row.payload, receivedAt := receivedAt, readAt := readAt, keptAt := keptAt }

def pendingReader : Reader PendingRow PendingOutbound where
  time := PendingRow.createdAt
  payload := PendingRow.payload
  parse := pendingFrom
  place := fun item => ⟨item.createdAt, item.rowId⟩

def unreadReader : Reader InboundRow StoredInbound where
  time := InboundRow.receivedAt
  payload := InboundRow.payload
  parse := fun rowId row => storedFrom rowId row none none
  place := fun item => ⟨item.receivedAt, item.rowId⟩

def keptReader : Reader KeptRow StoredInbound where
  time := fun row => row.receivedAt
  payload := fun row => row.payload
  parse := fun rowId row => storedFrom rowId row.toInboundRow (some row.readAt) (some row.keptAt)
  place := fun item => ⟨item.receivedAt, item.rowId⟩

namespace HumanStore

variable (store : HumanStore) (after : Option Cursor) (limits : PageLimits)

def pendingOutboundPage : Except StoreError (Page PendingOutbound Cursor) :=
  pendingReader.page store.pending after limits

def unreadInboundPage : Except StoreError (Page StoredInbound Cursor) :=
  unreadReader.page store.unread after limits

def keptInboundPage : Except StoreError (Page StoredInbound Cursor) :=
  keptReader.page store.kept after limits

def backupEligiblePage (after : Option BackupCursor) (limits : PageLimits) :
    Except StoreError (Page StoredInbound BackupCursor) :=
  let position := after.getD ⟨.unread, none⟩
  match position.table with
  | .unread => do
      let page ← store.unreadInboundPage position.within limits
      pure ⟨page.items, some ⟨if page.next.isSome then .unread else .kept, page.next⟩⟩
  | .kept => do
      let page ← store.keptInboundPage position.within limits
      pure ⟨page.items, page.next.map fun within => ⟨.kept, some within⟩⟩

end HumanStore

/-- The pages that follow one another's cursors, each of the store as it then is, and the stores
that were not needed once there was no cursor to follow. -/
def followPages {σ τ γ : Type} (read : σ → Option γ → Except StoreError (Page τ γ)) :
    Option γ → List σ → Except StoreError (List τ × Option (List σ))
  | _, [] => .ok ([], none)
  | after, now :: later =>
    match read now after with
    | .error reason => .error reason
    | .ok ⟨items, none⟩ => .ok (items, some later)
    | .ok ⟨items, some next⟩ =>
      match followPages read (some next) later with
      | .error reason => .error reason
      | .ok (more, unused) => .ok (items ++ more, unused)

abbrev Moment : Type := HumanStore × PageLimits

namespace Moment

variable (now : Moment) (after : Option Cursor)

def pending : Except StoreError (Page PendingOutbound Cursor) :=
  now.1.pendingOutboundPage after now.2

def unread : Except StoreError (Page StoredInbound Cursor) :=
  now.1.unreadInboundPage after now.2

def kept : Except StoreError (Page StoredInbound Cursor) :=
  now.1.keptInboundPage after now.2

def backup (after : Option BackupCursor) : Except StoreError (Page StoredInbound BackupCursor) :=
  now.1.backupEligiblePage after now.2

end Moment

def walkPending : List Moment → Except StoreError (List PendingOutbound × Option (List Moment)) :=
  followPages Moment.pending none

def walkUnread : List Moment → Except StoreError (List StoredInbound × Option (List Moment)) :=
  followPages Moment.unread none

def walkKept : List Moment → Except StoreError (List StoredInbound × Option (List Moment)) :=
  followPages Moment.kept none

def walkBackup : List Moment → Except StoreError (List StoredInbound × Option (List Moment)) :=
  followPages Moment.backup none

end InterWeave.Human
