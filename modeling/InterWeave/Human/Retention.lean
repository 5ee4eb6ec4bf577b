import InterWeave.Api.Identities
import InterWeave.Human.StoreCore
import InterWeave.Lib.Fallible

/-!
The store refines the retention of messages: its tables hold the content of the messages that are
pending, unread or kept, as the calls and their answers tell, and nothing else.
-/

namespace InterWeave.Human

open Std (ExtTreeMap)
open Fallible (bind_eq_ok)
open OrderedMap

variable {pairs : AutoTable PairRow}

inductive Call where
  | commitPendingOutbound (new : NewOutbound)
  | restorePendingOutbound (cancelled : PendingOutbound)
  | transportTerminal (rowId : RowId) (cause : TerminalCause)
  | commitUnreadInbound (new : NewInbound)
  | markRead (rowId : RowId) (atMs : Nat)
  | keep (held : ReadEphemeral) (atMs : Nat)
  | unkeep (rowId : RowId) (atMs : Nat)

inductive Answer where
  | issued (rowId : RowId)
  | done
  | read (held : ReadEphemeral)
  | released (held : Option ReadEphemeral)
  | failed (reason : StoreError)

def Answer.of {α : Type} (answer : α → Answer) : Except StoreError α → Answer
  | .ok value => answer value
  | .error reason => .failed reason

structure Request where
  call : Call
  fault : Option SqlCode

namespace HumanStore

def perform (store : HumanStore) (request : Request) : HumanStore × Answer :=
  match request.call with
  | .commitPendingOutbound new =>
    (store.commitPendingOutbound new request.fault).map id (.of .issued)
  | .restorePendingOutbound cancelled =>
    (store.restorePendingOutbound cancelled request.fault).map id (.of .issued)
  | .transportTerminal rowId cause =>
    (store.transportTerminal rowId cause request.fault).map id (.of fun _ => .done)
  | .commitUnreadInbound new =>
    (store.commitUnreadInbound new request.fault).map id (.of .issued)
  | .markRead rowId atMs => (store.markRead rowId atMs request.fault).map id (.of .read)
  | .keep held atMs => (store.keep held atMs request.fault).map id (.of .issued)
  | .unkeep rowId atMs => (store.unkeep rowId atMs request.fault).map id (.of .released)

end HumanStore

@[ext]
structure Ledger where
  pending : RowId → Option PendingRow
  unread : RowId → Option InboundRow
  kept : RowId → Option KeptRow

namespace Ledger

def pend (ledger : Ledger) (rowId : RowId) (row : Option PendingRow) : Ledger :=
  { ledger with pending := Function.update ledger.pending rowId row }

def receive (ledger : Ledger) (rowId : RowId) (row : Option InboundRow) : Ledger :=
  { ledger with unread := Function.update ledger.unread rowId row }

def retain (ledger : Ledger) (rowId : RowId) (row : Option KeptRow) : Ledger :=
  { ledger with kept := Function.update ledger.kept rowId row }

def record (ledger : Ledger) : Call → Answer → Ledger
  | .commitPendingOutbound new, .issued rowId => ledger.pend rowId (some (new.row none 0))
  | .restorePendingOutbound cancelled, .issued rowId =>
    ledger.pend rowId (some (cancelled.again.row cancelled.lastAttemptAt cancelled.attempts))
  | .transportTerminal rowId _, .done => ledger.pend rowId none
  | .commitUnreadInbound new, .issued rowId => ledger.receive rowId (some new.row)
  | .markRead rowId _, .read _ => ledger.receive rowId none
  | .keep held atMs, .issued rowId => ledger.retain rowId (some (held.row atMs))
  | .unkeep rowId _, .released (some _) => ledger.retain rowId none
  | _, _ => ledger

end Ledger

def HumanStore.ledger (store : HumanStore) : Ledger where
  pending := fun rowId => store.pending.rows[rowId]?
  unread := fun rowId => store.unread.rows[rowId]?
  kept := fun rowId => store.kept.rows[rowId]?

structure HumanStore.Untouched (before after : HumanStore) : Prop where
  pending : after.pending = before.pending
  unread : after.unread = before.unread
  kept : after.kept = before.kept ∨ after.kept = before.kept.skip
  pairs : after.pairs = before.pairs

inductive HumanStore.Effect (before : HumanStore) : Call → HumanStore → Answer → Prop
  | failed {call after reason} (same : before.Untouched after) :
      Effect before call after (.failed reason)
  | commitPending (new) :
      Effect before (.commitPendingOutbound new)
        { before with pending := before.pending.insert (new.row none 0) }
        (.issued (before.pending.seq + 1))
  | restorePending (cancelled : PendingOutbound) :
      Effect before (.restorePendingOutbound cancelled)
        { before with
          pending := before.pending.insert
            (cancelled.again.row cancelled.lastAttemptAt cancelled.attempts) }
        (.issued (before.pending.seq + 1))
  | terminal (rowId cause) :
      Effect before (.transportTerminal rowId cause)
        { before with pending := before.pending.erase rowId } .done
  | commitUnread (new) :
      Effect before (.commitUnreadInbound new)
        { before with unread := before.unread.insert new.row } (.issued (before.unread.seq + 1))
  | read {rowId atMs row held pairs} (there : before.unread.rows[rowId]? = some row)
      (parsed : row.intoRead atMs = .ok held)
      (recorded : recordPair before.pairs held atMs = .ok pairs) :
      Effect before (.markRead rowId atMs)
        { before with unread := before.unread.erase rowId, pairs := pairs } (.read held)
  | keepNew {held atMs}
      (absent : (before.kept.find fun row => row.key == (held.row atMs).key) = none) :
      Effect before (.keep held atMs) { before with kept := before.kept.insert (held.row atMs) }
        (.issued (before.kept.seq + 1))
  | keepAgain {held atMs rowId row}
      (found : (before.kept.find fun row => row.key == (held.row atMs).key) = some (rowId, row))
      (same : row.sameMessage (held.row atMs) = true) :
      Effect before (.keep held atMs)
        { before with
          kept := (before.kept.change rowId fun row =>
            { row with readAt := (held.row atMs).readAt, keptAt := (held.row atMs).keptAt }).skip }
        (.issued rowId)
  | release {rowId atMs row readAt held pairs} (there : before.kept.rows[rowId]? = some row)
      (time : storedMs "read_at" row.readAt = .ok readAt)
      (parsed : row.toInboundRow.intoRead readAt = .ok held)
      (recorded : recordPair before.pairs held atMs = .ok pairs) :
      Effect before (.unkeep rowId atMs)
        { before with kept := before.kept.erase rowId, pairs := pairs } (.released (some held))
  | releaseNone {rowId atMs} (absent : before.kept.rows[rowId]? = none) :
      Effect before (.unkeep rowId atMs) before (.released none)

namespace HumanStore

variable {after : HumanStore} {fault : Option SqlCode} {rowId : RowId} {atMs : Nat}
    (store : HumanStore)

theorem Untouched.refl : store.Untouched store :=
  ⟨rfl, rfl, .inl rfl, rfl⟩

theorem untouched_noteFailure : store.Untouched (store.noteFailure code) := by
  unfold noteFailure
  split
  · exact ⟨rfl, rfl, .inl rfl, rfl⟩
  · exact .refl store

theorem untouched_noteStoreFailure : store.Untouched (store.noteStoreFailure reason) := by
  cases reason with
  | sql code => exact untouched_noteFailure store
  | _ => exact .refl store

theorem insertRow_ok {α : Type} {clash : Bool} {table after : AutoTable α} {row : α}
    (inserted : insertRow fault clash table row = .ok after) : after = table.insert row := by
  unfold insertRow at inserted
  cases fault with
  | some code => cases inserted
  | none =>
    dsimp only at inserted
    split at inserted
    · cases inserted
    · split at inserted
      · cases inserted
      · exact (Except.ok.inj inserted).symm

theorem insertPending_cases (new : NewOutbound) (lastAttemptAt : Option Nat) (attempts : Nat)
    (fault : Option SqlCode) :
    (∃ after reason, store.Untouched after ∧
      store.insertPending new lastAttemptAt attempts fault = (after, .error reason)) ∨
    store.insertPending new lastAttemptAt attempts fault =
      ({ store with pending := store.pending.insert (new.row lastAttemptAt attempts) },
        .ok (store.pending.seq + 1)) := by
  unfold insertPending
  split
  · exact .inl ⟨_, _, .refl store, rfl⟩
  · dsimp only
    split
    · exact .inl ⟨_, _, untouched_noteFailure store, rfl⟩
    next inserted => exact .inr (by rw [insertRow_ok inserted])

theorem readRow_some {store : HumanStore} {held : ReadEphemeral}
    (read : store.readRow rowId atMs .remove = .ok (after, some held)) :
    ∃ row pairs, store.unread.rows[rowId]? = some row ∧ row.intoRead atMs = .ok held ∧
      recordPair store.pairs held atMs = .ok pairs ∧
      after = { store with unread := store.unread.erase rowId, pairs := pairs } := by
  unfold readRow at read
  split at read
  · cases read
  next row there =>
    obtain ⟨parsed, parses, rest⟩ := bind_eq_ok.mp read
    obtain ⟨pairs, recorded, done⟩ := bind_eq_ok.mp rest
    cases done
    exact ⟨row, pairs, there, parses, recorded, rfl⟩

theorem releaseRow_none {store : HumanStore}
    (released : store.releaseRow rowId atMs .remove = .ok (after, none)) :
    store.kept.rows[rowId]? = none ∧ after = store := by
  unfold releaseRow at released
  split at released
  next absent =>
    cases released
    exact ⟨absent, rfl⟩
  · obtain ⟨readAt, -, rest⟩ := bind_eq_ok.mp released
    obtain ⟨parsed, -, rest⟩ := bind_eq_ok.mp rest
    obtain ⟨pairs, -, done⟩ := bind_eq_ok.mp rest
    cases done

theorem releaseRow_some {store : HumanStore} {held : ReadEphemeral}
    (released : store.releaseRow rowId atMs .remove = .ok (after, some held)) :
    ∃ row readAt pairs, store.kept.rows[rowId]? = some row ∧
      storedMs "read_at" row.readAt = .ok readAt ∧ row.toInboundRow.intoRead readAt = .ok held ∧
      recordPair store.pairs held atMs = .ok pairs ∧
      after = { store with kept := store.kept.erase rowId, pairs := pairs } := by
  unfold releaseRow at released
  split at released
  · cases released
  next row there =>
    obtain ⟨readAt, time, rest⟩ := bind_eq_ok.mp released
    obtain ⟨parsed, parses, rest⟩ := bind_eq_ok.mp rest
    obtain ⟨pairs, recorded, done⟩ := bind_eq_ok.mp rest
    cases done
    exact ⟨row, readAt, pairs, there, time, parses, recorded, rfl⟩

theorem upsertKept_none {kept after : AutoTable KeptRow} {row : KeptRow}
    (upserted : upsertKept kept row fault = .ok (after, none)) : after = kept.skip := by
  unfold upsertKept at upserted
  split at upserted
  · cases upserted
  · split at upserted
    · cases upserted
    · split at upserted
      · cases upserted
      · split at upserted
        · cases upserted
        · cases upserted
          rfl

theorem upsertKept_some {kept after : AutoTable KeptRow} {row : KeptRow}
    (upserted : upsertKept kept row fault = .ok (after, some rowId)) :
    ((kept.find fun held => held.key == row.key) = none ∧ after = kept.insert row ∧
      rowId = kept.seq + 1) ∨
    ∃ held, (kept.find fun held => held.key == row.key) = some (rowId, held) ∧
      held.sameMessage row = true ∧
      after = (kept.change rowId fun held =>
        { held with readAt := row.readAt, keptAt := row.keptAt }).skip := by
  unfold upsertKept at upserted
  split at upserted
  · cases upserted
  · split at upserted
    · cases upserted
    · split at upserted
      next absent =>
        cases upserted
        exact .inl ⟨absent, rfl, rfl⟩
      next found =>
        split at upserted
        next same =>
          cases upserted
          exact .inr ⟨_, found, same, rfl⟩
        · cases upserted

theorem perform_effect (request : Request) :
    store.Effect request.call (store.perform request).1 (store.perform request).2 := by
  obtain ⟨call, fault⟩ := request
  cases call with
  | commitPendingOutbound new =>
    simp only [perform, commitPendingOutbound]
    rcases store.insertPending_cases new none 0 fault with ⟨after, reason, same, done⟩ | done
    · rw [done]
      exact .failed same
    · rw [done]
      exact .commitPending new
  | restorePendingOutbound cancelled =>
    simp only [perform, restorePendingOutbound]
    rcases store.insertPending_cases cancelled.again cancelled.lastAttemptAt cancelled.attempts
      fault with ⟨after, reason, same, done⟩ | done
    · rw [done]
      exact .failed same
    · rw [done]
      exact .restorePending cancelled
  | transportTerminal rowId cause =>
    cases fault with
    | some code => exact .failed (untouched_noteFailure store)
    | none => exact .terminal rowId cause
  | commitUnreadInbound new =>
    simp only [perform, commitUnreadInbound]
    split
    · exact .failed (.refl store)
    · split
      · exact .failed (.refl store)
      · split
        · exact .failed (untouched_noteFailure store)
        next inserted =>
          rw [insertRow_ok inserted]
          exact .commitUnread new
  | markRead rowId atMs =>
    simp only [perform, markRead]
    split
    · exact .failed (.refl store)
    · split
      · exact .failed (untouched_noteFailure store)
      · split
        · exact .failed (untouched_noteStoreFailure store)
        · exact .failed (.refl store)
        next read =>
          obtain ⟨row, pairs, there, parsed, recorded, rfl⟩ := readRow_some read
          exact .read there parsed recorded
  | keep held atMs =>
    simp only [perform, keep]
    split
    · exact .failed (.refl store)
    · split
      · exact .failed (untouched_noteFailure store)
      next kept =>
        obtain rfl := upsertKept_none kept
        exact .failed ⟨rfl, rfl, .inr rfl, rfl⟩
      next kept =>
        rcases upsertKept_some kept with ⟨absent, rfl, rfl⟩ | ⟨row, found, same, rfl⟩
        · exact .keepNew absent
        · exact .keepAgain found same
  | unkeep rowId atMs =>
    simp only [perform, unkeep]
    split
    · exact .failed (.refl store)
    · split
      · exact .failed (untouched_noteFailure store)
      · split
        · exact .failed (untouched_noteStoreFailure store)
        next after released done =>
          cases released with
          | none =>
            obtain ⟨absent, rfl⟩ := releaseRow_none done
            exact .releaseNone absent
          | some held =>
            obtain ⟨row, readAt, pairs, there, time, parsed, recorded, rfl⟩ :=
              releaseRow_some done
            exact .release there time parsed recorded

end HumanStore

theorem KeptRow.eq_of_sameMessage {row new : KeptRow} (key : row.key = new.key)
    (same : row.sameMessage new = true) :
    { row with readAt := new.readAt, keptAt := new.keptAt } = new := by
  obtain ⟨⟨id, peer, endpoint, channel, media, payload, received⟩, readAt, keptAt⟩ := row
  obtain ⟨⟨id', peer', endpoint', channel', media', payload', received'⟩, readAt', keptAt'⟩ := new
  simp only [InboundRow.key, InboundKey.mk.injEq] at key
  simp only [sameMessage, Bool.and_eq_true, beq_iff_eq] at same
  obtain ⟨⟨⟨⟨rfl, rfl⟩, rfl⟩, rfl⟩, rfl⟩ := same
  obtain ⟨rfl, -, -, rfl⟩ := key
  rfl

theorem Ledger.record_failed {ledger : Ledger} : ledger.record call (.failed reason) = ledger := by
  cases call <;> rfl

namespace HumanStore

variable {before : HumanStore} {α : Type} {after : HumanStore}

theorem Untouched.rows_kept (same : before.Untouched after) :
    after.kept.rows = before.kept.rows := by
  rcases same.kept with kept | kept <;> rw [kept]
  rfl

theorem Untouched.ledger (same : before.Untouched after) : after.ledger = before.ledger := by
  simp only [HumanStore.ledger, same.pending, same.unread, same.rows_kept]

variable (table : AutoTable α)

theorem rows_insert :
    (fun rowId => (table.insert row).rows[rowId]?) =
      Function.update (fun rowId => table.rows[rowId]?) (table.seq + 1) (some row) := by
  funext rowId
  rw [AutoTable.get_insert, Function.update_apply]
  simp only [eq_comm]

theorem rows_erase :
    (fun rowId => (table.erase gone).rows[rowId]?) =
      Function.update (fun rowId => table.rows[rowId]?) gone none := by
  funext rowId
  rw [AutoTable.get_erase, Function.update_apply]
  simp only [eq_comm]

theorem rows_change {id : RowId} (held : table.rows[id]? = some row) :
    (fun rowId => (table.change id update).rows[rowId]?) =
      Function.update (fun rowId => table.rows[rowId]?) id (some (update row)) := by
  funext rowId
  rw [AutoTable.get_change table held, Function.update_apply]
  simp only [eq_comm]

theorem Effect.ledger (effect : before.Effect call after answer) :
    after.ledger = before.ledger.record call answer := by
  cases effect with
  | failed same => rw [same.ledger, Ledger.record_failed]
  | commitPending new =>
    exact Ledger.ext (rows_insert _) rfl rfl
  | restorePending cancelled => exact Ledger.ext (rows_insert _) rfl rfl
  | terminal rowId cause => exact Ledger.ext (rows_erase _) rfl rfl
  | commitUnread new => exact Ledger.ext rfl (rows_insert _) rfl
  | read there parsed recorded => exact Ledger.ext rfl (rows_erase _) rfl
  | keepNew absent => exact Ledger.ext rfl rfl (rows_insert _)
  | @keepAgain held atMs rowId row found same =>
    obtain ⟨there, key⟩ := AutoTable.find_some found
    refine Ledger.ext rfl rfl ((rows_change _ there).trans ?_)
    rw [KeptRow.eq_of_sameMessage (beq_iff_eq.mp key) same]
    rfl
  | release there time parsed recorded => exact Ledger.ext rfl rfl (rows_erase _)
  | releaseNone absent => rfl

end HumanStore

/-- The pair of a message is recorded under the newest id and no other pair of the message stays;
pairs of other messages go only to make room. -/
structure Recorded (before after : AutoTable PairRow) (pair : PairRow) : Prop where
  grows : AutoTable.Grows before after
  newest : after.rows[before.seq + 1]? = some pair
  only : ∀ (id : Nat) row, after.rows[id]? = some row → row.key = pair.key → id = before.seq + 1
  others : ∀ (id : Nat) row, after.rows[id]? = some row → id ≠ before.seq + 1 →
    before.rows[id]? = some row

theorem mem_oldPairs {id : Nat} (there : pairs.rows[id]? = some row) (same : row.key = key) :
    id ∈ (pairs.rows.toList.filter fun entry => entry.2.key == key).map Prod.fst := by
  refine List.mem_map.mpr ⟨(id, row), List.mem_filter.mpr ⟨?_, beq_iff_eq.mpr same⟩, rfl⟩
  exact ExtTreeMap.mem_toList_iff_getElem?_eq_some.mpr there

theorem seq_notMem_overflow (held : pairs.seq ∈ pairs.rows) : pairs.seq ∉ overflow pairs := by
  refine AutoTable.seq_notMem_take ?_
  have some : 0 < pairs.rows.size := by
    rw [← ExtTreeMap.length_keys]
    exact List.length_pos_of_mem (ExtTreeMap.mem_keys.mpr held)
  have cap : 0 < readPairCap := by decide
  omega

theorem recordPair_recorded (recorded : recordPair pairs held atMs = .ok after) :
    Recorded pairs after (held.pair atMs) := by
  unfold recordPair at recorded
  obtain ⟨time, -, rest⟩ := bind_eq_ok.mp recorded
  split at rest
  · cases rest
  next inserted insertion =>
    obtain rfl := HumanStore.insertRow_ok insertion
    obtain rfl := Except.ok.inj rest
    generalize olds : (pairs.rows.toList.filter fun entry =>
      entry.2.key == (held.pair atMs).key).map Prod.fst = old
    have seq := AutoTable.seq_eraseAll old pairs
    have lookup : ∀ id : Nat, ((pairs.eraseAll old).insert (held.pair atMs)).rows[id]? =
        if pairs.seq + 1 = id then some (held.pair atMs)
        else if id ∈ old then none else pairs.rows[id]? := by
      intro id
      rw [AutoTable.get_insert, AutoTable.get_eraseAll, seq]
    have newest : pairs.seq + 1 ∉
        overflow ((pairs.eraseAll old).insert (held.pair atMs)) := by
      have last : ((pairs.eraseAll old).insert (held.pair atMs)).seq = pairs.seq + 1 := by
        rw [← seq]
        rfl
      have listed := (mem_iff_get
        ((pairs.eraseAll old).insert (held.pair atMs)).rows (pairs.seq + 1)).mpr
          ⟨held.pair atMs, by rw [lookup, if_pos rfl]⟩
      rw [← last] at listed ⊢
      exact seq_notMem_overflow listed
    refine ⟨?_, ?_, fun id row there same => ?_, fun id row there other => ?_⟩
    · exact ((AutoTable.grows_eraseAll old pairs).trans (AutoTable.grows_insert _ _)).trans
        (AutoTable.grows_eraseAll _ _)
    · rw [AutoTable.get_eraseAll, if_neg newest, lookup, if_pos rfl]
    · rw [AutoTable.get_eraseAll, lookup] at there
      by_contra other
      split at there
      · cases there
      · rw [if_neg (Ne.symm other)] at there
        split at there
        · cases there
        next kept => exact kept (olds ▸ mem_oldPairs there same)
    · rw [AutoTable.get_eraseAll, lookup] at there
      split at there
      · cases there
      · rw [if_neg (Ne.symm other)] at there
        split at there
        · cases there
        · exact there

namespace HumanStore

variable {store : HumanStore} {call : Call} {id : RowId} {row : KeptRow}

def UniqueKept (store : HumanStore) : Prop :=
  ∀ (id other : RowId) row held, store.kept.rows[id]? = some row →
    store.kept.rows[other]? = some held → row.key = held.key → id = other

theorem UniqueKept.find (unique : store.UniqueKept) {new : KeptRow}
    (there : store.kept.rows[id]? = some row) (key : row.key = new.key) :
    (store.kept.find fun held => held.key == new.key) = some (id, row) := by
  cases found : store.kept.find fun held => held.key == new.key with
  | none => simpa [key] using AutoTable.find_none found there
  | some entry =>
    obtain ⟨other, held⟩ := entry
    obtain ⟨here, same⟩ := AutoTable.find_some found
    obtain rfl := unique id other row held there here (key.trans (beq_iff_eq.mp same).symm)
    rw [Option.some.inj (there.symm.trans here)]

theorem Effect.uniqueKept {before after : HumanStore} (effect : before.Effect call after answer)
    (unique : before.UniqueKept) : after.UniqueKept := by
  cases effect with
  | failed same =>
    unfold UniqueKept
    rw [same.rows_kept]
    exact unique
  | commitPending | restorePending | terminal | commitUnread | read | releaseNone => exact unique
  | @keepNew held atMs absent =>
    intro id other row next there here key
    rw [AutoTable.get_insert] at there here
    split at there <;> split at here
    next first second => exact first.symm.trans second
    · cases there
      simpa [key] using AutoTable.find_none absent here
    · cases here
      simpa [key] using AutoTable.find_none absent there
    · exact unique id other row next there here key
  | @keepAgain held atMs rowId old found same =>
    obtain ⟨present, -⟩ := AutoTable.find_some found
    have earlier : ∀ (id : RowId) row, (before.kept.change rowId fun row =>
          { row with readAt := (held.row atMs).readAt,
                     keptAt := (held.row atMs).keptAt }).rows[id]? = some row →
        ∃ first, before.kept.rows[id]? = some first ∧ first.key = row.key := by
      intro id row there
      rw [AutoTable.get_change _ present] at there
      split at there
      next here =>
        cases there
        exact ⟨old, here ▸ present, rfl⟩
      · exact ⟨row, there, rfl⟩
    intro id other row next there here key
    obtain ⟨first, held, firstKey⟩ := earlier id row there
    obtain ⟨second, also, secondKey⟩ := earlier other next here
    exact unique id other first second held also (firstKey.trans (key.trans secondKey.symm))
  | release there time parsed recorded =>
    intro id other row next there here key
    rw [AutoTable.get_erase] at there here
    split at there
    · cases there
    · split at here
      · cases here
      · exact unique id other row next there here key

theorem sameMessage_iff (key : row.key = new.key) :
    row.sameMessage new = true ↔ row.toInboundRow = new.toInboundRow := by
  constructor
  · intro same
    rw [← KeptRow.eq_of_sameMessage key same]
  · intro same
    obtain ⟨row, readAt, keptAt⟩ := row
    obtain ⟨new, readAt', keptAt'⟩ := new
    cases same
    simp [KeptRow.sameMessage]

theorem keep_again (unique : store.UniqueKept) (there : store.kept.rows[id]? = some row)
    (same : row.toInboundRow = (held.row atMs).toInboundRow)
    (checked : store.checkKeep held atMs = .ok ()) (room : store.kept.seq < i64Max) :
    (store.keep held atMs none).2 = .ok id := by
  have key : row.key = (held.row atMs).key := congrArg InboundRow.key same
  simp [keep, checked, upsertKept, unique.find there key, (sameMessage_iff key).mpr same,
    if_neg (Nat.not_le.mpr room)]

theorem keep_other (unique : store.UniqueKept) (there : store.kept.rows[id]? = some row)
    (key : row.key = (held.row atMs).key)
    (differs : row.toInboundRow ≠ (held.row atMs).toInboundRow)
    (checked : store.checkKeep held atMs = .ok ()) (room : store.kept.seq < i64Max) :
    (store.keep held atMs none).2 =
      .error (.identityConflict held.appMessageId.asStr held.origin.peer.asStr) := by
  have other : row.sameMessage (held.row atMs) = false :=
    Bool.eq_false_iff.mpr fun same => differs ((sameMessage_iff key).mp same)
  simp [keep, checked, upsertKept, unique.find there key, other, if_neg (Nat.not_le.mpr room)]

theorem recordPair_succeeds {pairs : AutoTable PairRow} (held : ReadEphemeral)
    (time : atMs ≤ i64Max) (room : pairs.seq < i64Max) :
    ∃ recorded, recordPair pairs held atMs = .ok recorded := by
  have seq := AutoTable.seq_eraseAll ((pairs.rows.toList.filter fun entry =>
    entry.2.key == (held.pair atMs).key).map Prod.fst) pairs
  simp only [recordPair, sqlTimestamp, if_pos time, insertRow, seq,
    if_neg (Nat.not_le.mpr room), Bool.false_eq_true, ↓reduceIte]
  exact ⟨_, rfl⟩

theorem markRead_succeeds {row : InboundRow} (there : store.unread.rows[rowId]? = some row)
    (parses : row.intoRead atMs = .ok held) (time : atMs ≤ i64Max)
    (room : store.pairs.seq < i64Max) : (store.markRead rowId atMs none).2 = .ok held := by
  obtain ⟨pairs, recorded⟩ := recordPair_succeeds held time room
  have done : store.readRow rowId atMs .remove =
      .ok ({ store with unread := store.unread.erase rowId, pairs := pairs }, some held) := by
    simp only [readRow, there, parses, bind, Except.bind, recorded, pure, Except.pure]
  have removes : (InboundMessage.markRead {}).2 = .remove := rfl
  simp only [markRead, sqlTimestamp, if_pos time, removes, done]

theorem unkeep_succeeds (there : store.kept.rows[rowId]? = some row)
    (read : storedMs "read_at" row.readAt = .ok readAt)
    (parses : row.toInboundRow.intoRead readAt = .ok held) (time : atMs ≤ i64Max)
    (room : store.pairs.seq < i64Max) : (store.unkeep rowId atMs none).2 = .ok (some held) := by
  obtain ⟨pairs, recorded⟩ := recordPair_succeeds held time room
  have done : store.releaseRow rowId atMs .remove =
      .ok ({ store with kept := store.kept.erase rowId, pairs := pairs }, some held) := by
    simp only [releaseRow, there, read, parses, bind, Except.bind, recorded, pure, Except.pure]
  have removes : (InboundMessage.markRead {}).1.keep.1.unkeep.2 = .remove := rfl
  simp only [unkeep, sqlTimestamp, if_pos time, removes, done]

structure SameTables (before after : HumanStore) : Prop where
  pending : after.pending.rows = before.pending.rows
  unread : after.unread.rows = before.unread.rows
  kept : after.kept.rows = before.kept.rows
  pairs : after.pairs.rows = before.pairs.rows

theorem Untouched.sameTables {before after : HumanStore} (same : before.Untouched after) :
    before.SameTables after :=
  ⟨by rw [same.pending], by rw [same.unread], same.rows_kept, by rw [same.pairs]⟩

def issuedBy (before after : HumanStore) : Call → List RowId
  | .commitPendingOutbound _ | .restorePendingOutbound _ =>
    AutoTable.issued before.pending after.pending
  | .commitUnreadInbound _ => AutoTable.issued before.unread after.unread
  | .keep _ _ => AutoTable.issued before.kept after.kept
  | _ => []

structure Retains (store : HumanStore) : Prop where
  content : ∀ request, (store.perform request).1.ledger =
    store.ledger.record request.call (store.perform request).2
  failed : ∀ request reason, (store.perform request).2 = .failed reason →
    store.SameTables (store.perform request).1
  read : ∀ rowId atMs fault held, (store.perform ⟨.markRead rowId atMs, fault⟩).2 = .read held →
    (∃ row, store.unread.rows[rowId]? = some row ∧ row.intoRead atMs = .ok held) ∧
      (store.perform ⟨.markRead rowId atMs, fault⟩).1.unread.rows[rowId]? = none ∧
      Recorded store.pairs (store.perform ⟨.markRead rowId atMs, fault⟩).1.pairs (held.pair atMs)
  reads : ∀ (rowId : RowId) atMs row held, store.unread.rows[rowId]? = some row →
    row.intoRead atMs = .ok held → atMs ≤ i64Max → store.pairs.seq < i64Max →
      (store.perform ⟨.markRead rowId atMs, none⟩).2 = .read held
  released : ∀ rowId atMs fault held,
    (store.perform ⟨.unkeep rowId atMs, fault⟩).2 = .released (some held) →
    (∃ row readAt, store.kept.rows[rowId]? = some row ∧
        storedMs "read_at" row.readAt = .ok readAt ∧
        row.toInboundRow.intoRead readAt = .ok held) ∧
      (store.perform ⟨.unkeep rowId atMs, fault⟩).1.kept.rows[rowId]? = none ∧
      Recorded store.pairs (store.perform ⟨.unkeep rowId atMs, fault⟩).1.pairs (held.pair atMs)
  releases : ∀ (rowId : RowId) atMs row readAt held, store.kept.rows[rowId]? = some row →
    storedMs "read_at" row.readAt = .ok readAt → row.toInboundRow.intoRead readAt = .ok held →
      atMs ≤ i64Max → store.pairs.seq < i64Max →
        (store.perform ⟨.unkeep rowId atMs, none⟩).2 = .released (some held)
  absent : ∀ (rowId : RowId) atMs fault,
    (store.perform ⟨.unkeep rowId atMs, fault⟩).2 = .released none →
      store.kept.rows[rowId]? = none ∧ (store.perform ⟨.unkeep rowId atMs, fault⟩).1 = store
  body : ∀ held atMs fault (id : RowId) row, store.kept.rows[id]? = some row →
    ∃ after, (store.perform ⟨.keep held atMs, fault⟩).1.kept.rows[id]? = some after ∧
      after.toInboundRow = row.toInboundRow
  again : ∀ held atMs (id : RowId) row, store.kept.rows[id]? = some row →
    row.toInboundRow = (held.row atMs).toInboundRow →
      (store.checkKeep held atMs = .ok () → store.kept.seq < i64Max →
        (store.perform ⟨.keep held atMs, none⟩).2 = .issued id) ∧
      ∀ fault answered, (store.perform ⟨.keep held atMs, fault⟩).2 = .issued answered →
        answered = id ∧ (store.perform ⟨.keep held atMs, fault⟩).1.pairs = store.pairs ∧
        (store.perform ⟨.keep held atMs, fault⟩).1.ledger = store.ledger.retain id
          (some { row with readAt := held.readAt, keptAt := atMs })
  conflict : ∀ held atMs (id : RowId) row, store.kept.rows[id]? = some row →
    row.key = (held.row atMs).key → row.toInboundRow ≠ (held.row atMs).toInboundRow →
      (store.checkKeep held atMs = .ok () → store.kept.seq < i64Max →
        (store.perform ⟨.keep held atMs, none⟩).2 =
          .failed (.identityConflict held.appMessageId.asStr held.origin.peer.asStr)) ∧
      ∀ fault answered, (store.perform ⟨.keep held atMs, fault⟩).2 ≠ .issued answered
  issued : ∀ request id, (store.perform request).2 = .issued id →
    id ∈ store.issuedBy (store.perform request).1 request.call ∨
      (∃ held atMs, request.call = .keep held atMs) ∧ id ∈ store.kept.rows

section

variable {before after : HumanStore} {rowId : RowId} {atMs : Nat} {held : ReadEphemeral}

theorem Effect.failed_inv (effect : before.Effect call after (.failed reason)) :
    before.SameTables after := by
  cases effect with
  | failed same => exact same.sameTables

theorem Effect.read_inv (effect : before.Effect (.markRead rowId atMs) after (.read held)) :
    (∃ row, before.unread.rows[rowId]? = some row ∧ row.intoRead atMs = .ok held) ∧
      after.unread.rows[rowId]? = none ∧ Recorded before.pairs after.pairs (held.pair atMs) := by
  cases effect with
  | read there parsed recorded =>
    refine ⟨⟨_, there, parsed⟩, ?_, recordPair_recorded recorded⟩
    exact (AutoTable.get_erase _ _ _).trans (if_pos rfl)

theorem Effect.released_inv
    (effect : before.Effect (.unkeep rowId atMs) after (.released (some held))) :
    (∃ row readAt, before.kept.rows[rowId]? = some row ∧
        storedMs "read_at" row.readAt = .ok readAt ∧
        row.toInboundRow.intoRead readAt = .ok held) ∧
      after.kept.rows[rowId]? = none ∧ Recorded before.pairs after.pairs (held.pair atMs) := by
  cases effect with
  | release there time parsed recorded =>
    refine ⟨⟨_, _, there, time, parsed⟩, ?_, recordPair_recorded recorded⟩
    exact (AutoTable.get_erase _ _ _).trans (if_pos rfl)

theorem Effect.absent_inv (effect : before.Effect (.unkeep rowId atMs) after (.released none)) :
    before.kept.rows[rowId]? = none ∧ after = before := by
  cases effect with
  | releaseNone absent => exact ⟨absent, rfl⟩

theorem Effect.keep_body (effect : before.Effect (.keep held atMs) after answer)
    (there : before.kept.rows[rowId]? = some row) :
    ∃ stays, after.kept.rows[rowId]? = some stays ∧ stays.toInboundRow = row.toInboundRow := by
  cases effect with
  | failed same => exact ⟨row, by rw [same.rows_kept]; exact there, rfl⟩
  | keepNew absent =>
    refine ⟨row, ?_, rfl⟩
    rw [AutoTable.get_insert, if_neg]
    · exact there
    · rintro rfl
      rw [AutoTable.get_next] at there
      cases there
  | @keepAgain _ _ other old found same =>
    obtain ⟨present, -⟩ := AutoTable.find_some found
    have changed := AutoTable.get_change before.kept present (fun row =>
      { row with readAt := (held.row atMs).readAt, keptAt := (held.row atMs).keptAt }) rowId
    by_cases here : other = rowId
    · subst here
      rw [if_pos rfl] at changed
      exact ⟨_, changed, by rw [Option.some.inj (there.symm.trans present)]⟩
    · rw [if_neg here] at changed
      exact ⟨row, changed.trans there, rfl⟩

theorem Effect.keep_inv (effect : before.Effect (.keep held atMs) after (.issued rowId)) :
    after.pairs = before.pairs ∧
      ((before.kept.find fun row => row.key == (held.row atMs).key) = none ∨
        ∃ row, (before.kept.find fun row => row.key == (held.row atMs).key) = some (rowId, row) ∧
          row.sameMessage (held.row atMs) = true) := by
  cases effect with
  | keepNew absent => exact ⟨rfl, .inl absent⟩
  | keepAgain found same => exact ⟨rfl, .inr ⟨_, found, same⟩⟩

theorem mem_issued_insert {α : Type} (table : AutoTable α) {row : α} :
    table.seq + 1 ∈ AutoTable.issued table (table.insert row) := by
  refine AutoTable.mem_issued.mpr ⟨(mem_insert _ _ _ _).mpr (.inl rfl), ?_⟩
  exact (notMem_iff_get _ _).mpr table.get_next

theorem Effect.issued_inv (effect : before.Effect call after (.issued rowId)) :
    rowId ∈ before.issuedBy after call ∨
      (∃ held atMs, call = .keep held atMs) ∧ rowId ∈ before.kept.rows := by
  cases effect with
  | commitPending | restorePending | commitUnread | keepNew => exact .inl (mem_issued_insert _)
  | @keepAgain held atMs _ _ found same =>
    exact .inr ⟨⟨held, atMs, rfl⟩,
      (mem_iff_get _ _).mpr ⟨_, (AutoTable.find_some found).1⟩⟩

end

theorem UniqueKept.retains (unique : store.UniqueKept) : store.Retains where
  content := fun request => (store.perform_effect request).ledger
  failed := by
    intro request reason answer
    have effect := store.perform_effect request
    rw [answer] at effect
    exact effect.failed_inv
  read := by
    intro rowId atMs fault held answer
    have effect := store.perform_effect ⟨.markRead rowId atMs, fault⟩
    rw [answer] at effect
    exact effect.read_inv
  reads := fun _ _ _ _ there parses time room =>
    congrArg (Answer.of .read) (markRead_succeeds there parses time room)
  releases := fun _ _ _ _ _ there read parses time room =>
    congrArg (Answer.of .released) (unkeep_succeeds there read parses time room)
  absent := by
    intro rowId atMs fault answer
    have effect := store.perform_effect ⟨.unkeep rowId atMs, fault⟩
    rw [answer] at effect
    exact effect.absent_inv
  released := by
    intro rowId atMs fault held answer
    have effect := store.perform_effect ⟨.unkeep rowId atMs, fault⟩
    rw [answer] at effect
    exact effect.released_inv
  body := fun held atMs fault id row there =>
    (store.perform_effect ⟨.keep held atMs, fault⟩).keep_body there
  again := by
    intro held atMs id row there same
    have key : row.key = (held.row atMs).key := congrArg InboundRow.key same
    constructor
    · intro checked room
      exact congrArg (Answer.of .issued) (keep_again unique there same checked room)
    · intro fault answered answer
      have effect := store.perform_effect ⟨.keep held atMs, fault⟩
      rw [answer] at effect
      obtain ⟨pairs, absent | ⟨found, first, -⟩⟩ := effect.keep_inv
      · rw [unique.find there key] at absent
        cases absent
      · rw [unique.find there key] at first
        cases first
        refine ⟨rfl, pairs, effect.ledger.trans ?_⟩
        have refreshed := KeptRow.eq_of_sameMessage key ((sameMessage_iff key).mpr same)
        rw [Ledger.record, ← refreshed]
        rfl
  conflict := by
    intro held atMs id row there key differs
    constructor
    · intro checked room
      exact congrArg (Answer.of .issued) (keep_other unique there key differs checked room)
    · intro fault answered answer
      have effect := store.perform_effect ⟨.keep held atMs, fault⟩
      rw [answer] at effect
      obtain ⟨-, absent | ⟨found, first, same⟩⟩ := effect.keep_inv
      · rw [unique.find there key] at absent
        cases absent
      · rw [unique.find there key] at first
        cases first
        exact differs ((sameMessage_iff key).mp same)
  issued := by
    intro request id answer
    have effect := store.perform_effect request
    rw [answer] at effect
    exact effect.issued_inv

end HumanStore

structure Run where
  store : HumanStore
  ledger : Ledger
  pendingIds : List RowId
  unreadIds : List RowId
  keptIds : List RowId
  pairIds : List RowId

def HumanStore.start (store : HumanStore) : Run :=
  ⟨store, store.ledger, [], [], [], []⟩

namespace Run

def step (run : Run) (request : Request) : Run :=
  let (after, answer) := run.store.perform request
  { store := after
    ledger := run.ledger.record request.call answer
    pendingIds := run.pendingIds ++ AutoTable.issued run.store.pending after.pending
    unreadIds := run.unreadIds ++ AutoTable.issued run.store.unread after.unread
    keptIds := run.keptIds ++ AutoTable.issued run.store.kept after.kept
    pairIds := run.pairIds ++ AutoTable.issued run.store.pairs after.pairs }

def steps (run : Run) (requests : List Request) : Run :=
  requests.foldl step run

end Run

theorem HumanStore.Effect.grows {before after : HumanStore}
    (effect : before.Effect call after answer) :
    AutoTable.Grows before.pending after.pending ∧ AutoTable.Grows before.unread after.unread ∧
      AutoTable.Grows before.kept after.kept ∧ AutoTable.Grows before.pairs after.pairs := by
  cases effect with
  | failed same =>
    rw [same.pending, same.unread, same.pairs]
    refine ⟨.refl _, .refl _, ?_, .refl _⟩
    rcases same.kept with kept | kept <;> rw [kept]
    · exact .refl _
    · exact AutoTable.grows_skip _
  | commitPending | restorePending =>
    exact ⟨AutoTable.grows_insert _ _, .refl _, .refl _, .refl _⟩
  | terminal => exact ⟨AutoTable.grows_erase _ _, .refl _, .refl _, .refl _⟩
  | commitUnread => exact ⟨.refl _, AutoTable.grows_insert _ _, .refl _, .refl _⟩
  | read there parsed recorded =>
    exact ⟨.refl _, AutoTable.grows_erase _ _, .refl _, (recordPair_recorded recorded).grows⟩
  | keepNew => exact ⟨.refl _, .refl _, AutoTable.grows_insert _ _, .refl _⟩
  | keepAgain =>
    exact ⟨.refl _, .refl _, (AutoTable.grows_change _ _ _).trans (AutoTable.grows_skip _),
      .refl _⟩
  | release there time parsed recorded =>
    exact ⟨.refl _, .refl _, AutoTable.grows_erase _ _, (recordPair_recorded recorded).grows⟩
  | releaseNone => exact ⟨.refl _, .refl _, .refl _, .refl _⟩

structure Run.Sound (start : HumanStore) (run : Run) : Prop where
  ledger : run.store.ledger = run.ledger
  unique : run.store.UniqueKept
  pending : AutoTable.Issues start.pending run.pendingIds run.store.pending
  unread : AutoTable.Issues start.unread run.unreadIds run.store.unread
  kept : AutoTable.Issues start.kept run.keptIds run.store.kept
  pairs : AutoTable.Issues start.pairs run.pairIds run.store.pairs

theorem Run.Sound.step {run : Run} (sound : run.Sound start) (request : Request) :
    (run.step request).Sound start := by
  have effect := run.store.perform_effect request
  obtain ⟨pending, unread, kept, pairs⟩ := effect.grows
  refine ⟨?_, effect.uniqueKept sound.unique, sound.pending.step pending,
    sound.unread.step unread, sound.kept.step kept, sound.pairs.step pairs⟩
  exact effect.ledger.trans (by rw [sound.ledger]; rfl)

theorem Run.Sound.steps (requests : List Request) {run : Run} (sound : run.Sound start) :
    (run.steps requests).Sound start := by
  induction requests generalizing run with
  | nil => exact sound
  | cons request later ih => exact ih (sound.step request)

theorem HumanStore.UniqueKept.sound {start : HumanStore} (unique : start.UniqueKept) :
    start.start.Sound start :=
  ⟨rfl, unique, .start _, .start _, .start _, .start _⟩

/-- After any calls the tables hold what the calls and answers retain, every further call keeps to
the contract, and no id was given to two rows of a table. -/
theorem store_refines_retention (start : HumanStore) (unique : start.UniqueKept)
    (requests : List Request) :
    (start.start.steps requests).store.ledger = (start.start.steps requests).ledger ∧
      (start.start.steps requests).store.Retains ∧
      AutoTable.Issues start.pending (start.start.steps requests).pendingIds
        (start.start.steps requests).store.pending ∧
      AutoTable.Issues start.unread (start.start.steps requests).unreadIds
        (start.start.steps requests).store.unread ∧
      AutoTable.Issues start.kept (start.start.steps requests).keptIds
        (start.start.steps requests).store.kept ∧
      AutoTable.Issues start.pairs (start.start.steps requests).pairIds
        (start.start.steps requests).store.pairs := by
  have sound := unique.sound.steps requests
  exact ⟨sound.ledger, sound.unique.retains, sound.pending, sound.unread, sound.kept, sound.pairs⟩

def HumanStore.empty : HumanStore :=
  ⟨.empty, .empty, .empty, .empty, .healthy⟩

theorem HumanStore.uniqueKept_empty : HumanStore.empty.UniqueKept := by
  intro id other row held there
  simp [empty, AutoTable.empty] at there

def Sample.arrival : NewInbound where
  appMessageId := ⟨"0000000000000000000000000000000a", by decide⟩
  origin := ⟨.numbered 1, none, none⟩
  mediaType := none
  payload := [2, 3]
  receivedAt := 6

def Sample.requests : List Request :=
  [⟨.commitUnreadInbound Sample.arrival, none⟩, ⟨.markRead 1 7, none⟩,
    ⟨.keep { Sample.arrival with readAt := 7 } 8, none⟩]

theorem store_refines_retention_sample :
    (HumanStore.empty.start.steps Sample.requests).store.ledger =
        (HumanStore.empty.start.steps Sample.requests).ledger ∧
      (HumanStore.empty.start.steps Sample.requests).keptIds = [1] ∧
      (HumanStore.empty.start.steps Sample.requests).store.Retains := by
  obtain ⟨ledger, retains, -⟩ :=
    store_refines_retention HumanStore.empty HumanStore.uniqueKept_empty Sample.requests
  exact ⟨ledger, by decide +kernel, retains⟩

end InterWeave.Human
