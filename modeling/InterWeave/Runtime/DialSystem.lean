import InterWeave.Lib.Pool
import InterWeave.Runtime.ConnectionManagerCore

/-!
Managers, tickets and slots in the hands of many threads. Each call runs as a thread of
its own; a manager is lent to one call at a time, a ticket or a slot to the call that
consumes it, and snapshots are held by anyone.
-/

namespace InterWeave

open Concurrent

/-- What a manager shares with its snapshots, tickets and slots. `borrowed` counts the
liveness references held by tests in progress. The snapshots installed before the current
one may still be held somewhere, so they are all remembered. -/
structure Shared where
  counters : Counter → Nat
  shuttingDown : Bool
  managed : Bool
  borrowed : Nat
  current : PolicySnapshot
  earlier : List PolicySnapshot

abbrev World := ManagerId → Shared

namespace Shared

def alive (shared : Shared) : Bool :=
  shared.managed || decide (0 < shared.borrowed)

def installed (shared : Shared) : List PolicySnapshot :=
  shared.current :: shared.earlier

def setCounter (shared : Shared) (counter : Counter) (value : Nat) : Shared :=
  { shared with counters := Function.update shared.counters counter value }

def install (shared : Shared) (next : PolicySnapshot) : Shared :=
  { shared with current := next, earlier := shared.installed }

end Shared

def counterRange : Nat := 2 ^ 64

def Op.manager : Op → ManagerId
  | .load manager _ | .compareExchangeWeak manager _ _ _ | .fetchSub manager _ _
  | .loadShuttingDown manager | .storeShuttingDown manager | .upgradeManager manager
  | .dropManagerRef manager | .dropManager manager | .readCurrent manager
  | .readPublished manager | .writePublished manager _ => manager

inductive Shared.Exec (shared : Shared) : (op : Op) → op.Ans → Shared → Prop
  | load {manager : ManagerId} {counter : Counter} :
      shared.Exec (.load manager counter) (shared.counters counter) shared
  | exchanged {manager : ManagerId} {counter : Counter} {current new : Nat}
      (seen : shared.counters counter = current) :
      shared.Exec (.compareExchangeWeak manager counter current new) (.ok ())
        (shared.setCounter counter new)
  | exchangeFailed {manager : ManagerId} {counter : Counter} {current new : Nat} :
      shared.Exec (.compareExchangeWeak manager counter current new)
        (.error (shared.counters counter)) shared
  | fetchSub {manager : ManagerId} {counter : Counter} {amount : Nat} :
      shared.Exec (.fetchSub manager counter amount) ()
        (shared.setCounter counter
          ((shared.counters counter + counterRange - amount) % counterRange))
  | loadShuttingDown {manager : ManagerId} :
      shared.Exec (.loadShuttingDown manager) shared.shuttingDown shared
  | storeShuttingDown {manager : ManagerId} :
      shared.Exec (.storeShuttingDown manager) () { shared with shuttingDown := true }
  | upgraded {manager : ManagerId} (alive : shared.alive = true) :
      shared.Exec (.upgradeManager manager) true { shared with borrowed := shared.borrowed + 1 }
  | upgradeFailed {manager : ManagerId} (gone : shared.alive = false) :
      shared.Exec (.upgradeManager manager) false shared
  | dropManagerRef {manager : ManagerId} :
      shared.Exec (.dropManagerRef manager) () { shared with borrowed := shared.borrowed - 1 }
  | dropManager {manager : ManagerId} :
      shared.Exec (.dropManager manager) () { shared with managed := false }
  | readCurrent {manager : ManagerId} :
      shared.Exec (.readCurrent manager) (some shared.current) shared
  | readCurrentGone {manager : ManagerId} (gone : shared.managed = false) :
      shared.Exec (.readCurrent manager) none shared
  | readPublished {manager : ManagerId} :
      shared.Exec (.readPublished manager) shared.current shared
  | writePublished {manager : ManagerId} {next : PolicySnapshot} :
      shared.Exec (.writePublished manager next) () (shared.install next)

def World.Exec (world : World) (op : Op) (ans : op.Ans) (changed : World) : Prop :=
  ∃ shared, (world op.manager).Exec op ans shared ∧
    changed = Function.update world op.manager shared

inductive Call where
  | bindLocalPeer (localPeer : TransportIdentity)
  | setTrust (trust : TrustSources) (live : List TransportIdentity)
  | learnAddress (peer : TransportIdentity) (address : String) (nowMs : Nat)
  | recordSuccess (ticket : DialTicket) (nowMs : Nat)
  | recordFailure (ticket : DialTicket) (nowMs : Nat)
  | recordRelayHopUnreached (ticket : DialTicket) (relay : TransportIdentity)
      (relayCameUp : Bool) (nowMs : Nat)
  | relayReached (relay : TransportIdentity) (nowMs : Nat)
  | recordAddressFailureUnadmitted (peer : TransportIdentity) (address : String) (nowMs : Nat)
  | recordPermanentAddressFailureUnadmitted (peer : TransportIdentity) (address : String)
  | recordPermanentFailure (ticket : DialTicket) (nowMs : Nat)
  | recordAuthorizationWithdrawn (ticket : DialTicket) (nowMs : Nat)
  | recordLocallyRefused (ticket : DialTicket) (nowMs : Nat)
  | recordIdentityMismatch (ticket : DialTicket) (nowMs : Nat)
  | admitInbound
  | recordInboundRetained (peer : TransportIdentity) (nowMs : Nat)
  | networkAdded (nowMs : Nat)
  | recordConnectionClosed (slot : ConnectionSlot)
  | beginShutdown
  | takeDueRetries (nowMs limit : Nat)
  | clearRetryClaim (peer : TransportIdentity)
  | reclaimRetry (peer : TransportIdentity)
  | releaseRetryClaim (peer : TransportIdentity)
  | setMaxAddressesPerPeer (limit : Nat)
  | drainNotes

namespace Call

def ticket : Call → Option DialTicket
  | recordSuccess ticket _ | recordFailure ticket _ | recordRelayHopUnreached ticket _ _ _
  | recordPermanentFailure ticket _ | recordAuthorizationWithdrawn ticket _
  | recordLocallyRefused ticket _ | recordIdentityMismatch ticket _ => some ticket
  | _ => none

def slot : Call → Option ConnectionSlot
  | recordConnectionClosed slot => some slot
  | _ => none

def nowMs : Call → Option Nat
  | learnAddress _ _ nowMs | recordSuccess _ nowMs | recordFailure _ nowMs
  | recordRelayHopUnreached _ _ _ nowMs | relayReached _ nowMs
  | recordAddressFailureUnadmitted _ _ nowMs | recordPermanentFailure _ nowMs
  | recordAuthorizationWithdrawn _ nowMs | recordLocallyRefused _ nowMs
  | recordIdentityMismatch _ nowMs | recordInboundRetained _ nowMs | networkAdded nowMs
  | takeDueRetries nowMs _ => some nowMs
  | _ => none

end Call

inductive Reply where
  | done
  | flag (answer : Bool)
  | count (answer : Nat)
  | slot (answer : Option ConnectionSlot)
  | revoked (answer : List Revoked)
  | scheduled (answer : Option RetryScheduled)
  | peers (answer : List TransportIdentity)
  | notes (answer : List GateNote)

def Reply.slots : Reply → Multiset ConnectionSlot
  | slot (some answer) => {answer}
  | _ => 0

namespace ConnectionManager

def replying {α : Type} (reply : α → Reply) (result : ConnectionManager × α) :
    ConnectionManager × Reply :=
  (result.1, reply result.2)

def answer (manager : ConnectionManager) : Call → Action (ConnectionManager × Reply)
  | .bindLocalPeer localPeer => (·, .done) <$> manager.bindLocalPeer localPeer
  | .setTrust trust live => replying .revoked <$> manager.setTrust trust live
  | .learnAddress peer address nowMs =>
    replying .flag <$> manager.learnAddress peer address nowMs
  | .recordSuccess ticket nowMs =>
    replying (.slot ∘ some) <$> manager.recordSuccess ticket nowMs
  | .recordFailure ticket nowMs => replying .scheduled <$> manager.recordFailure ticket nowMs
  | .recordRelayHopUnreached ticket relay relayCameUp nowMs =>
    replying .scheduled <$> manager.recordRelayHopUnreached ticket relay relayCameUp nowMs
  | .relayReached relay nowMs => .ret (manager.relayReached relay nowMs, .done)
  | .recordAddressFailureUnadmitted peer address nowMs =>
    (·, .done) <$> manager.recordAddressFailureUnadmitted peer address nowMs
  | .recordPermanentAddressFailureUnadmitted peer address =>
    (·, .done) <$> manager.recordPermanentAddressFailureUnadmitted peer address
  | .recordPermanentFailure ticket nowMs =>
    (·, .done) <$> manager.recordPermanentFailure ticket nowMs
  | .recordAuthorizationWithdrawn ticket nowMs =>
    (·, .done) <$> manager.recordAuthorizationWithdrawn ticket nowMs
  | .recordLocallyRefused ticket nowMs =>
    (·, .done) <$> manager.recordLocallyRefused ticket nowMs
  | .recordIdentityMismatch ticket nowMs =>
    replying .flag <$> manager.recordIdentityMismatch ticket nowMs
  | .admitInbound => replying .slot <$> manager.admitInbound
  | .recordInboundRetained peer nowMs =>
    replying .flag <$> manager.recordInboundRetained peer nowMs
  | .networkAdded nowMs => replying .count <$> manager.networkAdded nowMs
  | .recordConnectionClosed slot => (·, .done) <$> manager.recordConnectionClosed slot
  | .beginShutdown => (·, .done) <$> manager.beginShutdown
  | .takeDueRetries nowMs limit => .ret (replying .peers (manager.takeDueRetries nowMs limit))
  | .clearRetryClaim peer => .ret (manager.clearRetryClaim peer, .done)
  | .reclaimRetry peer => .ret (manager.reclaimRetry peer, .done)
  | .releaseRetryClaim peer => .ret (manager.releaseRetryClaim peer, .done)
  | .setMaxAddressesPerPeer limit => .ret (manager.setMaxAddressesPerPeer limit, .done)
  | .drainNotes => .ret (replying .notes manager.drainNotes)

end ConnectionManager

structure Rest where
  managers : Multiset ConnectionManager
  tickets : Multiset DialTicket
  slots : Multiset ConnectionSlot

inductive Task where
  | admitDial (snapshot : PolicySnapshot) (request : DialRequest) (nowMs : Nat)
  | handleAdmit (manager : ManagerId) (request : DialRequest) (nowMs : Nat)
  | dropTicket (ticket : DialTicket)
  | dropSlot (slot : ConnectionSlot)
  | rebindAddress (ticket : DialTicket) (address : String)
  | manage (manager : ConnectionManager) (call : Call)
  | dropManager (manager : ConnectionManager)

inductive TaskResult where
  | admitted (answer : Except DialDenial DialTicket)
  | dropped
  | rebound (ticket : DialTicket) (changed : Bool)
  | managed (manager : ConnectionManager) (reply : Reply)

namespace Dial

def body : Task → Action TaskResult
  | .admitDial snapshot request nowMs => .admitted <$> snapshot.admitDial request nowMs
  | .handleAdmit manager request nowMs =>
    .admitted <$> SnapshotHandle.admitDial manager request nowMs
  | .dropTicket ticket => (fun _ => .dropped) <$> ticket.drop
  | .dropSlot slot => (fun _ => .dropped) <$> slot.drop
  | .rebindAddress ticket address =>
    let (ticket, changed) := ticket.rebindAddress address
    .ret (.rebound ticket changed)
  | .manage manager call => (fun answer => .managed answer.1 answer.2) <$> manager.answer call
  | .dropManager manager => (fun _ => .dropped) <$> manager.drop

inductive Begin : World → Rest → Task → Rest → Prop
  | admitDial {world : World} {rest : Rest} {snapshot : PolicySnapshot} {request : DialRequest}
      {nowMs : Nat} (held : snapshot ∈ (world snapshot.manager).installed) :
      Begin world rest (.admitDial snapshot request nowMs) rest
  | handleAdmit {world : World} {rest : Rest} {manager : ManagerId} {request : DialRequest}
      {nowMs : Nat} : Begin world rest (.handleAdmit manager request nowMs) rest
  | dropTicket {world : World} {rest : Rest} {ticket : DialTicket} :
      Begin world { rest with tickets := ticket ::ₘ rest.tickets } (.dropTicket ticket) rest
  | dropSlot {world : World} {rest : Rest} {slot : ConnectionSlot} :
      Begin world { rest with slots := slot ::ₘ rest.slots } (.dropSlot slot) rest
  | rebindAddress {world : World} {rest : Rest} {ticket : DialTicket} {address : String} :
      Begin world { rest with tickets := ticket ::ₘ rest.tickets } (.rebindAddress ticket address)
        rest
  | manage {world : World} {rest : Rest} {manager : ConnectionManager} {call : Call} :
      Begin world
        { managers := manager ::ₘ rest.managers
          tickets := call.ticket.toList + rest.tickets
          slots := call.slot.toList + rest.slots } (.manage manager call) rest
  | dropManager {world : World} {rest : Rest} {manager : ConnectionManager} :
      Begin world { rest with managers := manager ::ₘ rest.managers } (.dropManager manager) rest

def putBack (rest : Rest) : TaskResult → Rest
  | .admitted (.ok ticket) => { rest with tickets := ticket ::ₘ rest.tickets }
  | .admitted (.error _) | .dropped => rest
  | .rebound ticket _ => { rest with tickets := ticket ::ₘ rest.tickets }
  | .managed manager reply =>
    { rest with
      managers := manager ::ₘ rest.managers
      slots := reply.slots + rest.slots }

def system : System Op Op.Ans World Rest Task TaskResult where
  exec := World.Exec
  body := body
  start := Begin
  finish := putBack

end Dial

structure Setup where
  managers : Finset ManagerId
  policy : ManagerId → ConnectionPolicy
  maxPendingDials : ManagerId → Nat
  fresh : ∀ id, (policy id).addresses = ∅ ∧ (policy id).book = ∅ ∧ (policy id).peers = ∅
  small : ∀ id, (policy id).maxAddresses < counterRange ∧
    (policy id).maxConnections < counterRange ∧ maxPendingDials id < counterRange

namespace Setup

def manager (setup : Setup) (id : ManagerId) : ConnectionManager :=
  .new id (setup.policy id) (setup.maxPendingDials id)

def shared (setup : Setup) (id : ManagerId) : Shared where
  counters := fun _ => 0
  shuttingDown := false
  managed := true
  borrowed := 0
  current := (setup.manager id).snapshot
  earlier := []

def start (setup : Setup) : Config Op Op.Ans World Rest Task TaskResult where
  world := setup.shared
  rest := ⟨setup.managers.val.map setup.manager, 0, 0⟩
  threads := []
  next := 0

end Setup

def Dial.Reaches (setup : Setup) (labels : List (Label Op Op.Ans Task TaskResult))
    (config : Config Op Op.Ans World Rest Task TaskResult) : Prop :=
  Run Dial.system setup.start labels config

end InterWeave
