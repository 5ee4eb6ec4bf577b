import InterWeave.Api.Trust
import InterWeave.Lib.Prog
import InterWeave.Runtime.ConnectionPolicyCore

/-!
`runtime::connection_manager`: the gate every dial passes. A manager publishes immutable
snapshots of its policy; any thread admits dials through a snapshot it holds. Manager,
snapshots, tickets and slots share three counters, a drain flag, the cell of the current
snapshot and the manager's liveness, all reached by atomic operations. A manager's shared
state is named here by a number instead of by the pointers that reach it.
-/

namespace InterWeave

open Std (ExtTreeMap)
open Saturating Extremum Concurrent

structure TrustSources where
  peers : PeerTrustPolicy
  infrastructure : InfrastructureSet
  localPeer : Option TransportIdentity

namespace TrustSources

def new (peers : PeerTrustPolicy) (infrastructure : InfrastructureSet) : TrustSources :=
  ⟨peers, infrastructure, none⟩

def default : TrustSources := new .default .default

def classify (trust : TrustSources) (peer : TransportIdentity) : ConnectionClass :=
  if trust.localPeer = some peer then .unauthorized
  else if (trust.peers.decide peer).isAllowed then .dataPlaneTrusted
  else if trust.infrastructure.permitsControlConnection peer then .connectivityInfrastructureOnly
  else .unauthorized

end TrustSources

abbrev ManagerId := Nat

structure PolicySnapshot where
  policy : ConnectionPolicy
  trust : TrustSources
  revision : Nat
  manager : ManagerId
  maxPendingDials : Nat
  maxConnections : Nat

inductive Counter where
  | pending
  | connections
  | outcomes
  deriving DecidableEq

/-- The atomic operations. A snapshot reaches the cell and the liveness of its manager by
weak references; a handle keeps the cell. -/
inductive Op where
  | load (manager : ManagerId) (counter : Counter)
  | compareExchangeWeak (manager : ManagerId) (counter : Counter) (current new : Nat)
  | fetchSub (manager : ManagerId) (counter : Counter) (amount : Nat)
  | loadShuttingDown (manager : ManagerId)
  | storeShuttingDown (manager : ManagerId)
  | upgradeManager (manager : ManagerId)
  | dropManagerRef (manager : ManagerId)
  | dropManager (manager : ManagerId)
  | readCurrent (manager : ManagerId)
  | readPublished (manager : ManagerId)
  | writePublished (manager : ManagerId) (next : PolicySnapshot)

abbrev Op.Ans : Op → Type
  | .load _ _ => Nat
  | .compareExchangeWeak _ _ _ _ => Except Nat Unit
  | .loadShuttingDown _ | .upgradeManager _ => Bool
  | .readCurrent _ => Option PolicySnapshot
  | .readPublished _ => PolicySnapshot
  | .fetchSub _ _ _ | .storeShuttingDown _ | .dropManagerRef _ | .dropManager _
  | .writePublished _ _ => Unit

abbrev Action := Prog Op Op.Ans

namespace Atomic

abbrev load (manager : ManagerId) (counter : Counter) : Action Nat :=
  .perform (Op.load manager counter)

abbrev fetchSub (manager : ManagerId) (counter : Counter) (amount : Nat) : Action Unit :=
  .perform (Op.fetchSub manager counter amount)

abbrev loadShuttingDown (manager : ManagerId) : Action Bool :=
  .perform (Op.loadShuttingDown manager)

abbrev storeShuttingDown (manager : ManagerId) : Action Unit :=
  .perform (Op.storeShuttingDown manager)

abbrev upgradeManager (manager : ManagerId) : Action Bool :=
  .perform (Op.upgradeManager manager)

abbrev dropManagerRef (manager : ManagerId) : Action Unit :=
  .perform (Op.dropManagerRef manager)

abbrev dropManager (manager : ManagerId) : Action Unit :=
  .perform (Op.dropManager manager)

abbrev readCurrent (manager : ManagerId) : Action (Option PolicySnapshot) :=
  .perform (Op.readCurrent manager)

abbrev readPublished (manager : ManagerId) : Action PolicySnapshot :=
  .perform (Op.readPublished manager)

abbrev writePublished (manager : ManagerId) (next : PolicySnapshot) : Action Unit :=
  .perform (Op.writePublished manager next)

end Atomic

def reserve (manager : ManagerId) (counter : Counter) (ceiling : Nat) :
    Action (Except Unit Unit) := do
  let current ← Atomic.load manager counter
  if current ≥ ceiling then .ret (.error ())
  else
    .spin current (fun current => .compareExchangeWeak manager counter current (current + 1))
      (fun _ answer =>
        match answer with
        | .ok () => none
        | .error seen => if seen ≥ ceiling then none else some seen)
      (fun _ answer =>
        match answer with
        | .ok () => .ret (.ok ())
        | .error _ => .ret (.error ()))

def releaseIf (due : Bool) (manager : ManagerId) (counter : Counter) : Action Unit :=
  if due then Atomic.fetchSub manager counter 1 else .ret ()

structure ConnectionSlot where
  manager : ManagerId
  released : Bool

def ConnectionSlot.drop (slot : ConnectionSlot) : Action Unit :=
  releaseIf (!slot.released) slot.manager .connections

structure DialTicket where
  manager : ManagerId
  outcomeReserved : Bool
  origin : DialOrigin
  peer : Option TransportIdentity
  address : String
  settled : Bool
  connectionKept : Bool
  admittedAtMs : Nat

namespace DialTicket

variable (ticket : DialTicket)

def settledAt (nowMs : Nat) : Nat :=
  if nowMs > ticket.admittedAtMs then nowMs else ticket.admittedAtMs

def ownsSchedulerClaim : Bool :=
  match ticket.origin with
  | .connectionManager => true
  | _ => false

def rebindAddress (address : String) : DialTicket × Bool :=
  if !ticket.address.isEmpty || address.isEmpty then (ticket, false)
  else ({ ticket with address := address }, true)

def drop : Action Unit := do
  releaseIf ticket.outcomeReserved ticket.manager .outcomes
  releaseIf (!ticket.connectionKept) ticket.manager .connections
  releaseIf (!ticket.settled) ticket.manager .pending

end DialTicket

namespace PolicySnapshot

variable (snapshot : PolicySnapshot)

/-- The liveness reference is held only for the length of the test. -/
def isCurrent : Action Bool := do
  let alive ← Atomic.upgradeManager snapshot.manager
  if !alive then .ret false
  else
    Atomic.dropManagerRef snapshot.manager
    let current ← Atomic.readCurrent snapshot.manager
    match current with
    | none => .ret false
    | some current => .ret (decide (snapshot.revision = current.revision))

/-- The outcome a ticket that names a peer may need a place for, against the quarantines the
snapshot counts. -/
def reserveOutcome (ticket : DialTicket) (nowMs : Nat) : Action (Except DialDenial DialTicket) :=
  match ticket.peer with
  | none => .ret (.ok ticket)
  | some _ => do
      let room := snapshot.policy.maxAddresses - snapshot.policy.liveQuarantines nowMs
      match ← reserve snapshot.manager .outcomes room with
      | .error () => do
          ticket.drop
          .ret (.error .policyStateFull)
      | .ok () => .ret (.ok { ticket with outcomeReserved := true })

def reserveAll (request : DialRequest) (nowMs : Nat) : Action (Except DialDenial DialTicket) := do
  match ← reserve snapshot.manager .pending snapshot.maxPendingDials with
  | .error () => .ret (.error .tooManyPendingDials)
  | .ok () =>
    let ticket : DialTicket := {
      manager := snapshot.manager
      outcomeReserved := false
      origin := request.origin
      peer := request.peer
      address := request.address
      settled := false
      connectionKept := false
      admittedAtMs := nowMs }
    match ← reserve snapshot.manager .connections snapshot.maxConnections with
    | .error () => do
        DialTicket.drop { ticket with connectionKept := true }
        .ret (.error .connectionLimitReached)
    | .ok () => snapshot.reserveOutcome ticket nowMs

def isSuperseded : Action Bool := do
  let draining ← Atomic.loadShuttingDown snapshot.manager
  if draining then .ret true
  else
    let current ← snapshot.isCurrent
    .ret (!current)

def finalCheck (ticket : DialTicket) : Action (Except DialDenial DialTicket) := do
  let superseded ← snapshot.isSuperseded
  if superseded then do
    ticket.drop
    .ret (.error .policySuperseded)
  else .ret (.ok ticket)

def precheck (request : DialRequest) (nowMs : Nat) : Action (Except DialDenial Unit) := do
  let cls := match request.peer with
    | some peer => snapshot.trust.classify peer
    | none => .unauthorized
  let draining ← Atomic.loadShuttingDown snapshot.manager
  if draining then .ret (.error .shuttingDown)
  else
    let current ← snapshot.isCurrent
    if !current then .ret (.error .policySuperseded)
    else .ret (snapshot.policy.admitDial request cls nowMs)

def admitDial (snapshot : PolicySnapshot) (request : DialRequest) (nowMs : Nat) :
    Action (Except DialDenial DialTicket) := do
  match ← snapshot.precheck request nowMs with
  | .error denial => .ret (.error denial)
  | .ok () =>
    match ← snapshot.reserveAll request nowMs with
    | .error denial => .ret (.error denial)
    | .ok ticket => snapshot.finalCheck ticket

end PolicySnapshot

namespace SnapshotHandle

def admitReloadAttempts : Nat := 3

def admitWithin (manager : ManagerId) (request : DialRequest) (nowMs : Nat) :
    Nat → Action (Except DialDenial DialTicket)
  | 0 => .ret (.error .policySuperseded)
  | attempts + 1 => do
      let snapshot ← Atomic.readPublished manager
      match ← snapshot.admitDial request nowMs with
      | .error .policySuperseded => admitWithin manager request nowMs attempts
      | other => .ret other

/-- `SnapshotHandle::admit`: a handle is named by the cell it keeps. -/
def admitDial (manager : ManagerId) (request : DialRequest) (nowMs : Nat) :
    Action (Except DialDenial DialTicket) :=
  admitWithin manager request nowMs admitReloadAttempts

end SnapshotHandle

structure Retry where
  dueAtMs : Nat
  attempts : Nat
  claimed : Bool
  waitsOn : Option TransportIdentity

structure Revoked where
  peer : TransportIdentity
  was : ConnectionClass
  now : ConnectionClass

def permits (now was : ConnectionClass) : Bool :=
  match was, now with
  | .unauthorized, _ => true
  | _, .dataPlaneTrusted => true
  | .connectivityInfrastructureOnly, .connectivityInfrastructureOnly => true
  | _, _ => false

structure RetryScheduled where
  attempt : Nat
  delayMs : Nat
  peerBackoff : Bool

inductive GateNote where
  | retryScheduled (peer : TransportIdentity) (origin : DialOrigin) (retry : RetryScheduled)
  | addressQuarantined (peer : TransportIdentity) (forMs : Nat)

def retryBaseMs : Nat := 30000
def retryCeilingMs : Nat := 5 * 60 * 1000

def retryBackoffMs (attempts : Nat) : Nat :=
  let shifted := mul64 retryBaseMs (2 ^ (if attempts < 8 then attempts else 8))
  if shifted < retryCeilingMs then shifted else retryCeilingMs

structure ConnectionManager where
  id : ManagerId
  policy : ConnectionPolicy
  trust : TrustSources
  revision : Nat
  maxPendingDials : Nat
  outcomesToReturn : Nat
  maxConnections : Nat
  localPeer : Option TransportIdentity
  retries : ExtTreeMap TransportIdentity Retry
  networkLifts : ExtTreeMap TransportIdentity Nat
  retired : List TransportIdentity
  notes : List GateNote
  notesDropped : Nat
  clockMs : Nat
  maxAddressesPerPeer : Nat
  maxRetryEntries : Nat

namespace ConnectionManager

def defaultMaxRetryEntries : Nat := 1024
def defaultMaxAddressesPerPeer : Nat := 8
def maxAddressesPerPeerLimit : Nat := 32
def maxRetiredBookPeers : Nat := 256
def maxGateNotes : Nat := 64

def new (id : ManagerId) (policy : ConnectionPolicy) (maxPendingDials : Nat) :
    ConnectionManager where
  id := id
  policy := policy
  trust := .default
  revision := 0
  maxPendingDials := maxPendingDials
  outcomesToReturn := 0
  maxConnections := policy.maxConnections
  localPeer := none
  retries := ∅
  networkLifts := ∅
  retired := []
  notes := []
  notesDropped := 0
  clockMs := 0
  maxAddressesPerPeer := defaultMaxAddressesPerPeer
  maxRetryEntries := defaultMaxRetryEntries

variable (manager : ConnectionManager) (policy : ConnectionPolicy) (ticket : DialTicket)
  (peer : TransportIdentity) (address : String) (nowMs : Nat)

def snapshot : PolicySnapshot where
  policy := manager.policy
  trust := manager.trust
  revision := manager.revision
  manager := manager.id
  maxPendingDials := manager.maxPendingDials
  maxConnections := manager.maxConnections

/-- With the manager go the cell, unless a handle keeps it, and its own hold on its
liveness. -/
def drop : Action Unit :=
  Atomic.dropManager manager.id

def setMaxAddressesPerPeer (limit : Nat) : ConnectionManager :=
  { manager with maxAddressesPerPeer := max 1 (min limit maxAddressesPerPeerLimit) }

def classify (manager : ConnectionManager) (peer : TransportIdentity) : ConnectionClass :=
  manager.trust.classify peer

def observe : ConnectionManager :=
  { manager with clockMs := max manager.clockMs nowMs }

def nextRevision : ConnectionManager :=
  { manager with revision := add64 manager.revision 1 }

def returnOutcomes : Action ConnectionManager := do
  if manager.outcomesToReturn > 0 then do
    Atomic.fetchSub manager.id .outcomes manager.outcomesToReturn
    .ret { manager with outcomesToReturn := 0 }
  else .ret manager

/-- The units settlements owe are returned only once the new snapshot is installed. -/
def publish (manager : ConnectionManager) : Action ConnectionManager := do
  let manager := manager.nextRevision
  Atomic.writePublished manager.id manager.snapshot
  manager.returnOutcomes

def bindLocalPeer (localPeer : TransportIdentity) : Action ConnectionManager :=
  publish { manager with
    localPeer := some localPeer
    trust := { manager.trust with localPeer := some localPeer } }

/-- Whether the book holds the address under a quarantine in force. -/
def liveInBook : Bool :=
  inBook manager.policy.book peer address &&
    match manager.policy.address peer address with
    | none => false
    | some state => state.isPunitiveAt nowMs

/-- A live quarantine may leave the book only against a reserved outcome. -/
def handOver (manager : ConnectionManager) (peer : TransportIdentity) (address : String)
    (nowMs : Nat) : Action (ConnectionManager × Bool) := do
  let (policy, released) := manager.policy.releaseFromBook peer address nowMs
  if !manager.liveInBook peer address nowMs then
    .ret ({ manager with policy := policy }, released)
  else
    let room := manager.policy.maxAddresses - manager.policy.liveQuarantines nowMs
    match ← reserve manager.id .outcomes room with
    | .error () => .ret (manager, false)
    | .ok () =>
      let manager := { manager with policy := policy }
      if !released then do
        Atomic.fetchSub manager.id .outcomes 1
        .ret (manager, false)
      else do
        let manager ← publish { manager with
          outcomesToReturn := manager.outcomesToReturn + 1 }
        .ret (manager, true)

def bookAddresses : List String :=
  (manager.policy.book[peer]?.getD ∅).sort (· ≤ ·)

def handOverAll (peer : TransportIdentity) (nowMs : Nat) :
    List String → ConnectionManager → Action ConnectionManager
  | [], manager => .ret manager
  | address :: rest, manager => do
      let (manager, _) ← manager.handOver peer address nowMs
      handOverAll peer nowMs rest manager

/-- Empty the book of each peer in turn; those it could not empty come back. -/
def retireOldest : List TransportIdentity → ConnectionManager →
    Action (ConnectionManager × List TransportIdentity)
  | [], manager => .ret (manager, [])
  | oldest :: rest, manager => do
      let manager ← handOverAll oldest manager.clockMs (manager.bookAddresses oldest) manager
      let (last, stuck) ← retireOldest rest manager
      .ret (last, if oldest ∈ manager.policy.book then oldest :: stuck else stuck)

/-- The peers retired before that still are, then those the book newly holds for nobody. -/
def retiring : List TransportIdentity :=
  let unclassified := fun peer => decide (manager.classify peer = .unauthorized)
  let retired := manager.retired.filter unclassified
  let newly := manager.policy.book.keys.filter fun peer =>
    unclassified peer && decide (peer ∉ retired)
  retired ++ newly

def retireUnclassifiedBookPeers : Action ConnectionManager := do
  let retired := manager.retiring
  let excess := retired.length - maxRetiredBookPeers
  let (manager, stuck) ← retireOldest (retired.take excess) manager
  .ret { manager with retired := stuck ++ retired.drop excess }

def withTrust (trust : TrustSources) : ConnectionManager :=
  { manager with trust := { trust with localPeer := manager.localPeer } }

def setTrust (trust : TrustSources) (live : List TransportIdentity) :
    Action (ConnectionManager × List Revoked) := do
  let previous := manager.trust
  let manager ← (manager.withTrust trust).retireUnclassifiedBookPeers
  let manager ← manager.publish
  .ret (manager, live.filterMap fun peer =>
    let was := previous.classify peer
    let now := manager.trust.classify peer
    if was ≠ now && !permits now was then some ⟨peer, was, now⟩ else none)

open AddressState

def lastSuccess : WithBot Nat :=
  (policy.address peer address).bind lastSuccessMs

def failures : Nat :=
  match policy.address peer address with
  | none => 0
  | some state => state.consecutiveFailures

/-- The last success of all; of several at one time, the first in the book. -/
def newestProven (known : List String) : Option String :=
  maxByKey (fun address => toLex (lastSuccess policy peer address, OrderDual.toDual address))
    (known.filter fun address => decide (lastSuccess policy peer address ≠ ⊥))

/-- The address a full book gives up: one that cannot be dialled, or one that failed and is
not the newest proven. -/
def bookVictim (known : List String) (nowMs : Nat) : Option String :=
  maxByKey
    (fun address => toLex (!policy.isAddressDialable peer address nowMs,
      toLex (OrderDual.toDual (lastSuccess policy peer address), failures policy peer address)))
    (known.filter fun address => !policy.isAddressDialable peer address nowMs ||
      decide (failures policy peer address > 0) &&
        decide (newestProven policy peer known ≠ some address))

def changeRetry (change : Retry → Retry) : ConnectionManager :=
  match manager.retries[peer]? with
  | none => manager
  | some retry => { manager with retries := manager.retries.insert peer (change retry) }

/-- An address never tried makes the peer's unclaimed retry due at once. -/
def enterBook : ConnectionManager :=
  let untried := (manager.policy.address peer address).isNone
  let manager := { manager with policy := manager.policy.addToBook peer address }
  manager.changeRetry peer fun retry =>
    if untried && !retry.claimed then { retry with dueAtMs := min retry.dueAtMs nowMs } else retry

def learnAddress : Action (ConnectionManager × Bool) := do
  let manager := manager.observe nowMs
  if manager.classify peer = .unauthorized then .ret (manager, false)
  else if inBook manager.policy.book peer address then .ret (manager, true)
  else if (manager.policy.book[peer]?.any fun known =>
      decide (known.card ≥ manager.maxAddressesPerPeer)) then
    match bookVictim manager.policy peer (manager.bookAddresses peer) nowMs with
    | none => .ret (manager, false)
    | some stale => do
        let (manager, freed) ← manager.handOver peer stale nowMs
        if !freed then .ret (manager, false)
        else .ret (manager.enterBook peer address nowMs, true)
  else .ret (manager.enterBook peer address nowMs, true)

/-- An own outcome is kept back for the next publication; everything else the ticket still
holds goes with it. -/
def settle : Action ConnectionManager := do
  let own := ticket.outcomeReserved && decide (ticket.manager = manager.id)
  Atomic.fetchSub ticket.manager .pending 1
  DialTicket.drop { ticket with
    settled := true
    outcomeReserved := ticket.outcomeReserved && !own }
  .ret { manager with outcomesToReturn := manager.outcomesToReturn + own.toNat }

def keepConnection : Action (ConnectionManager × ConnectionSlot) := do
  let ticket := { ticket with connectionKept := true }
  let manager ← manager.settle ticket
  .ret (manager, ⟨ticket.manager, false⟩)

def issuedHere : Bool :=
  decide (ticket.manager = manager.id)

def settleAndPublish : Action ConnectionManager := do
  let manager ← manager.settle ticket
  manager.publish

def recordSuccess (manager : ConnectionManager) (ticket : DialTicket) (nowMs : Nat) :
    Action (ConnectionManager × ConnectionSlot) := do
  let nowMs := ticket.settledAt nowMs
  let manager := manager.observe nowMs
  if !manager.issuedHere ticket then manager.keepConnection ticket
  else
    let manager := match ticket.peer with
      | none => manager
      | some peer =>
        { manager with
          policy := manager.policy.recordSuccess peer ticket.address nowMs
          retries := manager.retries.erase peer }
    let (manager, slot) ← manager.keepConnection ticket
    let manager ← manager.publish
    .ret (manager, slot)

def retryDelayMs : Nat :=
  retryBackoffMs (match manager.retries[peer]? with | none => 0 | some retry => retry.attempts)

def scheduleRetry (delayMs : Nat) (claimed : Bool) : ConnectionManager × Nat :=
  let attempts := match manager.retries[peer]? with | none => 0 | some retry => retry.attempts
  let retries :=
    if peer ∉ manager.retries ∧ manager.retries.size ≥ manager.maxRetryEntries then
      match maxByKey (fun entry => entry.2.dueAtMs) manager.retries.toList with
      | none => manager.retries
      | some furthest => manager.retries.erase furthest.1
    else manager.retries
  let attempt := add32 attempts 1
  ({ manager with
     retries := retries.insert peer ⟨add64 nowMs delayMs, attempt, claimed, none⟩ }, attempt)

def note (manager : ConnectionManager) (note : GateNote) : ConnectionManager :=
  if manager.notes.length ≥ maxGateNotes then
    { manager with
      notes := manager.notes.drop 1 ++ [note]
      notesDropped := add64 manager.notesDropped 1 }
  else { manager with notes := manager.notes ++ [note] }

def heldByAnother : Bool :=
  !ticket.ownsSchedulerClaim && manager.retries[peer]?.any Retry.claimed

def recordFailure : Action (ConnectionManager × Option RetryScheduled) := do
  let nowMs := ticket.settledAt nowMs
  let manager := manager.observe nowMs
  if !manager.issuedHere ticket then do
    ticket.drop
    .ret (manager, none)
  else if ticket.address.isEmpty || decide (ticket.origin = .dcutrHolePunch) then do
    let manager ← manager.settleAndPublish ticket
    .ret (manager, none)
  else
    match ticket.peer with
    | none => do
        let manager ← manager.settleAndPublish ticket
        .ret (manager, none)
    | some peer => do
        let delay := manager.retryDelayMs peer
        let (policy, peerBackoff) :=
          manager.policy.recordAddressFailure peer ticket.address nowMs delay
        let (manager, _) ← { manager with policy := policy }.learnAddress peer ticket.address nowMs
        let (manager, attempt) := manager.scheduleRetry peer nowMs delay
          (manager.heldByAnother ticket peer)
        let retry : RetryScheduled := ⟨attempt, delay, peerBackoff⟩
        let manager := manager.note (.retryScheduled peer ticket.origin retry)
        let manager ← manager.settleAndPublish ticket
        .ret (manager, some retry)

def scoreAddress : Action ConnectionManager := do
  if address.isEmpty then .ret manager
  else
    let policy := manager.policy.scoreAddressFailure peer address nowMs
    let (manager, _) ← { manager with policy := policy }.learnAddress peer address nowMs
    .ret manager

/-- The relay on the way was not reached: the retry waits for it, or is due at once when it
came up meanwhile. -/
def recordRelayHopUnreached (relay : TransportIdentity) (relayCameUp : Bool) (nowMs : Nat) :
    Action (ConnectionManager × Option RetryScheduled) := do
  let nowMs := ticket.settledAt nowMs
  let manager := manager.observe nowMs
  if !manager.issuedHere ticket then do
    ticket.drop
    .ret (manager, none)
  else
    match ticket.peer with
    | none => do
        let manager ← manager.settleAndPublish ticket
        .ret (manager, none)
    | some peer => do
        let manager ← manager.scoreAddress peer ticket.address nowMs
        let delay := manager.retryDelayMs peer
        let (manager, attempt) := manager.scheduleRetry peer nowMs delay
          (manager.heldByAnother ticket peer)
        let manager := manager.changeRetry peer fun entry =>
          if relayCameUp then { entry with dueAtMs := nowMs }
          else { entry with waitsOn := some relay }
        let retry : RetryScheduled := ⟨attempt, if relayCameUp then 0 else delay, false⟩
        let manager := manager.note (.retryScheduled peer ticket.origin retry)
        let manager ← manager.settleAndPublish ticket
        .ret (manager, some retry)

def relayReached (relay : TransportIdentity) (nowMs : Nat) : ConnectionManager :=
  let manager := manager.observe nowMs
  { manager with
    retries := manager.retries.map fun _ entry =>
      if !entry.claimed && decide (entry.waitsOn = some relay) then
        { entry with dueAtMs := min entry.dueAtMs nowMs, waitsOn := none }
      else entry }

def recordAddressFailureUnadmitted : Action ConnectionManager := do
  if address.isEmpty then .ret manager
  else
    let delay := manager.retryDelayMs peer
    let policy := (manager.policy.recordAddressFailure peer address nowMs delay).1
    let (manager, _) ← { manager with policy := policy }.learnAddress peer address nowMs
    manager.publish

def recordPermanentAddressFailureUnadmitted : Action ConnectionManager := do
  if address.isEmpty then .ret manager
  else
    let (manager, _) ← manager.handOver peer address manager.clockMs
    manager.publish

def clearRetryClaim : ConnectionManager :=
  { manager with retries := manager.retries.erase peer }

def reclaimRetry : ConnectionManager :=
  manager.changeRetry peer fun entry => { entry with claimed := true }

def releaseRetryClaim : ConnectionManager :=
  manager.changeRetry peer fun entry => { entry with claimed := false }

/-- What becomes of the scheduler's claim when its own ticket is settled. -/
def claimAfter (change : ConnectionManager → TransportIdentity → ConnectionManager)
    (manager : ConnectionManager) (ticket : DialTicket) : ConnectionManager :=
  if ticket.ownsSchedulerClaim then
    match ticket.peer with
    | none => manager
    | some peer => change manager peer
  else manager

def recordPermanentFailure : Action ConnectionManager := do
  let nowMs := ticket.settledAt nowMs
  let manager := manager.observe nowMs
  if !manager.issuedHere ticket then do
    ticket.drop
    .ret manager
  else
    match ticket.peer with
    | none => manager.settleAndPublish ticket
    | some peer => do
        let (manager, _) ← manager.handOver peer ticket.address nowMs
        (claimAfter releaseRetryClaim manager ticket).settleAndPublish ticket

/-- A dial given up for a reason that is not the address's: nothing is scored. -/
def recordAbandoned : Action ConnectionManager := do
  let manager := manager.observe nowMs
  if !manager.issuedHere ticket then do
    ticket.drop
    .ret manager
  else (claimAfter clearRetryClaim manager ticket).settleAndPublish ticket

def recordAuthorizationWithdrawn : Action ConnectionManager :=
  manager.recordAbandoned ticket nowMs

def recordLocallyRefused : Action ConnectionManager :=
  manager.recordAbandoned ticket nowMs

def recordIdentityMismatch (manager : ConnectionManager) (ticket : DialTicket) (nowMs : Nat) :
    Action (ConnectionManager × Bool) := do
  let nowMs := ticket.settledAt nowMs
  let manager := manager.observe nowMs
  if !manager.issuedHere ticket then do
    ticket.drop
    .ret (manager, false)
  else
    match ticket.peer with
    | none => do
        let manager ← manager.settleAndPublish ticket
        .ret (manager, false)
    | some peer => do
        let (policy, mismatched) :=
          manager.policy.recordIdentityMismatch peer ticket.address nowMs
        let manager := { manager with policy := policy }
        let manager := if mismatched then
          manager.note (.addressQuarantined peer identityMismatchQuarantineMs)
        else manager
        let manager ← (claimAfter releaseRetryClaim manager ticket).settleAndPublish ticket
        .ret (manager, mismatched)

def admitInbound (manager : ConnectionManager) :
    Action (ConnectionManager × Option ConnectionSlot) := do
  let draining ← Atomic.loadShuttingDown manager.id
  if draining then .ret (manager, none)
  else
    match ← reserve manager.id .connections manager.maxConnections with
    | .error () => .ret (manager, none)
    | .ok () => do
        let slot : ConnectionSlot := ⟨manager.id, false⟩
        let manager ← manager.publish
        .ret (manager, some slot)

def recordInboundRetained : Action (ConnectionManager × Bool) := do
  let manager := manager.observe nowMs
  let (policy, backoff) := manager.policy.clearPeerBackoff peer
  let retry := decide (peer ∈ manager.retries)
  let manager := { manager with policy := policy, retries := manager.retries.erase peer }
  if backoff || retry then do
    let manager ← manager.publish
    .ret (manager, true)
  else .ret (manager, false)

def liftPeer (lifts : ConnectionManager × Nat) (peer : TransportIdentity) :
    ConnectionManager × Nat :=
  let (manager, lifted) := lifts
  let (policy, backoff) := manager.policy.liftPeerBackoff peer nowMs
  let dataPlane := decide (manager.classify peer = .dataPlaneTrusted)
  let retry := manager.retries[peer]?.any fun entry =>
    dataPlane && !entry.claimed && decide (entry.dueAtMs > nowMs)
  let manager := { manager with policy := policy }
  let manager := if retry then
    manager.changeRetry peer fun entry => { entry with dueAtMs := nowMs } else manager
  if backoff || retry then
    ({ manager with networkLifts := manager.networkLifts.insert peer nowMs }, lifted + 1)
  else (manager, lifted)

def networkAdded : Action (ConnectionManager × Nat) := do
  let manager := manager.observe nowMs
  let authorized := fun peer => decide (manager.classify peer ≠ .unauthorized)
  let manager := { manager with
    networkLifts := manager.networkLifts.filter fun peer atMs =>
      decide (nowMs - atMs < retryBaseMs) && authorized peer }
  let peers := ((manager.retries.keys ++ manager.policy.peers.keys).filter fun peer =>
    authorized peer && decide (peer ∉ manager.networkLifts)).toFinset.sort (· ≤ ·)
  let (manager, lifted) := peers.foldl (liftPeer nowMs) (manager, 0)
  if lifted > 0 then do
    let manager ← manager.publish
    .ret (manager, lifted)
  else .ret (manager, lifted)

def recordConnectionClosed (slot : ConnectionSlot) : Action ConnectionManager := do
  slot.drop
  manager.publish

def beginShutdown : Action ConnectionManager := do
  Atomic.storeShuttingDown manager.id
  publish { manager with policy := { manager.policy with shuttingDown := true } }

def takeDueRetries (limit : Nat) : ConnectionManager × List TransportIdentity :=
  let manager := manager.observe nowMs
  let due := ((manager.retries.toList.filter fun entry =>
    !entry.2.claimed && decide (nowMs ≥ entry.2.dueAtMs)).mergeSort
      fun left right => decide (left.2.dueAtMs ≤ right.2.dueAtMs)).take limit
  (due.foldl (fun manager entry => manager.reclaimRetry entry.1) manager, due.map Prod.fst)

def drainNotes : ConnectionManager × List GateNote :=
  ({ manager with notes := [] }, manager.notes)

end ConnectionManager

end InterWeave
