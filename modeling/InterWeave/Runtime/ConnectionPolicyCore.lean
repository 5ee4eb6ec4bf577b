import InterWeave.Api.Identity
import InterWeave.Lib.Extremum
import InterWeave.Lib.Saturating

/-!
`runtime::connection_policy`: per-address and per-peer dial state in two bounded
tables, and the static half of dial admission. Addresses in the book are held
outside the bound of the address table.
-/

namespace InterWeave

open Std (ExtTreeMap)
open Saturating Extremum

inductive ConnectionClass where
  | dataPlaneTrusted
  | connectivityInfrastructureOnly
  | unauthorized
  deriving DecidableEq, Repr

inductive DialOrigin where
  | manual
  | connectionManager
  | discoveryReconnect
  | kademliaQuery
  | relayReservation
  | relayCircuit
  | autonatProbe
  | dcutrHolePunch
  deriving DecidableEq, Repr

def DialOrigin.namesApplicationDestination : DialOrigin → Bool
  | .manual | .connectionManager | .discoveryReconnect | .kademliaQuery | .relayCircuit
  | .dcutrHolePunch => true
  | .relayReservation | .autonatProbe => false

structure DialRequest where
  peer : Option TransportIdentity
  address : String
  origin : DialOrigin

inductive DialDenial where
  | shuttingDown
  | unauthorized
  | notAuthorizedForDataPlane
  | peerBackoff
  | addressQuarantined
  | tooManyPendingDials
  | connectionLimitReached
  | policySuperseded
  | policyStateFull
  deriving DecidableEq, Repr

structure AddressState where
  consecutiveFailures : Nat := 0
  lastTouchedMs : Nat := 0
  lastSuccessMs : Option Nat := none
  quarantinedUntilMs : Option Nat := none
  deriving DecidableEq

namespace AddressState

variable (state : AddressState) (nowMs : Nat)

def isDialableAt : Bool :=
  match state.quarantinedUntilMs with
  | none => true
  | some until_ => decide (nowMs ≥ until_)

def isKnownGood : Bool :=
  state.lastSuccessMs.isSome

def isPunitiveAt : Bool :=
  match state.quarantinedUntilMs with
  | none => false
  | some until_ => decide (nowMs < until_)

def succeeded (state : AddressState) : AddressState :=
  { state with
    consecutiveFailures := 0
    lastSuccessMs := some nowMs
    quarantinedUntilMs := none
    lastTouchedMs := nowMs }

/-- The entry after a failure; a quarantine it carries is left as it is. -/
def failed (state : AddressState) : AddressState :=
  { state with
    consecutiveFailures := add32 state.consecutiveFailures 1
    lastTouchedMs := nowMs }

def identityMismatchQuarantineMs : Nat := 30 * 60 * 1000

def mismatched (nowMs : Nat) (state : AddressState) : AddressState :=
  { state with
    consecutiveFailures := add32 state.consecutiveFailures 1
    quarantinedUntilMs := some (add64 nowMs identityMismatchQuarantineMs)
    lastTouchedMs := nowMs
    lastSuccessMs := none }

end AddressState

structure PeerBackoff where
  consecutiveFailures : Nat := 0
  lastTouchedMs : Nat := 0
  untilMs : Option Nat := none
  deriving DecidableEq

namespace PeerBackoff

def isClearAt (backoff : PeerBackoff) (nowMs : Nat) : Bool :=
  match backoff.untilMs with
  | none => true
  | some until_ => decide (nowMs ≥ until_)

def isPunitiveAt (backoff : PeerBackoff) (nowMs : Nat) : Bool :=
  !backoff.isClearAt nowMs

end PeerBackoff

@[ext]
structure AddressKey where
  peer : TransportIdentity
  address : String

instance : LinearOrder AddressKey :=
  LinearOrder.lift' (fun key => toLex (key.peer, key.address)) fun _ _ same =>
    AddressKey.ext (congrArg (fun pair => (ofLex pair).1) same)
      (congrArg (fun pair => (ofLex pair).2) same)

abbrev AddressTable := ExtTreeMap AddressKey AddressState

abbrev AddressBook := ExtTreeMap TransportIdentity (Finset String)

def inBook (book : AddressBook) (peer : TransportIdentity) (address : String) : Bool :=
  match book[peer]? with
  | none => false
  | some known => decide (address ∈ known)

structure ConnectionPolicy where
  addresses : AddressTable
  book : AddressBook
  peers : ExtTreeMap TransportIdentity PeerBackoff
  maxAddresses : Nat
  maxPeers : Nat
  idleTtlMs : Nat
  maxPendingDials : Nat
  maxConnections : Nat
  maxConnectedPeers : Nat
  maxConnectionsPerPeer : Nat
  shuttingDown : Bool

namespace ConnectionPolicy

def defaultMaxAddressEntries : Nat := 8192
def defaultMaxPeerEntries : Nat := 4096
def defaultMaxConnectedPeers : Nat := 256
def defaultMaxConnectionsPerPeer : Nat := 3
def defaultIdleTtlMs : Nat := 60 * 60 * 1000

def new (maxPendingDials maxConnections : Nat) : ConnectionPolicy where
  addresses := ∅
  book := ∅
  peers := ∅
  maxAddresses := defaultMaxAddressEntries
  maxPeers := defaultMaxPeerEntries
  idleTtlMs := defaultIdleTtlMs
  maxPendingDials := maxPendingDials
  maxConnections := maxConnections
  maxConnectedPeers := defaultMaxConnectedPeers
  maxConnectionsPerPeer := defaultMaxConnectionsPerPeer
  shuttingDown := false

variable (policy : ConnectionPolicy) (peer : TransportIdentity) (nowMs : Nat)

def outsideBook (key : AddressKey) : Bool :=
  !inBook policy.book key.peer key.address

def prune : ConnectionPolicy :=
  let idle := fun touched => decide (nowMs - touched ≥ policy.idleTtlMs)
  { policy with
    addresses := policy.addresses.filter fun key state =>
      !policy.outsideBook key || state.isPunitiveAt nowMs || !idle state.lastTouchedMs
    peers := policy.peers.filter fun _ backoff =>
      backoff.isPunitiveAt nowMs || !idle backoff.lastTouchedMs }

def outsideEntries : List (AddressKey × AddressState) :=
  policy.addresses.toList.filter fun entry => policy.outsideBook entry.1

def makeRoomForAddress : ConnectionPolicy × Bool :=
  if policy.outsideEntries.length < policy.maxAddresses then (policy, true)
  else
    let victim := minByKey (fun entry => entry.2.lastTouchedMs)
      (policy.outsideEntries.filter fun entry => !entry.2.isPunitiveAt nowMs)
    match victim with
    | some (key, _) => ({ policy with addresses := policy.addresses.erase key }, true)
    | none => (policy, false)

/-- Strike an address from the book; a peer without addresses leaves it. -/
def removeFromBook (address : String) : ConnectionPolicy :=
  match policy.book[peer]? with
  | none => policy
  | some known =>
    if known.erase address = ∅ then { policy with book := policy.book.erase peer }
    else { policy with book := policy.book.insert peer (known.erase address) }

def addToBook (address : String) : ConnectionPolicy :=
  { policy with
    book := policy.book.insert peer (insert address (policy.book[peer]?.getD ∅)) }

/-- A record that leaves the book needs room outside it. A live quarantine stays in the
book when there is none; any other record is dropped instead. -/
def releaseFromBook (address : String) (nowMs : Nat) : ConnectionPolicy × Bool :=
  if !inBook policy.book peer address then (policy, true)
  else
    let key := AddressKey.mk peer address
    match policy.addresses[key]? with
    | none => (policy.removeFromBook peer address, true)
    | some state =>
      let punitive := state.isPunitiveAt nowMs
      let (policy, room) := policy.makeRoomForAddress nowMs
      if punitive && !room then (policy, false)
      else
        let policy :=
          if !room then { policy with addresses := policy.addresses.erase key } else policy
        (policy.removeFromBook peer address, true)

def makeRoomForPeer : ConnectionPolicy × Bool :=
  if policy.peers.size < policy.maxPeers then (policy, true)
  else
    let victim := minByKey (fun entry => entry.2.lastTouchedMs)
      (policy.peers.toList.filter fun entry => !entry.2.isPunitiveAt nowMs)
    match victim with
    | some (peer, _) => ({ policy with peers := policy.peers.erase peer }, true)
    | none => (policy, false)

def liveQuarantines : Nat :=
  (policy.outsideEntries.filter fun entry => entry.2.isPunitiveAt nowMs).length

def address (policy : ConnectionPolicy) (peer : TransportIdentity) (address : String) :
    Option AddressState :=
  policy.addresses[AddressKey.mk peer address]?

def clearPeerBackoff : ConnectionPolicy × Bool :=
  ({ policy with peers := policy.peers.erase peer }, decide (peer ∈ policy.peers))

def liftPeerBackoff : ConnectionPolicy × Bool :=
  match policy.peers[peer]? with
  | none => (policy, false)
  | some backoff =>
    if backoff.isPunitiveAt nowMs then
      ({ policy with peers := policy.peers.insert peer { backoff with untilMs := none } }, true)
    else (policy, false)

def admitClass (request : DialRequest) : ConnectionClass → Except DialDenial Unit
  | .unauthorized => .error .unauthorized
  | .connectivityInfrastructureOnly =>
    if request.origin.namesApplicationDestination then .error .notAuthorizedForDataPlane
    else .ok ()
  | .dataPlaneTrusted => .ok ()

/-- A backoff binds an address that has been tried, and a dial that names none. -/
def backedOff (address : String) (nowMs : Nat) : Bool :=
  match policy.peers[peer]? with
  | none => false
  | some backoff =>
    !backoff.isClearAt nowMs &&
      (address.isEmpty || decide (AddressKey.mk peer address ∈ policy.addresses))

def quarantined (address : String) (nowMs : Nat) : Bool :=
  match policy.addresses[AddressKey.mk peer address]? with
  | none => false
  | some state => !state.isDialableAt nowMs

/-- A new key outside the book, a full table and nothing in it to evict. -/
def stateFull (address : String) (nowMs : Nat) : Bool :=
  decide (AddressKey.mk peer address ∉ policy.addresses) && !inBook policy.book peer address &&
    decide (policy.outsideEntries.length ≥ policy.maxAddresses) &&
    !policy.outsideEntries.any fun entry => !entry.2.isPunitiveAt nowMs

def admitDial (policy : ConnectionPolicy) (request : DialRequest) (cls : ConnectionClass)
    (nowMs : Nat) : Except DialDenial Unit :=
  if policy.shuttingDown then .error .shuttingDown
  else
    match admitClass request cls with
    | .error denial => .error denial
    | .ok () =>
      match request.peer with
      | none => .ok ()
      | some peer =>
        if policy.backedOff peer request.address nowMs then .error .peerBackoff
        else if policy.quarantined peer request.address nowMs then .error .addressQuarantined
        else if policy.stateFull peer request.address nowMs then .error .policyStateFull
        else .ok ()

/-- Whether the key has a place: its own, one in the book, or one made for it. -/
def placed (address : String) : Bool :=
  decide (AddressKey.mk peer address ∈ policy.addresses) || inBook policy.book peer address

/-- `entry(key).or_default()` followed by the updates of the caller. -/
def updateAddress (address : String) (update : AddressState → AddressState) : ConnectionPolicy :=
  let key := AddressKey.mk peer address
  { policy with
    addresses := policy.addresses.insert key (update (policy.addresses[key]?.getD {})) }

def recordSuccess (address : String) (nowMs : Nat) : ConnectionPolicy :=
  let (policy, room) :=
    if policy.placed peer address then (policy, true) else policy.makeRoomForAddress nowMs
  if !room then { policy with peers := policy.peers.erase peer }
  else
    let policy := policy.updateAddress peer address (.succeeded nowMs)
    { policy with peers := policy.peers.erase peer }

/-- The room both failure records ask for: prune first, then evict. -/
def roomAfterPrune (address : String) (nowMs : Nat) : ConnectionPolicy × Bool :=
  if policy.placed peer address then (policy, true)
  else (policy.prune nowMs).makeRoomForAddress nowMs

def scoreAddressFailure (address : String) (nowMs : Nat) : ConnectionPolicy :=
  let (policy, room) := policy.roomAfterPrune peer address nowMs
  if room then policy.updateAddress peer address (.failed nowMs) else policy

/-- The peer itself backs off only when no other known-good address is dialable. -/
def recordAddressFailure (address : String) (nowMs backoffMs : Nat) : ConnectionPolicy × Bool :=
  let policy := policy.scoreAddressFailure peer address nowMs
  let alternativeExists := policy.addresses.toList.any fun entry =>
    decide (entry.1.peer = peer) && decide (entry.1.address ≠ address) &&
      entry.2.isKnownGood && entry.2.isDialableAt nowMs
  if alternativeExists then (policy, false)
  else
    let (policy, room) :=
      if peer ∈ policy.peers then (policy, true) else policy.makeRoomForPeer nowMs
    if !room then (policy, false)
    else
      let backoff := policy.peers[peer]?.getD {}
      ({ policy with
         peers := policy.peers.insert peer
          { consecutiveFailures := add32 backoff.consecutiveFailures 1
            untilMs := some (add64 nowMs backoffMs)
            lastTouchedMs := nowMs } }, true)

def recordIdentityMismatch (expectedPeer : TransportIdentity) (address : String) (nowMs : Nat) :
    ConnectionPolicy × Bool :=
  let (policy, room) := policy.roomAfterPrune expectedPeer address nowMs
  if !room then (policy, false)
  else (policy.updateAddress expectedPeer address (.mismatched nowMs), true)

def isAddressDialable (address : String) (nowMs : Nat) : Bool :=
  match policy.address peer address with
  | none => true
  | some state => state.isDialableAt nowMs

end ConnectionPolicy

end InterWeave
