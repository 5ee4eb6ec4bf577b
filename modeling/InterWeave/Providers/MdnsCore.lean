import InterWeave.Api.Discovery
import InterWeave.Lib.Saturating

/-!
`discovery::mdns`: unauthenticated announcements of the local network as a discovery provider,
and the deadlines that a consumer holds from the events it is handed.
-/

namespace InterWeave.Mdns

open Std (ExtTreeMap ExtTreeSet)

def sourceName : String := "mdns"
def maxPeers : Nat := 256
def maxAddressesPerPeer : Nat := 8
def refreshIntervalMs : Nat := 30_000
def observationTtlMs : Nat := 120_000
def maxPendingEvents : Nat := (maxAddressesPerPeer + 1) * maxPeers

abbrev Deadlines := ExtTreeMap String Nat

structure MdnsDiscovery where
  seen : ExtTreeMap TransportIdentity Deadlines := ∅
  lastEmitted : ExtTreeMap TransportIdentity Nat := ∅
  started : Bool := false
  stopped : Bool := false
  backendUp : Bool := true
  pending : List DiscoveryEvent := []

def isHealth : DiscoveryEvent → Bool
  | .healthChanged _ _ => true
  | _ => false

def observedPeer : DiscoveryEvent → Option TransportIdentity
  | .candidateObserved candidate => some candidate.peerId
  | _ => none

/-- The oldest events that are not about health, up to a number, and the rest. -/
def trim : Nat → List DiscoveryEvent → List DiscoveryEvent × List DiscoveryEvent
  | _, [] => ([], [])
  | 0, kept => ([], kept)
  | excess + 1, event :: rest =>
    if isHealth event then
      let (dropped, kept) := trim (excess + 1) rest
      (dropped, event :: kept)
    else
      let (dropped, kept) := trim excess rest
      (event :: dropped, kept)

variable (peerId : TransportIdentity) (now : Nat)

/-- A queued event once an address of a peer is gone: an observation no longer names it, and an
expiry of the peer is merged into the one about to be queued. -/
def withoutAddress (address : String) : DiscoveryEvent → Option DiscoveryEvent
  | .candidateObserved candidate =>
    if candidate.peerId = peerId then
      let left := candidate.addresses.erase address
      if left.isEmpty then none
      else some (.candidateObserved { candidate with addresses := left })
    else some (.candidateObserved candidate)
  | .candidateExpired expired source addresses =>
    if expired = peerId then none else some (.candidateExpired expired source addresses)
  | .healthChanged source health => some (.healthChanged source health)

def mergeExpiry (merged : ExtTreeSet String) : DiscoveryEvent → ExtTreeSet String
  | .candidateExpired expired _ addresses =>
    if expired = peerId then merged ∪ addresses else merged
  | _ => merged

def dropFirst : Nat → ExtTreeSet String → ExtTreeSet String
  | 0, addresses => addresses
  | count + 1, addresses =>
    match addresses.min? with
    | none => addresses
    | some oldest => dropFirst count (addresses.erase oldest)

def capAddresses (merged : ExtTreeSet String) : ExtTreeSet String :=
  dropFirst (merged.size - maxAddressesPerPeer) merged

def addDeadline (groups : ExtTreeMap Nat (ExtTreeSet String)) (entry : String × Nat) :
    ExtTreeMap Nat (ExtTreeSet String) :=
  if now < entry.2 then groups.insert entry.2 ((groups[entry.2]?.getD ∅).insert entry.1)
  else groups

def byDeadline (addresses : Deadlines) (now : Nat) : ExtTreeMap Nat (ExtTreeSet String) :=
  addresses.toList.foldl (addDeadline now) ∅

def liveAddresses (groups : ExtTreeMap Nat (ExtTreeSet String)) : ExtTreeSet String :=
  groups.toList.foldl (fun live group => live ∪ group.2) ∅

/-- A queued event once some addresses of a peer are observed again: an observation of the peer is
superseded and an expiry no longer names them. -/
def withoutLive (live : ExtTreeSet String) : DiscoveryEvent → Option DiscoveryEvent
  | .candidateObserved candidate =>
    if candidate.peerId = peerId then none else some (.candidateObserved candidate)
  | .candidateExpired expired source addresses =>
    if expired = peerId then
      let left := addresses \ live
      if left.isEmpty then none else some (.candidateExpired expired source left)
    else some (.candidateExpired expired source addresses)
  | .healthChanged source health => some (.healthChanged source health)

def observed (group : Nat × ExtTreeSet String) : DiscoveryEvent :=
  .candidateObserved
    { peerId := peerId
      addresses := group.2
      source := sourceName
      observedAt := now
      expiresAt := some group.1
      protocolObservations := ∅ }

def lapsed (addresses : Deadlines) : List String :=
  (addresses.toList.filter fun entry => now ≥ entry.2).map Prod.fst

namespace MdnsDiscovery

variable (provider : MdnsDiscovery) (peerId : TransportIdentity) (now : Nat)

def enforcePendingBound : MdnsDiscovery :=
  if provider.pending.length ≤ maxPendingEvents then provider
  else
    let (dropped, kept) := trim (provider.pending.length - maxPendingEvents) provider.pending
    { provider with
      pending := kept
      lastEmitted := (dropped.filterMap observedPeer).foldl ExtTreeMap.erase provider.lastEmitted }

def queueExpiry (address : String) : MdnsDiscovery :=
  let merged := capAddresses (provider.pending.foldl (mergeExpiry peerId) {address})
  let kept := provider.pending.filterMap (withoutAddress peerId address)
  let expired := DiscoveryEvent.candidateExpired peerId sourceName merged
  { provider with pending := kept ++ [expired] }.enforcePendingBound

def queueObservation : MdnsDiscovery :=
  match provider.seen[peerId]? with
  | none => provider
  | some addresses =>
    let groups := byDeadline addresses now
    if groups.isEmpty then provider
    else
      { provider with
        lastEmitted := provider.lastEmitted.insert peerId now
        pending := provider.pending.filterMap (withoutLive peerId (liveAddresses groups)) ++
          groups.toList.map (observed peerId now) }.enforcePendingBound

/-- Drops the observations whose deadline has passed and queues an expiry for each. -/
def sweep : MdnsDiscovery :=
  let gone := provider.seen.toList.flatMap fun entry =>
    (lapsed now entry.2).map fun address => (entry.1, address)
  let seen := (provider.seen.map fun _ addresses =>
    addresses.filter fun _ deadline => now < deadline).filter fun _ addresses => !addresses.isEmpty
  let swept := { provider with
    seen := seen
    lastEmitted := provider.lastEmitted.filter fun peerId _ => peerId ∈ seen }
  gone.foldl (fun swept entry => swept.queueExpiry entry.1 entry.2) swept

def due : Bool :=
  match provider.lastEmitted[peerId]? with
  | none => true
  | some last => now - last ≥ refreshIntervalMs

def hold (addresses : Deadlines) (address : String) (now : Nat) : MdnsDiscovery :=
  let refreshed := address ∈ addresses
  let deadline := Saturating.add64 now observationTtlMs
  let held := { provider with
    seen := provider.seen.insert peerId (addresses.insert address deadline) }
  if ¬refreshed ∨ held.due peerId now then held.queueObservation peerId now else held

def pushDiscovered (peer address : String) (now : Nat) : MdnsDiscovery × Bool :=
  if ¬provider.started ∨ provider.stopped then (provider, false)
  else
    match TransportIdentity.parse peer with
    | .error _ => (provider, false)
    | .ok peerId =>
      if CandidatePeer.badAddress address then (provider, false)
      else
        let swept := provider.sweep now
        match swept.seen[peerId]? with
        | none =>
          if swept.seen.size ≥ maxPeers then (swept, false)
          else (swept.hold peerId ∅ address now, true)
        | some addresses =>
          if address ∉ addresses ∧ addresses.size ≥ maxAddressesPerPeer then (swept, false)
          else (swept.hold peerId addresses address now, true)

def start (provider : MdnsDiscovery) : MdnsDiscovery × Except ProviderError Unit :=
  if provider.started then (provider, .error .alreadyStarted)
  else
    let health : ProviderHealth := if provider.backendUp then .healthy else .degraded
    ({ provider with
        started := true
        pending := provider.pending ++ [.healthChanged sourceName health] }, .ok ())

/-- Queues again the observations that the bound dropped, as far as there is room for a peer. -/
def regenerate (provider : MdnsDiscovery) (now : Nat) : List TransportIdentity → MdnsDiscovery
  | [] => provider
  | peerId :: rest =>
    if provider.pending.length + maxAddressesPerPeer > maxPendingEvents then provider
    else (provider.queueObservation peerId now).regenerate now rest

def unemitted : List TransportIdentity :=
  provider.seen.keys.filter fun peerId => peerId ∉ provider.lastEmitted

def drainEvents (max : Nat) : MdnsDiscovery × List DiscoveryEvent :=
  if ¬provider.started ∨ provider.stopped then (provider, [])
  else
    let swept := provider.sweep now
    let filled := swept.regenerate now swept.unemitted
    ({ filled with pending := filled.pending.drop max }, filled.pending.take max)

end MdnsDiscovery

abbrev View := TransportIdentity → String → Option Nat

/-- What an event does to the deadline of one address: nothing, or a new value. -/
def effect (peer : TransportIdentity) (address : String) : DiscoveryEvent → Option (Option Nat)
  | .candidateObserved candidate =>
    if candidate.peerId = peer ∧ address ∈ candidate.addresses then some candidate.expiresAt
    else none
  | .candidateExpired expired _ addresses =>
    if expired = peer ∧ (addresses.isEmpty ∨ address ∈ addresses) then some none else none
  | .healthChanged _ _ => none

def View.receive (view : View) (event : DiscoveryEvent) : View :=
  fun peer address => (effect peer address event).getD (view peer address)

inductive Turn where
  | announce (peer address : String) (now : Nat)
  | drain (now max : Nat)

namespace Turn

def time : Turn → Nat
  | announce _ _ now => now
  | drain now _ => now

def subject : Turn → Option (TransportIdentity × String)
  | announce peer address _ =>
    match TransportIdentity.parse peer with
    | .ok peerId => some (peerId, address)
    | .error _ => none
  | drain _ _ => none

end Turn

/-- A started provider and its consumer, with the time of the latest accepted announcement of each
address. -/
structure Run where
  provider : MdnsDiscovery
  view : View
  announced : TransportIdentity → String → Option Nat

namespace Run

def start : Run where
  provider := (MdnsDiscovery.start {}).1
  view := fun _ _ => none
  announced := fun _ _ => none

def drain (run : Run) (now max : Nat) : Run :=
  let (provider, events) := run.provider.drainEvents now max
  { run with provider := provider, view := events.foldl View.receive run.view }

def step (run : Run) (turn : Turn) : Run :=
  match turn with
  | .announce peer address now =>
    let (provider, accepted) := run.provider.pushDiscovered peer address now
    let announced := fun peerId held =>
      if accepted ∧ turn.subject = some (peerId, held) then some now
      else run.announced peerId held
    drain { run with provider := provider, announced := announced } now maxPendingEvents
  | .drain now max => run.drain now max

def after (turns : List Turn) : Run :=
  turns.foldl step start

end Run

end InterWeave.Mdns
