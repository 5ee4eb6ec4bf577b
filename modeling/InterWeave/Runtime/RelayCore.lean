import InterWeave.Api.Identity
import InterWeave.Api.Status
import InterWeave.Lib.KeySort
import InterWeave.Lib.MapSum
import InterWeave.Lib.Saturating

/-!
`runtime::relay`: which relays are asked for a reservation, which reservations are held and
which are released, with the adapter's copy of the advertised addresses beside it.
-/

namespace InterWeave

open Std (ExtTreeMap)
open OrderedMap Saturating

namespace Relay

def maxStaticRelays : Nat := 16
def maxLearnedRelays : Nat := 16
def maxAddressesPerRelay : Nat := 8
def maxReservationsCeiling : Nat := 8

structure ReservationConfig where
  targetPrivateOrUnknown : Nat := 2
  targetPublic : Nat := 1
  maxReservations : Nat := 4
  retryMinMs : Nat := 5000
  retryMaxMs : Nat := 300000

inductive ConfigError where
  | maxReservations
  | targets
  | retry
  deriving DecidableEq, Repr

inductive RelaySource where
  | static
  | learned
  deriving DecidableEq, Repr

def RelaySource.rank : RelaySource → Nat
  | .static => 0
  | .learned => 1

inductive ReservationState where
  | idle
  | requested (sinceMs attempts : Nat)
  | active (sinceMs : Nat) (addresses : List String)
  | backoff (untilMs attempts : Nat)
  deriving DecidableEq, Repr

namespace ReservationState

def isActive : ReservationState → Bool
  | .active .. => true
  | _ => false

def isRequested : ReservationState → Bool
  | .requested .. => true
  | _ => false

def isAskable (now : Nat) : ReservationState → Bool
  | .idle => true
  | .backoff untilMs _ => untilMs ≤ now
  | _ => false

def advertised : ReservationState → List String
  | .active _ addresses => addresses
  | _ => []

end ReservationState

structure Candidate where
  addresses : List String
  source : RelaySource
  state : ReservationState
  liftedAtMs : Option Nat

def Candidate.addAddress (candidate : Candidate) (address : String) : Candidate × Bool :=
  if address ∈ candidate.addresses then (candidate, true)
  else if candidate.addresses.length ≥ maxAddressesPerRelay then (candidate, false)
  else ({ candidate with addresses := candidate.addresses ++ [address] }, true)

inductive Action where
  | reserve (relay : TransportIdentity) (addresses : List String)
  | release (relay : TransportIdentity) (addresses : List String)

inductive RefusedRelayReport where
  | unknownRelay
  | unrequestedAcceptance
  | unrequestedFailure
  | emptyAddress
  | addressesFull
  deriving DecidableEq, Repr

structure ReservationManager where
  config : ReservationConfig
  candidates : ExtTreeMap TransportIdentity Candidate
  directInbound : DirectInboundState

/-- The minimum doubled `attempts` times, stopping at the maximum. -/
def ReservationConfig.retryDelayMs (config : ReservationConfig) (attempts : Nat) : Nat :=
  min (mul64 config.retryMinMs (2 ^ min attempts 20)) config.retryMaxMs

namespace ReservationManager

variable (manager : ReservationManager) (config : ReservationConfig) (relay : TransportIdentity)
  (address : String) (now : Nat) (candidate : Candidate)

def new : Except ConfigError ReservationManager :=
  if config.maxReservations = 0 ∨ config.maxReservations > maxReservationsCeiling then
    .error .maxReservations
  else if config.targetPrivateOrUnknown > config.maxReservations ∨
      config.targetPublic > config.maxReservations ∨
      config.targetPublic > config.targetPrivateOrUnknown then
    .error .targets
  else if config.retryMinMs = 0 ∨ config.retryMinMs > config.retryMaxMs then .error .retry
  else .ok ⟨config, ∅, .unknown⟩

def count (source : RelaySource) : Nat :=
  countWhere (fun _ candidate => candidate.source = source) manager.candidates

def put : ReservationManager :=
  { manager with candidates := manager.candidates.insert relay candidate }

def addStatic : ReservationManager × Bool :=
  if address.isEmpty then (manager, false)
  else
    match manager.candidates[relay]? with
    | some candidate =>
      match candidate.source with
      | .learned =>
        if manager.count .static ≥ maxStaticRelays then (manager, false)
        else
          (manager.put relay { candidate with
            source := .static, addresses := [address] }, true)
      | .static =>
        (manager.put relay (candidate.addAddress address).1, (candidate.addAddress address).2)
    | none =>
      if manager.count .static ≥ maxStaticRelays then (manager, false)
      else (manager.put relay ⟨[address], .static, .idle, none⟩, true)

def learn : ReservationManager × Bool :=
  if address.isEmpty then (manager, false)
  else
    match manager.candidates[relay]? with
    | some candidate =>
      match candidate.source with
      | .static => (manager, true)
      | .learned =>
        (manager.put relay (candidate.addAddress address).1, (candidate.addAddress address).2)
    | none =>
      if manager.count .learned ≥ maxLearnedRelays then (manager, false)
      else (manager.put relay ⟨[address], .learned, .idle, none⟩, true)

def forget : ReservationManager × List String :=
  ({ manager with candidates := manager.candidates.erase relay },
    match manager.candidates[relay]? with
    | some candidate => candidate.state.advertised
    | none => [])

def wanted : Nat :=
  match manager.directInbound with
  | .verifiedPublic => manager.config.targetPublic
  | .unknown | .notVerified => manager.config.targetPrivateOrUnknown

def target : Nat :=
  min (min manager.config.maxReservations manager.wanted) manager.candidates.size

def active : Nat :=
  countWhere (fun _ candidate => candidate.state.isActive) manager.candidates

def requested : Nat :=
  countWhere (fun _ candidate => candidate.state.isRequested) manager.candidates

def advertised (manager : ReservationManager) : List String :=
  manager.candidates.toList.flatMap fun entry => entry.2.state.advertised

def askKey (entry : TransportIdentity × Candidate) : Nat ×ₗ TransportIdentity :=
  toLex (entry.2.source.rank, entry.1)

/-- Relays that may be asked now, static before learned, then by identity. -/
def askable : List TransportIdentity :=
  (KeySort.sortByKey askKey
    (manager.candidates.toList.filter fun entry => entry.2.state.isAskable now)).map Prod.fst

structure Held where
  relay : TransportIdentity
  source : RelaySource
  sinceMs : Nat

def Held.key (held : Held) : Natᵒᵈ ×ₗ Natᵒᵈ :=
  toLex (OrderDual.toDual held.source.rank, OrderDual.toDual held.sinceMs)

def heldOf (entry : TransportIdentity × Candidate) : Option Held :=
  match entry.2.state with
  | .active sinceMs _ => some ⟨entry.1, entry.2.source, sinceMs⟩
  | _ => none

def releaseOne (released : ReservationManager × List Action) (held : Held) :
    ReservationManager × List Action :=
  match released.1.candidates[held.relay]? with
  | none => released
  | some candidate =>
    match candidate.state with
    | .active _ addresses =>
      (released.1.put held.relay { candidate with state := .idle },
        released.2 ++ [.release held.relay addresses])
    | _ => released

/-- The active reservations above the target, in the order they go. -/
def surplus : List Held :=
  (KeySort.sortByKey Held.key (manager.candidates.toList.filterMap heldOf)).take
    (manager.active - manager.target)

def releaseSurplus : ReservationManager × List Action :=
  if manager.active ≤ manager.target then (manager, [])
  else manager.surplus.foldl releaseOne (manager, [])

def setDirectInbound (state : DirectInboundState) : ReservationManager × List Action :=
  { manager with directInbound := state }.releaseSurplus

def askOne (asked : ReservationManager × List Action) (relay : TransportIdentity) :
    ReservationManager × List Action :=
  match asked.1.candidates[relay]? with
  | none => asked
  | some candidate =>
    let attempts := match candidate.state with
      | .backoff _ attempts => attempts
      | _ => 0
    (asked.1.put relay { candidate with state := .requested now attempts },
      asked.2 ++ [.reserve relay candidate.addresses])

def toAsk : List TransportIdentity :=
  (manager.askable now).take (manager.target - (manager.active + manager.requested))

def askDue : ReservationManager × List Action :=
  (manager.toAsk now).foldl (askOne now) (manager, [])

def tick : ReservationManager × List Action :=
  let asked := manager.askDue now
  let released := asked.1.releaseSurplus
  (released.1, asked.2 ++ released.2)

def recordAccepted : ReservationManager × Except RefusedRelayReport Bool :=
  if address.isEmpty then (manager, .error .emptyAddress)
  else
    match manager.candidates[relay]? with
    | none => (manager, .error .unknownRelay)
    | some candidate =>
      match candidate.state with
      | .requested _ _ =>
        (manager.put relay { candidate with state := .active now [address] }, .ok true)
      | .active sinceMs addresses =>
        if address ∈ addresses then (manager, .ok false)
        else if addresses.length ≥ maxAddressesPerRelay then (manager, .error .addressesFull)
        else
          (manager.put relay { candidate with
            state := .active sinceMs (addresses ++ [address]) }, .ok true)
      | .idle | .backoff _ _ => (manager, .error .unrequestedAcceptance)

def failed (attempts now jitter : Nat) : Candidate :=
  let delay := config.retryDelayMs attempts
  { candidate with
    state := .backoff (add64 (add64 now delay) (min jitter delay))
      (add32 attempts 1) }

def recordFailed (jitter : Nat) : ReservationManager × Except RefusedRelayReport (List String) :=
  match manager.candidates[relay]? with
  | none => (manager, .error .unknownRelay)
  | some candidate =>
    match candidate.state with
    | .active _ addresses =>
      (manager.put relay (failed manager.config candidate 0 now jitter), .ok addresses)
    | .backoff _ attempts | .requested _ attempts =>
      (manager.put relay (failed manager.config candidate attempts now jitter), .ok [])
    | .idle => (manager, .error .unrequestedFailure)

/-- A relay backing off is due now, unless it was lifted lately or the dial gate holds it. -/
def lift (gateHolds : TransportIdentity → Bool) (relay : TransportIdentity)
    (candidate : Candidate) : Candidate × Nat :=
  if candidate.liftedAtMs.any (fun lifted => now - lifted < config.retryMinMs) ∨
      gateHolds relay then (candidate, 0)
  else
    match candidate.state with
    | .backoff untilMs attempts =>
      if untilMs > now then
        ({ candidate with state := .backoff now attempts, liftedAtMs := some now }, 1)
      else (candidate, 0)
    | _ => (candidate, 0)

def networkAdded (gateHolds : TransportIdentity → Bool) : ReservationManager × Nat :=
  ({ manager with candidates := manager.candidates.map fun relay candidate =>
      (lift manager.config now gateHolds relay candidate).1 },
    sumOver (fun relay candidate => (lift manager.config now gateHolds relay candidate).2)
      manager.candidates)

end ReservationManager

inductive Call where
  | addStatic (relay : TransportIdentity) (address : String)
  | learn (relay : TransportIdentity) (address : String)
  | forget (relay : TransportIdentity)
  | setDirectInbound (state : DirectInboundState)
  | tick (now : Nat)
  | recordAccepted (relay : TransportIdentity) (address : String) (now : Nat)
  | recordFailed (relay : TransportIdentity) (now jitter : Nat)
  | networkAdded (now : Nat) (gateHolds : TransportIdentity → Bool)

def step (manager : ReservationManager) : Call → ReservationManager
  | .addStatic relay address => (manager.addStatic relay address).1
  | .learn relay address => (manager.learn relay address).1
  | .forget relay => (manager.forget relay).1
  | .setDirectInbound state => (manager.setDirectInbound state).1
  | .tick now => (manager.tick now).1
  | .recordAccepted relay address now => (manager.recordAccepted relay address now).1
  | .recordFailed relay now jitter => (manager.recordFailed relay now jitter).1
  | .networkAdded now gateHolds => (manager.networkAdded now gateHolds).1

def run (manager : ReservationManager) (calls : List Call) : ReservationManager :=
  calls.foldl step manager

def Action.withdrawn : Action → List String
  | .reserve _ _ => []
  | .release _ addresses => addresses

structure Mirror where
  manager : ReservationManager
  external : Multiset String

namespace Mirror

def withdraw (mirror : Mirror) (manager : ReservationManager) (addresses : List String) : Mirror :=
  ⟨manager, mirror.external - addresses⟩

/-- What the adapter does with each answer, and with nothing else. -/
def step (mirror : Mirror) (call : Call) : Mirror :=
  match call with
  | .recordAccepted relay address now =>
    match mirror.manager.recordAccepted relay address now with
    | (manager, .ok true) => ⟨manager, address ::ₘ mirror.external⟩
    | (manager, _) => ⟨manager, mirror.external⟩
  | .recordFailed relay now jitter =>
    match mirror.manager.recordFailed relay now jitter with
    | (manager, .ok addresses) => mirror.withdraw manager addresses
    | (manager, .error _) => ⟨manager, mirror.external⟩
  | .forget relay =>
    mirror.withdraw (mirror.manager.forget relay).1 (mirror.manager.forget relay).2
  | .setDirectInbound state =>
    mirror.withdraw (mirror.manager.setDirectInbound state).1
      ((mirror.manager.setDirectInbound state).2.flatMap Action.withdrawn)
  | .tick now =>
    mirror.withdraw (mirror.manager.tick now).1
      ((mirror.manager.tick now).2.flatMap Action.withdrawn)
  | other => ⟨Relay.step mirror.manager other, mirror.external⟩

def run (mirror : Mirror) (calls : List Call) : Mirror := calls.foldl step mirror

end Mirror

end Relay

end InterWeave
