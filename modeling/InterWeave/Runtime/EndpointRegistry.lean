import InterWeave.Api.Trust

/-!
`runtime::endpoint_registry`: configured endpoints, the leases local sessions
hold on them and the default a direct message without a destination goes to.
-/

namespace InterWeave

open Std (ExtTreeMap)

def Generation.check (value : String) : Bool :=
  16 ≤ (bytesOf value).length && (bytesOf value).length ≤ 64 &&
    (bytesOf value).all fun b => isAsciiAlphanumeric b || b == 0x5f || b == 0x2d

structure Generation where
  asStr : String
  valid : Generation.check asStr = true
  deriving DecidableEq

structure LocalSessionId where
  value : String
  deriving DecidableEq

structure RegisteredEndpoint where
  enabled : Bool := true
  advertise : Bool := false
  allowedClientKinds : List String := []
  inbound : EndpointTrustPolicy := .inheritProfileTrust
  outbound : EndpointTrustPolicy := .inheritProfileTrust

structure ActiveLease where
  owner : LocalSessionId
  epoch : Generation
  clientKind : String
  deriving DecidableEq

inductive ResolveFailure where
  | endpointUnknown
  | endpointDisabled
  | endpointOffline
  | noDefaultConfigured
  | endpointPolicyDenied
  deriving DecidableEq, Repr

inductive ClaimFailure where
  | endpointUnknown
  | endpointDisabled
  | endpointClientKindDenied
  | endpointInUse
  | sessionAlreadyLeased (held : EndpointId)
  | epochInUse (held : EndpointId)
  deriving DecidableEq

structure EndpointRegistry where
  endpoints : ExtTreeMap EndpointId RegisteredEndpoint
  leases : ExtTreeMap EndpointId ActiveLease
  defaultDirectEndpoint : Option EndpointId

namespace EndpointRegistry

def new (endpoints : ExtTreeMap EndpointId RegisteredEndpoint)
    (defaultDirectEndpoint : Option EndpointId) : EndpointRegistry :=
  ⟨endpoints, ∅, defaultDirectEndpoint⟩

variable (registry : EndpointRegistry) (endpoint : EndpointId)

def claim (session : LocalSessionId) (clientKind : String) (epoch : Generation) :
    EndpointRegistry × Except ClaimFailure ActiveLease :=
  match registry.endpoints[endpoint]? with
  | none => (registry, .error .endpointUnknown)
  | some configured =>
    if !configured.enabled then (registry, .error .endpointDisabled)
    else if !configured.allowedClientKinds.isEmpty &&
        !configured.allowedClientKinds.contains clientKind then
      (registry, .error .endpointClientKindDenied)
    else if endpoint ∈ registry.leases then (registry, .error .endpointInUse)
    else
      match registry.leases.toList.find? fun lease => lease.2.owner = session with
      | some (held, _) => (registry, .error (.sessionAlreadyLeased held))
      | none =>
        match registry.leases.toList.find? fun lease => lease.2.epoch = epoch with
        | some (held, _) => (registry, .error (.epochInUse held))
        | none =>
          let lease : ActiveLease := ⟨session, epoch, clientKind⟩
          ({ registry with leases := registry.leases.insert endpoint lease }, .ok lease)

def releaseSession (session : LocalSessionId) : EndpointRegistry × List EndpointId :=
  let released := (registry.leases.toList.filter fun lease => lease.2.owner = session).map Prod.fst
  ({ registry with leases := released.foldl ExtTreeMap.erase registry.leases }, released)

def revoke : EndpointRegistry × Option Generation :=
  ({ registry with leases := registry.leases.erase endpoint },
    registry.leases[endpoint]?.map ActiveLease.epoch)

def setEnabled (enabled : Bool) : EndpointRegistry × Option Generation :=
  match registry.endpoints[endpoint]? with
  | none => (registry, none)
  | some configured =>
    let registry := { registry with
      endpoints := registry.endpoints.insert endpoint { configured with enabled := enabled } }
    if enabled then (registry, none) else registry.revoke endpoint

def setDefault (endpoint : Option EndpointId) : EndpointRegistry :=
  { registry with defaultDirectEndpoint := endpoint }

def holdsLease (epoch : Generation) : Bool :=
  match registry.leases[endpoint]? with
  | none => false
  | some lease => decide (lease.epoch = epoch)

def resolveInbound (requested : Option EndpointId) (sourcePeerAllowed :
      EndpointTrustPolicy → Bool) :
    Except ResolveFailure (EndpointId × ActiveLease) :=
  match requested.or registry.defaultDirectEndpoint with
  | none => .error .noDefaultConfigured
  | some target =>
    match registry.endpoints[target]? with
    | none => .error .endpointUnknown
    | some configured =>
      if !configured.enabled then .error .endpointDisabled
      else if !sourcePeerAllowed configured.inbound then .error .endpointPolicyDenied
      else
        match registry.leases[target]? with
        | none => .error .endpointOffline
        | some lease => .ok (target, lease)

def maxDirectoryEntries : Nat := 32

def advertisedFor (peer : TransportIdentity) (profile : PeerTrustPolicy) (cap : Nat) :
    List EndpointId :=
  let shown := registry.endpoints.toList.filter fun entry =>
    entry.2.enabled && entry.2.advertise
  let leased := shown.filter fun entry => decide (entry.1 ∈ registry.leases)
  let admissible := leased.filter fun entry =>
    (profile.decideForEndpoint peer entry.2.inbound).isAllowed
  (admissible.map Prod.fst).take (min cap maxDirectoryEntries)

theorem resolveInbound_ok {registry : EndpointRegistry}
    (resolved : registry.resolveInbound requested sourcePeerAllowed = .ok (target, lease)) :
    requested.or registry.defaultDirectEndpoint = some target ∧
      registry.leases[target]? = some lease ∧
      ∃ configured, registry.endpoints[target]? = some configured ∧
        configured.enabled = true ∧ sourcePeerAllowed configured.inbound = true := by
  unfold resolveInbound at resolved
  split at resolved
  · cases resolved
  next chosen named =>
    split at resolved
    · cases resolved
    next configured found =>
      split at resolved
      · cases resolved
      next enabled =>
        split at resolved
        · cases resolved
        next admitted =>
          split at resolved
          · cases resolved
          next held leased =>
            cases resolved
            exact ⟨named, leased, configured, found, by simpa using enabled,
              by simpa using admitted⟩

end EndpointRegistry

end InterWeave
