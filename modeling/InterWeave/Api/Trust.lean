import InterWeave.Api.Identity

/-!
`trust-api`: the profile's allowlist and the narrowing an endpoint may add to it.
The two facts every constructor establishes, that the allowlist is within its
ceiling and never names the local peer, are fields of the policy.
-/

namespace InterWeave

inductive DenyReason where
  | notAllowlisted
  | narrowedByEndpoint
  | selfIdentity
  deriving DecidableEq, Repr

inductive TrustDecision where
  | allowed
  | denied (reason : DenyReason)
  deriving DecidableEq, Repr

def TrustDecision.isAllowed : TrustDecision → Bool
  | .allowed => true
  | .denied _ => false

def PeerTrustPolicy.maxAllowedPeers : Nat := 4096

@[ext]
structure PeerTrustPolicy where
  allowedPeers : Finset TransportIdentity
  localPeer : Option TransportIdentity
  bounded : allowedPeers.card ≤ PeerTrustPolicy.maxAllowedPeers
  notSelf : ∀ peer, localPeer = some peer → peer ∉ allowedPeers

/-- The derived default: nobody is allowed and no local peer is bound. -/
def PeerTrustPolicy.default : PeerTrustPolicy :=
  ⟨∅, none, by simp, by simp⟩

def InfrastructureSet.maxAllowedPeers : Nat := 256

structure InfrastructureSet where
  allowedPeers : Finset TransportIdentity
  bounded : allowedPeers.card ≤ InfrastructureSet.maxAllowedPeers

def InfrastructureSet.default : InfrastructureSet :=
  ⟨∅, by simp⟩

def InfrastructureSet.permitsControlConnection (infrastructure : InfrastructureSet)
    (peer : TransportIdentity) : Bool :=
  decide (peer ∈ infrastructure.allowedPeers)

inductive EndpointTrustPolicy where
  | inheritProfileTrust
  | staticSubset (allowedPeers : Finset TransportIdentity)

def EndpointTrustPolicy.admits (policy : EndpointTrustPolicy) (peer : TransportIdentity) : Bool :=
  match policy with
  | .inheritProfileTrust => true
  | .staticSubset allowedPeers => decide (peer ∈ allowedPeers)

namespace PeerTrustPolicy

variable (policy : PeerTrustPolicy) (peer : TransportIdentity)

def decide : TrustDecision :=
  if policy.localPeer = some peer then .denied .selfIdentity
  else if peer ∈ policy.allowedPeers then .allowed
  else .denied .notAllowlisted

def decideForEndpoint (endpoint : EndpointTrustPolicy) : TrustDecision :=
  match policy.decide peer with
  | .denied reason => .denied reason
  | .allowed => if endpoint.admits peer then .allowed else .denied .narrowedByEndpoint

theorem decideForEndpoint_allowed_iff (endpoint : EndpointTrustPolicy) :
    policy.decideForEndpoint peer endpoint = .allowed ↔
      policy.decide peer = .allowed ∧ endpoint.admits peer = true := by
  unfold decideForEndpoint
  cases policy.decide peer <;> simp

end PeerTrustPolicy

end InterWeave
