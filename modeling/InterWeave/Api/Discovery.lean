import InterWeave.Api.Identity

/-!
`discovery-api`: candidate peers with their protocol observations, what a provider declares
about itself, and the events it emits.
-/

namespace InterWeave

open Std (ExtTreeSet)

inductive DiscoveryError where
  | tooManyItems (field : String) (got max : Nat)
  | invalidLength (field : String) (got max : Nat)
  | expiryBeforeObservation (observedAt expiresAt : Nat)
  | nonPrintableProtocolId (index : Nat)
  deriving DecidableEq, Repr

def maxProviderNameBytes : Nat := 64

namespace ProtocolId

def maxBytes : Nat := 256

def printable (b : UInt8) : Bool :=
  0x20 ≤ b && b ≤ 0x7e

def check (value : String) : Except DiscoveryError Unit :=
  if (bytesOf value).isEmpty ∨ (bytesOf value).length > maxBytes then
    .error (.invalidLength "protocol_observations[].protocol_id" (bytesOf value).length maxBytes)
  else
    match firstIllegal printable 0 (bytesOf value) with
    | some (index, _) => .error (.nonPrintableProtocolId index)
    | none => .ok ()

end ProtocolId

@[ext]
structure ProtocolId where
  asStr : String
  valid : ProtocolId.check asStr = .ok ()

instance : LinearOrder ProtocolId :=
  LinearOrder.lift' ProtocolId.asStr fun _ _ same => ProtocolId.ext same

@[ext]
structure ProtocolObservation where
  protocolId : ProtocolId
  supported : Bool
  observedAt : Nat

instance : LinearOrder ProtocolObservation :=
  LinearOrder.lift'
    (fun observation =>
      toLex (observation.protocolId, toLex (observation.supported, observation.observedAt)))
    fun _ _ same =>
      ProtocolObservation.ext (congrArg (fun fields => (ofLex fields).1) same)
        (congrArg (fun fields => (ofLex (ofLex fields).2).1) same)
        (congrArg (fun fields => (ofLex (ofLex fields).2).2) same)

namespace CandidatePeer

def maxAddresses : Nat := 64
def maxProtocolObservations : Nat := 16
def maxAddressBytes : Nat := 256

end CandidatePeer

structure CandidatePeer where
  peerId : TransportIdentity
  addresses : ExtTreeSet String
  source : String
  observedAt : Nat
  expiresAt : Option Nat
  protocolObservations : ExtTreeSet ProtocolObservation

namespace CandidatePeer

def badAddress (address : String) : Bool :=
  (bytesOf address).isEmpty || decide ((bytesOf address).length > maxAddressBytes)

def validate (candidate : CandidatePeer) : Except DiscoveryError Unit :=
  if candidate.addresses.size > maxAddresses then
    .error (.tooManyItems "addresses" candidate.addresses.size maxAddresses)
  else
    match candidate.addresses.toList.find? badAddress with
    | some address =>
      .error (.invalidLength "addresses[]" (bytesOf address).length maxAddressBytes)
    | none =>
      if candidate.protocolObservations.size > maxProtocolObservations then
        .error (.tooManyItems "protocol_observations" candidate.protocolObservations.size
          maxProtocolObservations)
      else if (bytesOf candidate.source).isEmpty ∨
          (bytesOf candidate.source).length > maxProviderNameBytes then
        .error (.invalidLength "source" (bytesOf candidate.source).length maxProviderNameBytes)
      else
        match candidate.expiresAt with
        | some expiresAt =>
          if expiresAt < candidate.observedAt then
            .error (.expiryBeforeObservation candidate.observedAt expiresAt)
          else .ok ()
        | none => .ok ()

end CandidatePeer

inductive ProviderScope where
  | local
  | configured
  | network
  deriving DecidableEq, Repr

inductive ProviderHealth where
  | healthy
  | degraded
  | unavailable
  deriving DecidableEq, Repr

structure ProviderDescriptor where
  name : String
  interfaceVersion : String
  configVersion : Option String
  scope : ProviderScope
  supportsExpiry : Bool
  deriving DecidableEq, Repr

def isMajorMinor (value : String) : Bool :=
  match value.toList.splitOn '.' with
  | [major, minor] =>
    !major.isEmpty && major.all Char.isDigit && (!minor.isEmpty && minor.all Char.isDigit)
  | _ => false

def checkVersion (field value : String) : Except DiscoveryError Unit :=
  if isMajorMinor value then .ok () else .error (.invalidLength field (bytesOf value).length 0)

def ProviderDescriptor.validate (descriptor : ProviderDescriptor) : Except DiscoveryError Unit := do
  if (bytesOf descriptor.name).isEmpty ∨
      (bytesOf descriptor.name).length > maxProviderNameBytes then
    throw (.invalidLength "name" (bytesOf descriptor.name).length maxProviderNameBytes)
  checkVersion "interface_version" descriptor.interfaceVersion
  match descriptor.configVersion with
  | some version => checkVersion "config_version" version
  | none => pure ()

inductive ProviderError where
  | alreadyStarted
  | notStarted
  | failed (reason : String)
  deriving DecidableEq, Repr

inductive DiscoveryEvent where
  | candidateObserved (candidate : CandidatePeer)
  | candidateExpired (peerId : TransportIdentity) (source : String) (addresses : ExtTreeSet String)
  | healthChanged (source : String) (health : ProviderHealth)

end InterWeave
