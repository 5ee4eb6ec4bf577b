import InterWeave.Api.Identity

/-!
`transport-api::payload` and the typed frame of `direct_v2`: a media type is one
to 128 printable bytes, a payload is within the frozen ceiling.
-/

namespace InterWeave

def maxPayloadBytes : Nat := 49152

def maxMediaTypeBytes : Nat := 128

inductive PayloadError where
  | tooLarge (got limit : Nat)
  | emptyMediaType
  | mediaTypeTooLong (got : Nat)
  | mediaTypeNotAscii (index : Nat)
  deriving DecidableEq, Repr

def isPrintableAscii (b : UInt8) : Bool :=
  0x20 ≤ b && b ≤ 0x7e

def MediaType.check (value : String) : Except PayloadError Unit :=
  if (bytesOf value).isEmpty then .error .emptyMediaType
  else if (bytesOf value).length > maxMediaTypeBytes then
    .error (.mediaTypeTooLong (bytesOf value).length)
  else
    match firstIllegal isPrintableAscii 0 (bytesOf value) with
    | some (index, _) => .error (.mediaTypeNotAscii index)
    | none => .ok ()

@[ext]
structure MediaType where
  asStr : String
  valid : MediaType.check asStr = .ok ()
  deriving DecidableEq

def MediaType.parse (value : String) : Except PayloadError MediaType :=
  match valid : MediaType.check value with
  | .error error => .error error
  | .ok () => .ok ⟨value, valid⟩

@[ext]
structure Payload where
  mediaType : Option MediaType
  bytes : List UInt8
  bounded : bytes.length ≤ maxPayloadBytes
  deriving DecidableEq

/-- `Payload::new`: the caller's limit never raises the frozen ceiling. -/
def Payload.new (mediaType : Option MediaType) (bytes : List UInt8) (limit : Nat) :
    Except PayloadError Payload :=
  if within : bytes.length > min limit maxPayloadBytes then
    .error (.tooLarge bytes.length (min limit maxPayloadBytes))
  else
    .ok ⟨mediaType, bytes, by omega⟩

structure DirectMessageV2 where
  messageId : MessageId
  sentAtMs : UInt64
  sourceEndpoint : EndpointId
  destinationEndpoint : Option EndpointId
  payload : Payload
  deriving DecidableEq

inductive TransportError where
  | invalidArgument
  | payloadTooLarge
  | channelNotJoined
  | endpointNotRegistered
  | endpointUnknown
  | endpointInUse
  | endpointDisabled
  | endpointClientKindDenied
  | capabilityDenied
  | unauthorizedPeer
  | peerUnknown
  | peerUnreachable
  | remoteEndpointUnavailable
  | timeout
  | cancelledBeforeDispatch
  | cancellationRaced
  | overloaded
  | backendUnavailable
  | protocolUnsupported
  | protocolViolation
  | versionIncompatible
  | shuttingDown
  | internal
  deriving DecidableEq, Repr

inductive DirectRejectReason where
  | noRoute
  | unauthorizedPeer
  | overloaded
  | malformed
  | tooLarge
  | shuttingDown
  | unsupported
  deriving DecidableEq, Repr

theorem firstIllegal_eq_none : firstIllegal ok index bytes = none ↔ bytes.all ok = true := by
  induction bytes generalizing index with
  | nil => simp [firstIllegal]
  | cons b rest ih =>
    by_cases legal : ok b = true
    · simp [firstIllegal, legal, ih]
    · simp [firstIllegal, legal]

theorem MediaType.check_ok (valid : MediaType.check value = .ok ()) :
    bytesOf value ≠ [] ∧ (bytesOf value).length ≤ maxMediaTypeBytes ∧
      (bytesOf value).all isPrintableAscii = true := by
  unfold MediaType.check at valid
  split at valid
  · cases valid
  next nonempty =>
    split at valid
    · cases valid
    next short =>
      split at valid
      · cases valid
      next legal =>
        refine ⟨by simpa using nonempty, by omega, firstIllegal_eq_none.mp legal⟩

end InterWeave
