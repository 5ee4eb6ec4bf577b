import InterWeave.Api.Payload
import InterWeave.Lib.Wire

/-!
`transport-api::direct_v2`: the frame of `/interweave/direct/2.0.0`, as its encoder writes it and
its one header parser and its decoder read it.
-/

namespace InterWeave

open Wire

inductive FrameError where
  | truncated (field : String) (needed available : Nat)
  | payloadTooLarge (got max : Nat)
  | declaredTooLong (field : String) (got max : Nat)
  | emptySourceEndpoint
  | endpoint (field : String) (error : IdError)
  | media (error : PayloadError)
  | trailingBytes (extra : Nat)
  deriving DecidableEq, Repr

def FrameError.toWire : FrameError → DirectRejectReason
  | .payloadTooLarge _ _ => .tooLarge
  | _ => .malformed

abbrev Cursor (α : Type) : Type := Reader FrameError α

namespace Cursor

def take (field : String) (len : Nat) : Cursor (List UInt8) :=
  Reader.take (fun available => .truncated field len available) len

def takeU8 (field : String) : Cursor UInt8 := do
  let slice ← take field 1
  pure (slice.headD 0)

end Cursor

def fromUtf8 (raw : List UInt8) : Option String :=
  String.fromUTF8? ⟨raw.toArray⟩

def lenU8 (len : Nat) : UInt8 :=
  UInt8.ofNat (min len 255)

namespace DirectMessageV2

def labelBytes (endpoint : Option EndpointId) : List UInt8 :=
  endpoint.elim [] fun endpoint => bytesOf endpoint.asStr

def mediaBytes (mediaType : Option MediaType) : List UInt8 :=
  mediaType.elim [] fun mediaType => bytesOf mediaType.asStr

def encode (message : DirectMessageV2) : List UInt8 :=
  let source := bytesOf message.sourceEndpoint.asStr
  let destination := labelBytes message.destinationEndpoint
  let media := mediaBytes message.payload.mediaType
  let bytes := message.payload.bytes
  message.messageId.bytes ++ beBytes 8 message.sentAtMs.toNat
    ++ [lenU8 source.length] ++ source
    ++ [lenU8 destination.length] ++ destination
    ++ [lenU8 media.length] ++ media
    ++ beBytes 4 (min bytes.length (2 ^ 32 - 1)) ++ bytes

end DirectMessageV2

structure DirectHeaderV2 where
  messageId : MessageId
  sentAtMs : UInt64
  sourceEndpoint : EndpointId
  destinationEndpoint : Option EndpointId
  mediaType : Option MediaType
  declaredPayloadLen : Nat

namespace DirectMessageV2

open Cursor

def ceiling (field : String) (got max : Nat) : Except FrameError Unit :=
  if got > max then .error (.declaredTooLong field got max) else .ok ()

def checkText {ε α : Type} (notText : FrameError) (parse : String → Except ε α)
    (wrap : ε → FrameError) (raw : List UInt8) : Except FrameError α :=
  match fromUtf8 raw with
  | none => .error notText
  | some text => (parse text).mapError wrap

def endpoint (field : String) (raw : List UInt8) : Except FrameError EndpointId :=
  checkText (.endpoint field (.illegalByte 0 (raw.headD 0))) EndpointId.parse (.endpoint field) raw

def media (raw : List UInt8) : Except FrameError MediaType :=
  checkText (.media (.mediaTypeNotAscii 0)) MediaType.parse .media raw

/-- What follows a length byte that is not zero, in all three labelled fields. -/
def takeLabelled {α : Type} (field : String) (len max : Nat)
    (check : List UInt8 → Except FrameError α) : Cursor α := do
  Reader.lift (ceiling field len max)
  let raw ← take field len
  Reader.lift (check raw)

/-- A zero length is the absence of the field, never an empty text. -/
def takeOptional {α : Type} (lenField field : String) (max : Nat)
    (check : List UInt8 → Except FrameError α) : Cursor (Option α) := do
  let len ← takeU8 lenField
  if len = 0 then pure none
  else
    let value ← takeLabelled field len.toNat max check
    pure (some value)

def takeMessageId : Cursor MessageId := fun buffer =>
  if short : 16 > buffer.length then .error (.truncated "message_id" 16 buffer.length)
  else .ok (⟨buffer.take 16, by simp; omega⟩, buffer.drop 16)

def takeSource : Cursor EndpointId := do
  let len ← takeU8 "source_endpoint_len"
  if len = 0 then Reader.lift (.error .emptySourceEndpoint)
  else
    takeLabelled "source_endpoint" len.toNat EndpointId.maxBytes (endpoint "source_endpoint")

def takeDestination : Cursor (Option EndpointId) :=
  takeOptional "destination_endpoint_len" "destination_endpoint" EndpointId.maxBytes
    (endpoint "destination_endpoint")

def takeMedia : Cursor (Option MediaType) :=
  takeOptional "media_type_len" "media_type" maxMediaTypeBytes media

def parseHeader : Cursor DirectHeaderV2 := do
  let messageId ← takeMessageId
  let sentAtMs ← take "sent_at_ms" 8
  let sourceEndpoint ← takeSource
  let destinationEndpoint ← takeDestination
  let mediaType ← takeMedia
  let declared ← take "payload_len" 4
  pure ⟨messageId, .ofNat (fromBe sentAtMs), sourceEndpoint, destinationEndpoint, mediaType,
    fromBe declared⟩

def declaredPayloadLen (buffer : List UInt8) : Except FrameError Nat :=
  (parseHeader buffer).map fun answer => answer.1.declaredPayloadLen

/-- The declared length is compared before anything of the payload is read. -/
def takePayload (header : DirectHeaderV2) (limit : Nat) : Cursor Payload := do
  let len := header.declaredPayloadLen
  let max := min limit maxPayloadBytes
  if len > max then Reader.lift (.error (.payloadTooLarge len max))
  else
    let bytes ← take "payload" len
    Reader.lift ((Payload.new header.mediaType bytes limit).mapError .media)

def takeMessage (limit : Nat) : Cursor DirectMessageV2 := do
  let header ← parseHeader
  let payload ← takePayload header limit
  pure ⟨header.messageId, header.sentAtMs, header.sourceEndpoint, header.destinationEndpoint,
    payload⟩

def decode (buffer : List UInt8) (limit : Nat) : Except FrameError DirectMessageV2 :=
  match takeMessage limit buffer with
  | .error error => .error error
  | .ok (message, left) =>
    if left.length > 0 then .error (.trailingBytes left.length) else .ok message

end DirectMessageV2

end InterWeave
