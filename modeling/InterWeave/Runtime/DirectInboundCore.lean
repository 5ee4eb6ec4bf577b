import InterWeave.Runtime.DedupCore
import InterWeave.Runtime.Ingress
import InterWeave.Runtime.EndpointRegistry
import InterWeave.Runtime.EndpointQueue

/-!
`runtime::direct_inbound`: the admission of one direct frame. The context the
source borrows mutably is a state that each function hands back.
-/

namespace InterWeave

structure Clocks where
  monotonicMs : Nat
  wallMs : Nat
  deriving DecidableEq

structure PrefixContext where
  trust : PeerTrustPolicy
  ingress : IngressLimiter
  draining : Bool

structure AdmissionContext where
  prefixContext : PrefixContext
  dedup : DedupCache
  reservations : ReservationMap
  registry : EndpointRegistry
  queues : EndpointQueues

inductive Refusal where
  | untrustedPeer
  | draining
  | rateLimited
  | unfingerprintable
  | duplicateConflict
  | overloaded
  | noRoute (failure : ResolveFailure)
  | queue (refusal : QueueRefusal)
  deriving DecidableEq, Repr

inductive Outcome where
  | accepted (resolvedEndpoint : EndpointId)
  | duplicateAccepted (resolvedEndpoint : EndpointId)
  | attachedAsWaiter
  | refused (refusal : Refusal)
  deriving DecidableEq

def dedupKey (frame : DirectMessageV2) (sourcePeer : TransportIdentity) : DedupKey :=
  .direct sourcePeer frame.sourceEndpoint
    (match frame.destinationEndpoint with
    | none => .default
    | some endpoint => .explicit endpoint)
    frame.messageId

/-- Trust, then drain, then the rate gate: the two refusals before the limiter
leave its tokens alone. -/
def admitPrefix (sourcePeer : TransportIdentity) (nowMs : Nat) (ctx : PrefixContext) :
    PrefixContext × Except Refusal Unit :=
  match ctx.trust.decide sourcePeer with
  | .denied _ => (ctx, .error .untrustedPeer)
  | .allowed =>
    if ctx.draining then (ctx, .error .draining)
    else
      match ctx.ingress.admitPeer sourcePeer nowMs with
      | (ingress, .error _) => ({ ctx with ingress := ingress }, .error .rateLimited)
      | (ingress, .ok ()) => ({ ctx with ingress := ingress }, .ok ())

section

variable (sha256 : List UInt8 → ContentFingerprint)

def fingerprintOf (frame : DirectMessageV2) : Except FingerprintError ContentFingerprint :=
  directContentFingerprintV1 sha256 (frame.payload.mediaType.map MediaType.asStr)
    frame.payload.bytes

/-- The tail of `admit_structured`, entered as the owner of the key. -/
def admitOwned (frame : DirectMessageV2) (sourcePeer : TransportIdentity) (clocks : Clocks)
    (key : DedupKey) (fingerprint : ContentFingerprint) (ctx : AdmissionContext) :
    AdmissionContext × Outcome :=
  let allowed := fun policy =>
    (ctx.prefixContext.trust.decideForEndpoint sourcePeer policy).isAllowed
  match ctx.registry.resolveInbound frame.destinationEndpoint allowed with
  | .error failure =>
    ({ ctx with reservations := ctx.reservations.release key }, .refused (.noRoute failure))
  | .ok (resolved, _) =>
    let event : DirectEvent :=
      { sourcePeer := sourcePeer
        sourceEndpoint := frame.sourceEndpoint
        destinationEndpoint := resolved
        messageId := frame.messageId
        payload := frame.payload
        receivedAt := clocks.wallMs }
    match ctx.queues.push event with
    | (queues, .error refusal) =>
      ({ ctx with queues := queues, reservations := ctx.reservations.release key },
        .refused (.queue refusal))
    | (queues, .ok ()) =>
      ({ ctx with
         queues := queues
         dedup := ctx.dedup.recordAccepted key (.direct resolved) fingerprint clocks.monotonicMs
         reservations := ctx.reservations.release key }, .accepted resolved)

def admitStructured (frame : DirectMessageV2) (sourcePeer : TransportIdentity) (clocks : Clocks)
    (ctx : AdmissionContext) : AdmissionContext × Outcome :=
  match fingerprintOf sha256 frame with
  | .error _ => (ctx, .refused .unfingerprintable)
  | .ok fingerprint =>
    let key := dedupKey frame sourcePeer
    let (dedup, admission) := ctx.dedup.admitKey key fingerprint clocks.monotonicMs
    let ctx := { ctx with dedup := dedup }
    match admission with
    | .duplicateAccepted (.direct resolved) => (ctx, .duplicateAccepted resolved)
    | .duplicateAccepted .broadcast => (ctx, .refused .duplicateConflict)
    | .conflict => (ctx, .refused .duplicateConflict)
    | .fresh =>
      let (reservations, acquired) := ctx.reservations.acquire key fingerprint
      let ctx := { ctx with reservations := reservations }
      match acquired with
      | .ok .waiter => (ctx, .attachedAsWaiter)
      | .error .overloaded => (ctx, .refused .overloaded)
      | .error .conflict => (ctx, .refused .duplicateConflict)
      | .ok .owner => admitOwned frame sourcePeer clocks key fingerprint ctx

def admitInbound (frame : DirectMessageV2) (sourcePeer : TransportIdentity) (clocks : Clocks)
    (ctx : AdmissionContext) : AdmissionContext × Outcome :=
  match admitPrefix sourcePeer clocks.monotonicMs ctx.prefixContext with
  | (prefixContext, .error refusal) =>
    ({ ctx with prefixContext := prefixContext }, .refused refusal)
  | (prefixContext, .ok ()) =>
    admitStructured sha256 frame sourcePeer clocks { ctx with prefixContext := prefixContext }

end

end InterWeave
