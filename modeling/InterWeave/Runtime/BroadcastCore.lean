import InterWeave.Lib.MapSum
import InterWeave.Runtime.DirectInboundCore

/-!
`runtime::broadcast_inbound` with the two structures it works on: the join references of
`ingress` and the bounded queues of `session_queue`.
-/

namespace InterWeave

open Std (ExtTreeMap)

structure BroadcastMessageV1 where
  messageId : MessageId
  sentAtMs : UInt64
  payload : Payload
  deriving DecidableEq

def maxSubscriptions : Nat := 1024

def maxSessionsPerChannel : Nat := 64

inductive SubscriptionDenial where
  | tooManySubscriptions
  | tooManySessions
  | ceilingOutOfRange
  deriving DecidableEq, Repr

structure SubscriptionRegistry where
  joins : ExtTreeMap ChannelId (Finset String)
  desired : Finset ChannelId
  ceiling : Nat

namespace SubscriptionRegistry

def default : SubscriptionRegistry := ⟨∅, ∅, maxSubscriptions⟩

variable (registry : SubscriptionRegistry) (channel : ChannelId) (desired : Finset ChannelId)

def joinedElsewhere : Nat :=
  (registry.joins.keys.filter fun channel => channel ∉ desired).length

def subscriptions : Nat :=
  registry.joinedElsewhere registry.desired + registry.desired.card

def setDesired : SubscriptionRegistry × Except SubscriptionDenial Unit :=
  if registry.joinedElsewhere desired + desired.card > registry.ceiling then
    (registry, .error .tooManySubscriptions)
  else ({ registry with desired := desired }, .ok ())

def configure (ceiling : Nat) : SubscriptionRegistry × Except SubscriptionDenial Unit :=
  if ¬(1 ≤ ceiling ∧ ceiling ≤ maxSubscriptions) then (registry, .error .ceilingOutOfRange)
  else
    match { registry with ceiling := ceiling }.setDesired desired with
    | (refused, .error denial) => ({ refused with ceiling := registry.ceiling }, .error denial)
    | (configured, .ok ()) => (configured, .ok ())

def join (session : String) : SubscriptionRegistry × Except SubscriptionDenial Unit :=
  let joined := ({ registry with
    joins := registry.joins.insert channel
      (insert session (registry.joins[channel]?.getD ∅)) }, .ok ())
  match registry.joins[channel]? with
  | some sessions =>
    if session ∈ sessions then (registry, .ok ())
    else if sessions.card ≥ maxSessionsPerChannel then (registry, .error .tooManySessions)
    else joined
  | none =>
    if channel ∉ registry.desired ∧ registry.subscriptions ≥ registry.ceiling then
      (registry, .error .tooManySubscriptions)
    else joined

def leave (session : String) : SubscriptionRegistry :=
  match registry.joins[channel]? with
  | none => registry
  | some sessions =>
    if (sessions.erase session).card = 0 then
      { registry with joins := registry.joins.erase channel }
    else { registry with joins := registry.joins.insert channel (sessions.erase session) }

def joined : Finset String :=
  registry.joins[channel]?.getD ∅

def subscribers : List String :=
  (registry.joined channel).sort (· ≤ ·)

def joinReferences : Nat :=
  OrderedMap.sumOver (fun _ sessions => sessions.card) registry.joins

end SubscriptionRegistry

structure BroadcastEvent where
  sourcePeer : TransportIdentity
  channel : ChannelId
  messageId : MessageId
  payload : Payload
  receivedAt : Nat
  deriving DecidableEq

inductive SessionDrop where
  | full (bound : Nat)
  | notOpen
  deriving DecidableEq, Repr

inductive Pushed where
  | queued
  | droppedOldest (bound : Nat)
  deriving DecidableEq, Repr

structure SessionQueue where
  events : List BroadcastEvent
  bound : Nat
  deriving DecidableEq

structure SessionQueues where
  queues : ExtTreeMap String SessionQueue

namespace SessionQueues

def new : SessionQueues := ⟨∅⟩

variable (queues : SessionQueues) (session : String)

def openQueue (bound : Nat) : SessionQueues :=
  ⟨queues.queues.insert session ⟨[], max bound 1⟩⟩

def close : SessionQueues × Nat :=
  (⟨queues.queues.erase session⟩, queues.queues[session]?.elim 0 fun queue => queue.events.length)

def setBound (bound : Nat) : SessionQueues :=
  ⟨queues.queues.map fun _ queue => { queue with bound := bound }⟩

def push (event : BroadcastEvent) : SessionQueues × Except SessionDrop Pushed :=
  match queues.queues[session]? with
  | none => (queues, .error .notOpen)
  | some queue =>
    if queue.events.length ≥ queue.bound then
      (⟨queues.queues.insert session
        { queue with events := queue.events.drop 1 ++ [event] }⟩, .ok (.droppedOldest queue.bound))
    else
      (⟨queues.queues.insert session
        { queue with events := queue.events ++ [event] }⟩, .ok .queued)

def drainUpTo (max : Nat) : SessionQueues × List BroadcastEvent :=
  match queues.queues[session]? with
  | none => (queues, [])
  | some queue =>
    (⟨queues.queues.insert session { queue with events := queue.events.drop max }⟩,
      queue.events.take max)

end SessionQueues

inductive BroadcastAdmission where
  | delivered (sessions : List String) (dropped : List (String × SessionDrop))
  | nobodyJoined
  | refused (refusal : Refusal)
  | duplicate
  | conflict
  | unfingerprintable
  deriving DecidableEq

structure LocalContext where
  dedup : DedupCache
  subs : SubscriptionRegistry
  queues : SessionQueues

structure BroadcastContext extends LocalContext where
  prefixContext : PrefixContext

/-- What the fan-out has done so far: the queues, who got a copy and who lost one. -/
structure FanOut where
  queues : SessionQueues
  sessions : List String
  dropped : List (String × SessionDrop)

def FanOut.deliver (exclude : Option String) (event : BroadcastEvent) (fan : FanOut)
    (session : String) : FanOut :=
  if some session = exclude then fan
  else
    match fan.queues.push session event with
    | (queues, .ok .queued) => ⟨queues, fan.sessions ++ [session], fan.dropped⟩
    | (queues, .ok (.droppedOldest bound)) =>
      ⟨queues, fan.sessions ++ [session], fan.dropped ++ [(session, .full bound)]⟩
    | (queues, .error drop) => ⟨queues, fan.sessions, fan.dropped ++ [(session, drop)]⟩

section

variable (sha256 : List UInt8 → ContentFingerprint)

variable (frame : BroadcastMessageV1) (channel : ChannelId) (source : TransportIdentity)
  (clocks : Clocks)

def broadcastEvent : BroadcastEvent where
  sourcePeer := source
  channel := channel
  messageId := frame.messageId
  payload := frame.payload
  receivedAt := clocks.wallMs

def admitLocalBroadcast (exclude : Option String) (ctx : LocalContext) :
    LocalContext × BroadcastAdmission :=
  match directContentFingerprintV1 sha256 (frame.payload.mediaType.map MediaType.asStr)
      frame.payload.bytes with
  | .error _ => (ctx, .unfingerprintable)
  | .ok fingerprint =>
    let key := DedupKey.broadcast source channel frame.messageId
    match ctx.dedup.admitKey key fingerprint clocks.monotonicMs with
    | (dedup, .duplicateAccepted _) => ({ ctx with dedup := dedup }, .duplicate)
    | (dedup, .conflict) => ({ ctx with dedup := dedup }, .conflict)
    | (dedup, .fresh) =>
      let recorded := dedup.recordAccepted key .broadcast fingerprint clocks.monotonicMs
      let subscribers := ctx.subs.subscribers channel
      if subscribers.isEmpty then ({ ctx with dedup := recorded }, .nobodyJoined)
      else
        let event := broadcastEvent frame channel source clocks
        let fan := subscribers.foldl (FanOut.deliver exclude event) ⟨ctx.queues, [], []⟩
        ({ ctx with dedup := recorded, queues := fan.queues },
          .delivered fan.sessions fan.dropped)

def admitBroadcast (ctx : BroadcastContext) : BroadcastContext × BroadcastAdmission :=
  match admitPrefix source clocks.monotonicMs ctx.prefixContext with
  | (gates, .error refusal) => ({ ctx with prefixContext := gates }, .refused refusal)
  | (gates, .ok ()) =>
    let (after, admission) :=
      admitLocalBroadcast sha256 frame channel source clocks none ctx.toLocalContext
    (⟨after, gates⟩, admission)

end

end InterWeave
