import InterWeave.Runtime.Fingerprint

/-!
The executable half of `runtime::dedup`: the cache of accepted keys with its
recency list, and the map of reservations in flight.
-/

namespace InterWeave

open Std (ExtTreeMap)

inductive DestinationSelector where
  | explicit (endpoint : EndpointId)
  | default

inductive DedupKey where
  | broadcast (sourcePeer : TransportIdentity) (channel : ChannelId) (messageId : MessageId)
  | direct (sourcePeer : TransportIdentity) (sourceEndpoint : EndpointId)
      (destinationSelector : DestinationSelector) (messageId : MessageId)

def DestinationSelector.rank : DestinationSelector → WithTop EndpointId
  | .explicit endpoint => endpoint
  | .default => ⊤

theorem DestinationSelector.rank_injective : Function.Injective DestinationSelector.rank := by
  intro first second same
  cases first <;> cases second <;> simp_all [rank]

instance : LinearOrder DestinationSelector :=
  LinearOrder.lift' DestinationSelector.rank DestinationSelector.rank_injective

namespace DedupKey

/-- The order the source derives: variant first, then the fields left to right. -/
def rank : DedupKey → Lex ((TransportIdentity ×ₗ ChannelId ×ₗ MessageId) ⊕
    (TransportIdentity ×ₗ EndpointId ×ₗ DestinationSelector ×ₗ MessageId))
  | .broadcast peer channel id => toLex (.inl (toLex (peer, toLex (channel, id))))
  | .direct peer endpoint selector id =>
    toLex (.inr (toLex (peer, toLex (endpoint, toLex (selector, id)))))

theorem rank_injective : Function.Injective rank := by
  intro first second same
  cases first <;> cases second <;> simp_all [rank]

instance : LinearOrder DedupKey :=
  LinearOrder.lift' rank rank_injective

def sourcePeer : DedupKey → TransportIdentity
  | .broadcast peer _ _ => peer
  | .direct peer _ _ _ => peer

end DedupKey

inductive RecordedRoute where
  | broadcast
  | direct (resolvedEndpoint : EndpointId)
  deriving DecidableEq

structure AcceptedRecord where
  route : RecordedRoute
  fingerprint : ContentFingerprint
  storedAtMs : Nat
  deriving DecidableEq

inductive Admission where
  | fresh
  | duplicateAccepted (route : RecordedRoute)
  | conflict
  deriving DecidableEq

structure DedupCache where
  entries : ExtTreeMap DedupKey AcceptedRecord
  order : List DedupKey
  maxEntries : Nat
  ttlMs : Nat

namespace DedupCache

def defaultTtlMs : Nat := 5 * 60 * 1000

def new (maxEntries ttlMs : Nat) : DedupCache where
  entries := ∅
  order := []
  maxEntries := max maxEntries 1
  ttlMs := ttlMs

/-- Whether `expire` drops a record: the subtraction saturates at zero. -/
def expired (ttlMs nowMs : Nat) (record : AcceptedRecord) : Bool :=
  decide (nowMs - record.storedAtMs ≥ ttlMs)

variable (cache : DedupCache) (key : DedupKey) (nowMs : Nat)

/-- Remove one key from the entries and from its first position in the order. -/
def forget : DedupCache :=
  { cache with entries := cache.entries.erase key, order := cache.order.erase key }

def expiredKeys : List DedupKey :=
  (cache.entries.toList.filter fun entry => expired cache.ttlMs nowMs entry.2).map Prod.fst

def expire : DedupCache :=
  (cache.expiredKeys nowMs).foldl forget cache

/-- Move a key to the back of the order, where it stands first to stay. -/
def touch : DedupCache :=
  if key ∈ cache.order then { cache with order := cache.order.erase key ++ [key] } else cache

def admitKey (fingerprint : ContentFingerprint) (nowMs : Nat) : DedupCache × Admission :=
  let cache := cache.expire nowMs
  match cache.entries[key]? with
  | none => (cache, .fresh)
  | some record =>
    if record.fingerprint ≠ fingerprint then (cache, .conflict)
    else (cache.touch key, .duplicateAccepted record.route)

/-- The `while` of `record_accepted`: pop the oldest key until there is room. -/
def evict (maxEntries : Nat) (entries : ExtTreeMap DedupKey AcceptedRecord) :
    List DedupKey → ExtTreeMap DedupKey AcceptedRecord × List DedupKey
  | [] => (entries, [])
  | oldest :: rest =>
    if entries.size ≥ maxEntries then evict maxEntries (entries.erase oldest) rest
    else (entries, oldest :: rest)

def recordAccepted (route : RecordedRoute) (fingerprint : ContentFingerprint) (nowMs : Nat) :
    DedupCache :=
  let cache := cache.expire nowMs
  if key ∈ cache.entries then cache
  else
    let (entries, order) := evict cache.maxEntries cache.entries cache.order
    { cache with
      entries := entries.insert key ⟨route, fingerprint, nowMs⟩
      order := order ++ [key] }

end DedupCache

inductive ReservationFailure where
  | overloaded
  | conflict
  deriving DecidableEq, Repr

inductive Reservation where
  | owner
  | waiter
  deriving DecidableEq, Repr

structure InFlight where
  fingerprint : ContentFingerprint
  waiters : Nat
  deriving DecidableEq

structure ReservationMap where
  inFlight : ExtTreeMap DedupKey InFlight
  perPeer : ExtTreeMap TransportIdentity Nat
  maxGlobal : Nat
  maxPerPeer : Nat

namespace ReservationMap

def maxReservationsCeiling : Nat := 512
def maxReservationsPerPeerCeiling : Nat := 32

def new (maxGlobal maxPerPeer : Nat) : ReservationMap where
  inFlight := ∅
  perPeer := ∅
  maxGlobal := min maxGlobal maxReservationsCeiling
  maxPerPeer := min maxPerPeer maxReservationsPerPeerCeiling

/-- Every reservation is charged: one for the owner and one for each waiter. -/
def outstanding (reservations : ReservationMap) : Nat :=
  (reservations.inFlight.toList.map fun entry => entry.2.waiters + 1).sum

def held (reservations : ReservationMap) (peer : TransportIdentity) : Nat :=
  reservations.perPeer[peer]?.getD 0

def charge (perPeer : ExtTreeMap TransportIdentity Nat) (peer : TransportIdentity) :
    ExtTreeMap TransportIdentity Nat :=
  perPeer.insert peer (perPeer[peer]?.getD 0 + 1)

def acquire (reservations : ReservationMap) (key : DedupKey) (fingerprint : ContentFingerprint) :
    ReservationMap × Except ReservationFailure Reservation :=
  let peer := key.sourcePeer
  let held := reservations.held peer
  let outstanding := reservations.outstanding
  match reservations.inFlight[key]? with
  | some entry =>
    if entry.fingerprint ≠ fingerprint then (reservations, .error .conflict)
    else if held ≥ reservations.maxPerPeer ∨ outstanding ≥ reservations.maxGlobal then
      (reservations, .error .overloaded)
    else
      ({ reservations with
         inFlight := reservations.inFlight.insert key { entry with waiters := entry.waiters + 1 }
         perPeer := charge reservations.perPeer peer }, .ok .waiter)
  | none =>
    if outstanding ≥ reservations.maxGlobal then (reservations, .error .overloaded)
    else if held ≥ reservations.maxPerPeer then (reservations, .error .overloaded)
    else
      ({ reservations with
         inFlight := reservations.inFlight.insert key ⟨fingerprint, 0⟩
         perPeer := charge reservations.perPeer peer }, .ok .owner)

def release (reservations : ReservationMap) (key : DedupKey) : ReservationMap :=
  match reservations.inFlight[key]? with
  | none => reservations
  | some entry =>
    let charged := entry.waiters + 1
    let peer := key.sourcePeer
    { reservations with
      inFlight := reservations.inFlight.erase key
      perPeer :=
        match reservations.perPeer[peer]? with
        | none => reservations.perPeer
        | some count =>
          if count - charged = 0 then reservations.perPeer.erase peer
          else reservations.perPeer.insert peer (count - charged) }

end ReservationMap

end InterWeave
