import InterWeave.Api.Discovery
import InterWeave.Api.Trust
import InterWeave.Lib.Extremum
import InterWeave.Lib.KeySort
import InterWeave.Lib.MarkBook
import InterWeave.Lib.Saturating

/-!
`runtime::discovery`: the candidate set that merges what discovery providers report, with
its four bounds and its forward-only thresholds, and the manager that owns it.
-/

namespace InterWeave.Discovery

open Std (ExtTreeMap ExtTreeSet)
open Watermark (mark raise)

def maxCandidates : Nat := 4096
def maxAddressesPerPeer : Nat := 16
def maxProvenancePerAddress : Nat := 8
def maxObservationsPerPeer : Nat := 16
def maxProviders : Nat := 16
def maxHighWater : Nat := maxCandidates
def maxConfiguredRetained : Nat := 64
def defaultObservationTtlMs : Nat := 600000

structure Provenance where
  source : String
  observedAt : Nat
  expiresAt : Nat
  pinned : Bool
  deriving DecidableEq, Repr

def Provenance.isLive (now : Nat) (record : Provenance) : Bool :=
  decide (now < record.expiresAt)

@[ext]
structure FactKey where
  protocol : ProtocolId
  source : String

instance : LinearOrder FactKey :=
  LinearOrder.lift' (fun key => toLex (key.protocol, key.source)) fun _ _ same =>
    FactKey.ext (congrArg (fun pair => (ofLex pair).1) same)
      (congrArg (fun pair => (ofLex pair).2) same)

structure Fact where
  supported : Bool
  observedAt : Nat
  expiresAt : Nat
  deriving DecidableEq, Repr

abbrev PairKey := Owned TransportIdentity String

abbrev TripleKey := Owned TransportIdentity FactKey

abbrev AddressMap := ExtTreeMap String (List Provenance)

def newest (times : List Nat) : Nat :=
  times.foldl max 0

open Extremum

def oldestMark {K : Type} [LinearOrder K] (table : ExtTreeMap K Nat) : Option K :=
  (minByKey Prod.snd table.toList).map Prod.fst

def redundantOrOldest {K : Type} [LinearOrder K] (redundant : K → Nat → Bool)
    (table : ExtTreeMap K Nat) : Option K :=
  ((table.toList.find? fun item => redundant item.1 item.2).map Prod.fst).or (oldestMark table)

structure Entry where
  addresses : AddressMap := ∅
  observations : ExtTreeMap FactKey Fact := ∅
  applied : ExtTreeMap String Nat := ∅
  factApplied : ExtTreeMap FactKey Nat := ∅

namespace Entry

variable (now : Nat) (entry : Entry) (source : String) (key : FactKey)

def records : List Provenance :=
  entry.addresses.toList.flatMap Prod.snd

def recency : Nat :=
  newest ((entry.records.filter (Provenance.isLive now)).map Provenance.observedAt)

def dropOrphanedFacts : Entry :=
  { entry with observations := entry.observations.filter fun key _ =>
      entry.records.any fun record => record.source == key.source }

def isPinned : Bool :=
  entry.records.any Provenance.pinned

def isPinnedBy : Bool :=
  entry.records.any fun record => record.source == source && record.pinned

def isLapsed : Bool :=
  entry.records.all fun record => !record.isLive now

def keepRecords (keep : String → Provenance → Bool) : Entry :=
  let kept := entry.addresses.map fun address records => records.filter (keep address)
  { entry with addresses := kept.filter fun _ records => !records.isEmpty }

def pruneAddresses : Entry :=
  entry.keepRecords fun _ record => record.isLive now

def dropLapsedFacts : Entry :=
  { entry with
    observations := entry.observations.filter fun _ fact => decide (now < fact.expiresAt) }

def noteApplied (observedAt : Nat) : Entry :=
  { entry with applied := raise maxProviders oldestMark entry.applied source observedAt }

/-- A fact of this source that the candidate does not name is withdrawn. -/
def withdrawOmitted (candidate : CandidatePeer) : Entry :=
  { entry with observations := entry.observations.filter fun key _ =>
      key.source != candidate.source ||
        candidate.protocolObservations.toList.any fun observation =>
          observation.protocolId == key.protocol }

/-- The entry without a source's support for the named addresses, or for all of them. -/
def retracted (addresses : ExtTreeSet String) : Entry :=
  (entry.keepRecords fun address record =>
    !((addresses.isEmpty || addresses.contains address) && record.source == source)
    ).dropOrphanedFacts

def swept : Entry :=
  ((entry.pruneAddresses now).dropLapsedFacts now).dropOrphanedFacts

def heldAt : Nat :=
  match entry.observations[key]? with
  | some fact => fact.observedAt
  | none => 0

def factFloor (spilled : ProtocolId → Nat) (key : FactKey) : Nat :=
  max (max (mark entry.factApplied key) (spilled key.protocol)) (entry.heldAt key)

def oldestUnpinnedFact : Option FactKey :=
  (minByKey (fun item => item.2.observedAt)
    (entry.observations.toList.filter fun item => !entry.isPinnedBy item.1.source)).map Prod.fst

def coversFloor (floor : Nat) : Bool :=
  match entry.observations[key]? with
  | some fact => decide (floor ≤ fact.observedAt)
  | none => false

def noteFact (observedAt : Nat) : Entry :=
  let victim := redundantOrOldest entry.coversFloor
  { entry with
    factApplied := raise (2 * maxObservationsPerPeer) victim entry.factApplied key observedAt }

end Entry

/-- An entry under an observation, with what capacity has cost so far. -/
structure Slots where
  entry : Entry
  displaced : Nat := 0
  configuredRefused : Nat := 0

def oldestUnpinnedAddress (addresses : AddressMap) : Option String :=
  (minByKey
    (fun item => toLex (newest (item.2.map Provenance.observedAt), item.1))
    (addresses.toList.filter fun item => !item.2.any Provenance.pinned)).map Prod.fst

def oldestUnpinnedRecord (records : List Provenance) : Option Nat :=
  (minByKey (fun item => item.1.observedAt)
    (records.zipIdx.filter fun item => !item.1.pinned)).map Prod.snd

def refresh (record : Provenance) : List Provenance → Option (List Provenance)
  | [] => none
  | held :: rest =>
    if held.source = record.source then
      if held.observedAt ≤ record.observedAt then
        let moved :=
          { held with observedAt := record.observedAt, expiresAt := record.expiresAt }
        some (moved :: rest)
      else
        some (held :: rest)
    else
      (refresh record rest).map (held :: ·)

def placeRecord (record : Provenance) (records : List Provenance) : List Provenance × Nat × Nat :=
  match refresh record records with
  | some refreshed => (refreshed, 0, 0)
  | none =>
    if maxProvenancePerAddress ≤ records.length then
      if !record.pinned then (records, 0, 0)
      else
        match oldestUnpinnedRecord records with
        | some index => (records.eraseIdx index ++ [record], 1, 0)
        | none => (records, 0, 1)
    else
      (records ++ [record], 0, 0)

namespace Slots

variable (slots : Slots) (record : Provenance)

def freeAddress (pinned : Bool) (address : String) : Slots × Bool :=
  if address ∉ slots.entry.addresses ∧ maxAddressesPerPeer ≤ slots.entry.addresses.size then
    if !pinned then (slots, false)
    else
      match oldestUnpinnedAddress slots.entry.addresses with
      | some victim =>
        ({ slots with
            entry := { slots.entry with addresses := slots.entry.addresses.erase victim }
            displaced := slots.displaced + 1 }, true)
      | none => ({ slots with configuredRefused := slots.configuredRefused + 1 }, false)
  else
    (slots, true)

def support (address : String) : Slots :=
  let placed := placeRecord record (slots.entry.addresses[address]?.getD [])
  { entry := { slots.entry with addresses := slots.entry.addresses.insert address placed.1 }
    displaced := slots.displaced + placed.2.1
    configuredRefused := slots.configuredRefused + placed.2.2 }

def placeAddress (slots : Slots) (address : String) : Slots :=
  match slots.freeAddress record.pinned address with
  | (slots, true) => slots.support record address
  | (slots, false) => slots

def freeFact (key : FactKey) : Slots × Bool :=
  if key ∉ slots.entry.observations ∧
      maxObservationsPerPeer ≤ slots.entry.observations.size then
    if !(record.pinned && slots.entry.isPinnedBy record.source) then (slots, false)
    else
      match slots.entry.oldestUnpinnedFact with
      | some victim =>
        ({ slots with
            entry := { slots.entry with observations := slots.entry.observations.erase victim }
            displaced := slots.displaced + 1 }, true)
      | none => ({ slots with configuredRefused := slots.configuredRefused + 1 }, false)
  else
    (slots, true)

def assertFact (key : FactKey) (fact : Fact) : Slots :=
  let noted := slots.entry.noteFact key fact.observedAt
  { slots with entry := { noted with observations := noted.observations.insert key fact } }

def placeFact (spilled : ProtocolId → Nat) (slots : Slots) (observation : ProtocolObservation) :
    Slots :=
  let key : FactKey := ⟨observation.protocolId, record.source⟩
  if observation.observedAt < slots.entry.factFloor spilled key then slots
  else
    match slots.freeFact record key with
    | (slots, true) =>
      slots.assertFact key ⟨observation.supported, observation.observedAt, record.expiresAt⟩
    | (slots, false) => slots

end Slots

namespace Entry

/-- The addresses of a candidate that is not stale are placed one by one. -/
def takeAddresses (entry : Entry) (candidate : CandidatePeer) (record : Provenance) (now : Nat)
    (stale : Bool) : Slots :=
  let noted := if stale then entry else entry.noteApplied candidate.source candidate.observedAt
  let slots : Slots := { entry := noted.pruneAddresses now }
  if stale then slots
  else candidate.addresses.toList.foldl (Slots.placeAddress record) slots

def takeFacts (slots : Slots) (candidate : CandidatePeer) (record : Provenance) (now : Nat)
    (stale : Bool) (spilled : ProtocolId → Nat) : Slots :=
  let kept := slots.entry.dropOrphanedFacts.dropLapsedFacts now
  let current := if stale then kept else kept.withdrawOmitted candidate
  candidate.protocolObservations.toList.foldl (Slots.placeFact record spilled)
    { slots with entry := current }

def take (entry : Entry) (candidate : CandidatePeer) (record : Provenance) (now : Nat)
    (stale : Bool) (spilled : ProtocolId → Nat) : Slots :=
  takeFacts (entry.takeAddresses candidate record now stale) candidate record now stale spilled

end Entry

structure OverflowStats where
  evicted : Nat := 0
  refused : Nat := 0
  displaced : Nat := 0
  configuredRefused : Nat := 0
  deriving DecidableEq, Repr

abbrev PeerMap := ExtTreeMap TransportIdentity Entry

structure CandidateSet where
  peers : PeerMap := ∅
  overflow : OverflowStats := {}
  highWater : ExtTreeMap PairKey Nat := ∅
  factHighWater : ExtTreeMap TripleKey Nat := ∅

def CandidateSet.new : CandidateSet := {}

namespace CandidateSet

def coversMark (peers : PeerMap) (key : PairKey) (value : Nat) : Bool :=
  match peers[key.owner]? with
  | some entry =>
    match entry.applied[key.label]? with
    | some applied => decide (value ≤ applied)
    | none => false
  | none => false

def coversFactMark (peers : PeerMap) (key : TripleKey) (value : Nat) : Bool :=
  match peers[key.owner]? with
  | some entry =>
    match entry.factApplied[key.label]? with
    | some applied => decide (value ≤ applied)
    | none => false
  | none => false

variable (set : CandidateSet) (now : Nat) (key : PairKey) (trust : PeerTrustPolicy)
  (peer : TransportIdentity)

def rememberWatermark (value : Nat) : CandidateSet :=
  let victim := redundantOrOldest (coversMark set.peers)
  { set with highWater := raise maxHighWater victim set.highWater key value }

def rememberFactWatermark (key : TripleKey) (value : Nat) : CandidateSet :=
  let victim := redundantOrOldest (coversFactMark set.peers)
  { set with factHighWater := raise maxHighWater victim set.factHighWater key value }

/-- Every removal of an entry: both its threshold maps are spilled. -/
def removeEntry : CandidateSet :=
  match set.peers[peer]? with
  | none => set
  | some entry =>
    let removed := { set with peers := set.peers.erase peer }
    let spilled := entry.applied.toList.foldl
      (fun set item => set.rememberWatermark ⟨peer, item.1⟩ item.2) removed
    entry.factApplied.toList.foldl
      (fun set item => set.rememberFactWatermark ⟨peer, item.1⟩ item.2) spilled

def recencyOf : Nat :=
  match set.peers[peer]? with
  | some entry => entry.recency now
  | none => 0

def configured : List TransportIdentity :=
  OrderedMap.keysWhere (fun _ entry => entry.isPinned) set.peers

def protect : List TransportIdentity :=
  if set.configured.length ≤ maxConfiguredRetained then set.configured
  else
    (KeySort.sortByKey (fun peer => OrderDual.toDual (set.recencyOf now peer))
      set.configured).take maxConfiguredRetained

def isEvictable : Bool :=
  !(trust.decide peer).isAllowed && decide (peer ∉ set.protect now)

def leastRecent : Option (TransportIdentity × Nat) :=
  (minByKey (fun item => item.2.recency now)
    (set.peers.toList.filter fun item => set.isEvictable now trust item.1)).map
      fun item => (item.1, item.2.recency now)

def evictOne (incoming : Nat) (incomingPinned : Bool) : CandidateSet × Bool :=
  match set.peers.toList.find? fun item => item.2.isLapsed now with
  | some (peer, _) => (set.removeEntry peer, true)
  | none =>
    match set.leastRecent now trust with
    | some (peer, recency) =>
      if incomingPinned = true ∧ set.configured.length < maxConfiguredRetained then
        (set.removeEntry peer, true)
      else if incoming < recency then (set, false)
      else (set.removeEntry peer, true)
    | none => (set, false)

def sweep : CandidateSet :=
  let swept := { set with peers := set.peers.map fun _ entry => entry.swept now }
  (OrderedMap.keysWhere (fun _ entry => entry.addresses.isEmpty) swept.peers).foldl
    removeEntry swept

/-- The newest `observed_at` applied for the pair, live or spilled. -/
def threshold : Nat :=
  max (mark set.highWater key)
    (match set.peers[key.owner]? with
    | some entry => mark entry.applied key.label
    | none => 0)

end CandidateSet

def pairOf (candidate : CandidatePeer) : PairKey :=
  ⟨candidate.peerId, candidate.source⟩

/-- How long an observation lasts: the descriptor overrides the event. -/
def lifetime (candidate : CandidatePeer) (providerExpires : Bool) : Nat :=
  if providerExpires then
    match candidate.expiresAt with
    | some stated => stated
    | none => Saturating.add64 candidate.observedAt defaultObservationTtlMs
  else
    Saturating.u64Max

structure Observation where
  candidate : CandidatePeer
  now : Nat
  trust : PeerTrustPolicy
  providerExpires : Bool
  providerPinned : Bool

def Observation.record (seen : Observation) : Provenance :=
  ⟨seen.candidate.source, seen.candidate.observedAt,
    lifetime seen.candidate seen.providerExpires, seen.providerPinned⟩

namespace CandidateSet

variable (set : CandidateSet) (seen : Observation)

def isStale (candidate : CandidatePeer) : Bool :=
  decide (candidate.observedAt < set.threshold (pairOf candidate))

def contributesNothing : Bool :=
  seen.candidate.addresses.isEmpty || decide (seen.record.expiresAt ≤ seen.now) ||
    set.isStale seen.candidate

/-- A slot for a peer that is not held, and whether there is one. -/
def secureSlot : CandidateSet × Bool :=
  if seen.candidate.peerId ∉ set.peers ∧ maxCandidates ≤ set.peers.size then
    let answer :=
      set.evictOne seen.now seen.trust seen.candidate.observedAt seen.providerPinned
    let cleared :=
      if answer.2 then
        { answer.1 with overflow :=
            { answer.1.overflow with evicted := answer.1.overflow.evicted + 1 } }
      else answer.1
    if maxCandidates ≤ cleared.peers.size then
      ({ cleared with overflow :=
          { cleared.overflow with refused := cleared.overflow.refused + 1 } }, false)
    else
      (cleared, true)
  else
    (set, true)

def spilledFloor (candidate : CandidatePeer) (protocol : ProtocolId) : Nat :=
  mark set.factHighWater ⟨candidate.peerId, ⟨protocol, candidate.source⟩⟩

def store (stale : Bool) : CandidateSet :=
  let held := set.peers[seen.candidate.peerId]?.getD {}
  let slots := held.take seen.candidate seen.record seen.now stale
    (set.spilledFloor seen.candidate)
  let stored := { set with
    peers := set.peers.insert seen.candidate.peerId slots.entry
    overflow := { set.overflow with
      displaced := set.overflow.displaced + slots.displaced
      configuredRefused := set.overflow.configuredRefused + slots.configuredRefused } }
  if slots.entry.addresses.isEmpty then stored.removeEntry seen.candidate.peerId else stored

def observe : CandidateSet :=
  if set.contributesNothing seen = true ∧ seen.candidate.peerId ∉ set.peers then set
  else
    match set.secureSlot seen with
    | (cleared, true) => cleared.store seen (set.isStale seen.candidate)
    | (refused, false) => refused

def applies : Bool :=
  !(set.contributesNothing seen && decide (seen.candidate.peerId ∉ set.peers)) &&
    (set.secureSlot seen).2

def retract (peer : TransportIdentity) (source : String) (addresses : ExtTreeSet String) :
    CandidateSet :=
  match set.peers[peer]? with
  | none => set
  | some entry =>
    let kept := entry.retracted source addresses
    let stored := { set with peers := set.peers.insert peer kept }
    if kept.addresses.isEmpty then stored.removeEntry peer else stored

end CandidateSet

structure AddressProvenance where
  address : String
  sources : List String
  bestPriority : Int
  observedAtMs : Nat
  deriving DecidableEq, Repr

structure MergedObservation where
  protocol : ProtocolId
  supported : Bool
  sources : List String
  observedAtMs : Nat

structure AggregatedCandidate where
  peerId : TransportIdentity
  addresses : List AddressProvenance
  sources : Finset String
  lastObservedMs : Nat
  protocolObservations : List MergedObservation

def i32Max : Int := 2147483647

@[ext]
structure ClaimKey where
  protocol : ProtocolId
  supported : Bool

instance : LinearOrder ClaimKey :=
  LinearOrder.lift' (fun key => toLex (key.protocol, key.supported)) fun _ _ same =>
    ClaimKey.ext (congrArg (fun pair => (ofLex pair).1) same)
      (congrArg (fun pair => (ofLex pair).2) same)

namespace Entry

variable (entry : Entry) (now : Nat) (priorityOf : String → Option Int)

def addressProvenance (address : String) (records : List Provenance) : Option AddressProvenance :=
  let live := records.filter (Provenance.isLive now)
  if live.isEmpty then none
  else
    let priority := fun record : Provenance => (priorityOf record.source).getD i32Max
    let ranked := KeySort.sortByKey (fun record => toLex (priority record, record.source)) live
    some
      { address := address
        bestPriority := (ranked.head?.map priority).getD i32Max
        observedAtMs := newest (ranked.map Provenance.observedAt)
        sources := ranked.map Provenance.source }

def liveAddresses : List AddressProvenance :=
  entry.addresses.toList.filterMap fun item => addressProvenance now priorityOf item.1 item.2

def mergeFact (sources : Finset String) (merged : ExtTreeMap ClaimKey MergedObservation)
    (item : FactKey × Fact) :
    ExtTreeMap ClaimKey MergedObservation :=
  if item.2.expiresAt ≤ now ∨ item.1.source ∉ sources then merged
  else
    let key : ClaimKey := ⟨item.1.protocol, item.2.supported⟩
    let slot := merged[key]?.getD ⟨item.1.protocol, item.2.supported, [], 0⟩
    merged.insert key
      { slot with
        sources := slot.sources ++ [item.1.source]
        observedAtMs := max slot.observedAtMs item.2.observedAt }

def mergedObservations (sources : Finset String) : List MergedObservation :=
  (entry.observations.toList.foldl (mergeFact now sources) ∅).toList.map Prod.snd

def aggregate (peerId : TransportIdentity) : Option AggregatedCandidate :=
  let addresses := entry.liveAddresses now priorityOf
  let sources := (addresses.flatMap AddressProvenance.sources).toFinset
  if addresses.isEmpty then none
  else
    some
      { peerId := peerId
        addresses :=
          KeySort.sortByKey (fun item => toLex (item.bestPriority, item.address)) addresses
        sources := sources
        lastObservedMs := entry.recency now
        protocolObservations := entry.mergedObservations now sources }

end Entry

def CandidateSet.candidates (set : CandidateSet) (now : Nat) (priorityOf : String → Option Int) :
    List AggregatedCandidate :=
  set.peers.toList.filterMap fun item => item.2.aggregate now priorityOf item.1

inductive RejectedEvent where
  | sourceMismatch (expected got : String)
  | invalidCandidate
  | unknownProvider
  deriving DecidableEq, Repr

structure Registered where
  descriptor : ProviderDescriptor
  priority : Int
  health : ProviderHealth

structure DiscoveryManager where
  providers : ExtTreeMap String Registered := ∅
  candidates : CandidateSet := {}

namespace DiscoveryManager

def new : DiscoveryManager := {}

variable (manager : DiscoveryManager)

def register (descriptor : ProviderDescriptor) (priority : Int) :
    DiscoveryManager × Except DiscoveryError Unit :=
  match descriptor.validate with
  | .error error => (manager, .error error)
  | .ok () =>
    if descriptor.name ∉ manager.providers ∧ maxProviders ≤ manager.providers.size then
      (manager, .error (.tooManyItems "providers" (manager.providers.size + 1) maxProviders))
    else
      let registered : Registered := ⟨descriptor, priority, .unavailable⟩
      ({ manager with providers := manager.providers.insert descriptor.name registered }, .ok ())

def isPinnedProvider (registered : Registered) : Bool :=
  registered.descriptor.scope == .configured && !registered.descriptor.supportsExpiry

def onEvent (source : String) (event : DiscoveryEvent) (now : Nat) (trust : PeerTrustPolicy) :
    DiscoveryManager × Except RejectedEvent Unit :=
  match manager.providers[source]? with
  | none => (manager, .error .unknownProvider)
  | some registered =>
    match event with
    | .candidateObserved candidate =>
      if candidate.source ≠ source then
        (manager, .error (.sourceMismatch source candidate.source))
      else
        match candidate.validate with
        | .error _ => (manager, .error .invalidCandidate)
        | .ok () =>
          let seen : Observation :=
            ⟨candidate, now, trust, registered.descriptor.supportsExpiry,
              isPinnedProvider registered⟩
          ({ manager with candidates := manager.candidates.observe seen }, .ok ())
    | .candidateExpired peerId eventSource addresses =>
      if eventSource ≠ source then (manager, .error (.sourceMismatch source eventSource))
      else
        ({ manager with candidates := manager.candidates.retract peerId source addresses },
          .ok ())
    | .healthChanged eventSource health =>
      if eventSource ≠ source then (manager, .error (.sourceMismatch source eventSource))
      else
        ({ manager with providers :=
            manager.providers.insert source { registered with health := health } }, .ok ())

def sweep (manager : DiscoveryManager) (now : Nat) : DiscoveryManager :=
  { manager with candidates := manager.candidates.sweep now }

def priorityOf (source : String) : Option Int :=
  manager.providers[source]?.map Registered.priority

def merged (now : Nat) : List AggregatedCandidate :=
  manager.candidates.candidates now manager.priorityOf

end DiscoveryManager

end InterWeave.Discovery
