import InterWeave.Runtime.DiscoveryFacts

/-!
What a consumer reads. A source's fact about a peer is shown exactly while it is on file,
unexpired and vouched for by a live record of that source, so an observation that leaves
those alone leaves the reading alone.
-/

namespace InterWeave.Discovery

open Std (ExtTreeMap ExtTreeSet)
open Watermark (mark Within)
open OrderedMap

def Shows (candidates : List AggregatedCandidate) (peer : TransportIdentity) (source : String)
    (protocol : ProtocolId) (supported : Bool) : Prop :=
  ∃ candidate ∈ candidates, candidate.peerId = peer ∧
    ∃ merged ∈ candidate.protocolObservations, merged.protocol = protocol ∧
      merged.supported = supported ∧ source ∈ merged.sources

instance (candidates : List AggregatedCandidate) (peer : TransportIdentity) (source : String)
    (protocol : ProtocolId) (supported : Bool) :
    Decidable (Shows candidates peer source protocol supported) :=
  inferInstanceAs (Decidable (∃ candidate ∈ candidates, _))

namespace Entry

variable {entry : Entry} {now : Nat} {priorityOf : String → Option Int} {source : String}

variable {merged : ExtTreeMap ClaimKey MergedObservation}

theorem addressProvenance_sources {records : List Provenance}
    (shown : addressProvenance now priorityOf address records = some item) :
    source ∈ item.sources ↔
      ∃ record ∈ records, record.source = source ∧ now < record.expiresAt := by
  simp only [addressProvenance] at shown
  split at shown
  · cases shown
  · cases shown
    simp only [List.mem_map, KeySort.mem_sortByKey, List.mem_filter, Provenance.isLive,
      decide_eq_true_eq]
    constructor
    · rintro ⟨record, ⟨member, live⟩, same⟩
      exact ⟨record, member, same, live⟩
    · rintro ⟨record, member, same, live⟩
      exact ⟨record, ⟨member, live⟩, same⟩

theorem exists_addressProvenance {records : List Provenance} (member : record ∈ records)
    (live : now < record.expiresAt) :
    ∃ item, addressProvenance now priorityOf address records = some item := by
  have kept : record ∈ records.filter (Provenance.isLive now) :=
    List.mem_filter.mpr ⟨member, decide_eq_true live⟩
  simp only [addressProvenance]
  split
  next nothing =>
    rw [List.isEmpty_iff.mp nothing] at kept
    cases kept
  · exact ⟨_, rfl⟩

theorem mem_liveAddresses_sources (now : Nat) :
    (∃ item ∈ entry.liveAddresses now priorityOf, source ∈ item.sources) ↔
      entry.Supports now source := by
  simp only [liveAddresses, List.mem_filterMap, Prod.exists,
    ExtTreeMap.mem_toList_iff_getElem?_eq_some, Supports, mem_recordsAt]
  constructor
  · rintro ⟨item, ⟨address, records, listed, shown⟩, member⟩
    obtain ⟨record, inRecords, same, live⟩ := (addressProvenance_sources shown).mp member
    exact ⟨address, record, ⟨records, listed, inRecords⟩, same, live⟩
  · rintro ⟨address, record, ⟨records, listed, member⟩, same, live⟩
    obtain ⟨item, shown⟩ := exists_addressProvenance member live
    exact ⟨item, ⟨address, records, listed, shown⟩,
      (addressProvenance_sources shown).mpr ⟨record, member, same, live⟩⟩

def claimSources (merged : ExtTreeMap ClaimKey MergedObservation) (key : ClaimKey) : List String :=
  (merged[key]?.map MergedObservation.sources).getD []

def Filed (merged : ExtTreeMap ClaimKey MergedObservation) : Prop :=
  ∀ (key : ClaimKey) slot, merged[key]? = some slot →
    slot.protocol = key.protocol ∧ slot.supported = key.supported

theorem mergeFact_filed (now : Nat) (filed : Filed merged) :
    Filed (mergeFact now sources merged item) := by
  unfold mergeFact
  split
  · exact filed
  · intro key slot found
    rw [get_insert] at found
    split at found
    next same =>
      cases found
      subst same
      rcases held : merged[(⟨item.1.protocol, item.2.supported⟩ : ClaimKey)]? with _ | old
      · simp
      · simpa using filed _ old held
    · exact filed key slot found

def Speaks (now : Nat) (sources : Finset String) (item : FactKey × Fact) (key : ClaimKey)
    (source : String) : Prop :=
  item.1 = ⟨key.protocol, source⟩ ∧ item.2.supported = key.supported ∧
    now < item.2.expiresAt ∧ source ∈ sources

theorem mem_claimSources_mergeFact :
    source ∈ claimSources (mergeFact now sources merged item) key ↔
      source ∈ claimSources merged key ∨ Speaks now sources item key source := by
  obtain ⟨⟨protocol, speaker⟩, fact⟩ := item
  obtain ⟨claimed, value⟩ := key
  unfold mergeFact
  split
  next dropped =>
    refine (or_iff_left ?_).symm
    rintro ⟨same, -, live, vouched⟩
    cases same
    rcases dropped with lapsed | orphaned
    · exact absurd live (not_lt.mpr lapsed)
    · exact orphaned vouched
  next kept =>
    rw [not_or, not_le, not_not] at kept
    rw [claimSources, get_insert]
    split
    next same =>
      cases same
      have speaks : Speaks now sources (⟨protocol, speaker⟩, fact) ⟨protocol, fact.supported⟩
          source ↔ source = speaker := by
        constructor
        · rintro ⟨same, -⟩
          exact (congrArg FactKey.source same).symm
        · rintro rfl
          exact ⟨rfl, rfl, kept.1, kept.2⟩
      rw [speaks, claimSources]
      cases merged[(⟨protocol, fact.supported⟩ : ClaimKey)]? <;> simp
    next other =>
      refine (or_iff_left ?_).symm
      rintro ⟨same, sameValue, -, -⟩
      cases same
      exact other (ClaimKey.ext rfl sameValue)

theorem foldl_mergeFact (now : Nat) (sources : Finset String) (items : List (FactKey × Fact))
    (filed : Filed merged) (key : ClaimKey) (source : String) :
    Filed (items.foldl (mergeFact now sources) merged) ∧
      (source ∈ claimSources (items.foldl (mergeFact now sources) merged) key ↔
        source ∈ claimSources merged key ∨ ∃ item ∈ items, Speaks now sources item key source) := by
  induction items generalizing merged with
  | nil => simp [filed]
  | cons item rest ih =>
    obtain ⟨filedAfter, gathered⟩ := ih (mergeFact_filed now filed)
    refine ⟨filedAfter, ?_⟩
    rw [List.foldl_cons, gathered, mem_claimSources_mergeFact, or_assoc]
    simp

theorem mem_mergedObservations :
    (∃ merged ∈ entry.mergedObservations now sources, merged.protocol = protocol ∧
        merged.supported = supported ∧ source ∈ merged.sources) ↔
      ∃ fact, entry.observations[(⟨protocol, source⟩ : FactKey)]? = some fact ∧
        fact.supported = supported ∧ now < fact.expiresAt ∧ source ∈ sources := by
  have empty : Filed (∅ : ExtTreeMap ClaimKey MergedObservation) := by
    intro key slot found
    simp at found
  obtain ⟨filed, gathered⟩ :=
    foldl_mergeFact now sources entry.observations.toList empty ⟨protocol, supported⟩ source
  simp only [claimSources, ExtTreeMap.getElem?_empty, Option.map_none, Option.getD_none,
    List.not_mem_nil, false_or, Speaks, Prod.exists,
    ExtTreeMap.mem_toList_iff_getElem?_eq_some] at gathered
  simp only [mergedObservations, List.mem_map, Prod.exists,
    ExtTreeMap.mem_toList_iff_getElem?_eq_some]
  generalize entry.observations.toList.foldl (mergeFact now sources) ∅ = table at filed gathered ⊢
  constructor
  · rintro ⟨_, ⟨key, slot, found, rfl⟩, rfl, rfl, member⟩
    obtain ⟨sameProtocol, sameValue⟩ := filed key slot found
    have here : key = ⟨slot.protocol, slot.supported⟩ :=
      ClaimKey.ext sameProtocol.symm sameValue.symm
    rw [here] at found
    obtain ⟨_, fact, onFile, rfl, rest⟩ := gathered.mp (by simp [found, member])
    exact ⟨fact, onFile, rest⟩
  · rintro ⟨fact, onFile, rest⟩
    have member := gathered.mpr ⟨_, fact, onFile, rfl, rest⟩
    rcases found : table[(⟨protocol, supported⟩ : ClaimKey)]? with _ | slot
    · simp [found] at member
    · obtain ⟨sameProtocol, sameValue⟩ := filed _ slot found
      exact ⟨slot, ⟨_, slot, found, rfl⟩, sameProtocol, sameValue, by simpa [found] using member⟩

end Entry

theorem Entry.exists_aggregate {entry : Entry}
    (some : (entry.liveAddresses now priorityOf).isEmpty = false) :
    ∃ candidate, entry.aggregate now priorityOf peer = .some candidate ∧ candidate.peerId = peer ∧
      candidate.protocolObservations = entry.mergedObservations now
        ((entry.liveAddresses now priorityOf).flatMap AddressProvenance.sources).toFinset := by
  simp only [aggregate, some, Bool.false_eq_true, if_false]
  exact ⟨_, rfl, rfl, rfl⟩

theorem shows_iff {set : CandidateSet} :
    Shows (set.candidates now priorityOf) peer source protocol supported ↔
      ∃ entry, set.peers[peer]? = some entry ∧ entry.Supports now source ∧
        ∃ fact, entry.observations[(⟨protocol, source⟩ : FactKey)]? = some fact ∧
          fact.supported = supported ∧ now < fact.expiresAt := by
  have vouched (entry : Entry) : source ∈ ((entry.liveAddresses now priorityOf).flatMap
      AddressProvenance.sources).toFinset ↔ entry.Supports now source := by
    rw [List.mem_toFinset, List.mem_flatMap, Entry.mem_liveAddresses_sources]
  simp only [Shows, CandidateSet.candidates, List.mem_filterMap, Prod.exists,
    ExtTreeMap.mem_toList_iff_getElem?_eq_some]
  constructor
  · rintro ⟨candidate, ⟨held, entry, found, aggregated⟩, rfl, shown⟩
    simp only [Entry.aggregate] at aggregated
    split at aggregated
    · cases aggregated
    · cases aggregated
      obtain ⟨fact, onFile, value, lasting, member⟩ := Entry.mem_mergedObservations.mp shown
      exact ⟨entry, found, (vouched entry).mp member, fact, onFile, value, lasting⟩
  · rintro ⟨entry, found, supports, fact, onFile, value, lasting⟩
    obtain ⟨item, listed, -⟩ := (Entry.mem_liveAddresses_sources _).mpr supports
    have shown := Entry.mem_mergedObservations.mpr
      ⟨fact, onFile, value, lasting, (vouched entry).mpr supports⟩
    have some : (entry.liveAddresses now priorityOf).isEmpty = false := by
      rw [List.isEmpty_eq_false_iff_exists_mem]
      exact ⟨item, listed⟩
    obtain ⟨candidate, aggregated, samePeer, merged⟩ := Entry.exists_aggregate some
    exact ⟨candidate, ⟨peer, entry, found, aggregated⟩, samePeer, merged ▸ shown⟩

namespace Entry

variable {entry : Entry} {candidate : CandidatePeer} {record : Provenance} {now time : Nat}
  {spilled : ProtocolId → Nat} {source : String}

theorem Supports.earlier (supports : entry.Supports time source) (order : now ≤ time) :
    entry.Supports now source := by
  obtain ⟨address, record, member, same, live⟩ := supports
  exact ⟨address, record, member, same, order.trans_lt live⟩

theorem take_stale_supports (order : now ≤ time) :
    (entry.take candidate record now true spilled).entry.Supports time source ↔
      entry.Supports time source := by
  simp only [Supports, take_recordsAt_of_stale, mem_pruneAddresses]
  constructor
  · rintro ⟨address, held, ⟨member, -⟩, same, live⟩
    exact ⟨address, held, member, same, live⟩
  · rintro ⟨address, held, member, same, live⟩
    exact ⟨address, held, ⟨member, order.trans_lt live⟩, same, live⟩

theorem settled_stale_get {key : FactKey} :
    (entry.settled candidate record now true).observations[key]? = some fact ↔
      entry.observations[key]? = some fact ∧ entry.Supports now key.source ∧
        now < fact.expiresAt := by
  change ((entry.pruneAddresses now).dropOrphanedFacts.dropLapsedFacts now).observations[key]? =
    some fact ↔ _
  rw [dropLapsedFacts_get, dropOrphanedFacts_get, and_assoc]
  refine and_congr Iff.rfl (and_congr_left fun _ => ?_)
  simp only [Supports, mem_pruneAddresses]
  constructor
  · rintro ⟨address, held, ⟨member, live⟩, same⟩
    exact ⟨address, held, member, same, live⟩
  · rintro ⟨address, held, member, same, live⟩
    exact ⟨address, held, ⟨member, live⟩, same⟩

end Entry

namespace CandidateSet

variable {set : CandidateSet} {seen : Observation} {protocol : ProtocolId} {names : Finset FactKey}

theorem taken_stale_get (roomy : (set.heldEntry seen.candidate.peerId).Roomy names)
    (named : ∀ item ∈ carriedKeys seen.candidate, item.1.label ∈ names)
    (older : ∀ observation ∈ seen.candidate.protocolObservations,
      observation.protocolId = protocol → observation.observedAt <
        set.triples.threshold ⟨seen.candidate.peerId, ⟨protocol, seen.candidate.source⟩⟩) :
    (set.taken seen true).entry.observations[(⟨protocol, seen.candidate.source⟩ : FactKey)]? =
      ((set.heldEntry seen.candidate.peerId).settled seen.candidate seen.record seen.now
        true).observations[(⟨protocol, seen.candidate.source⟩ : FactKey)]? := by
  refine (taken_lands roomy named).unmoved protocol fun observation listed same => ?_
  have below := older observation (Std.ExtTreeSet.mem_toList.mp listed) same
  rw [MarkBook.threshold, max_comm, ← heldEntry_factApplied] at below
  rw [Entry.settled_factApplied]
  exact below

theorem observe_stale_shows (below : set.isStale seen.candidate = true)
    (roomy : (set.heldEntry seen.candidate.peerId).Roomy names)
    (named : ∀ item ∈ carriedKeys seen.candidate, item.1.label ∈ names)
    (older : ∀ observation ∈ seen.candidate.protocolObservations,
      observation.protocolId = protocol → observation.observedAt <
        set.triples.threshold ⟨seen.candidate.peerId, ⟨protocol, seen.candidate.source⟩⟩)
    (order : seen.now ≤ time) :
    Shows ((set.observe seen).candidates time priorityOf) seen.candidate.peerId
        seen.candidate.source protocol supported ↔
      Shows (set.candidates time priorityOf) seen.candidate.peerId seen.candidate.source protocol
        supported := by
  rcases observe_stale below with ⟨-, same⟩ | ⟨held, stored⟩
  · rw [same]
  · obtain ⟨entry, found⟩ := (mem_iff_get _ _).mp held
    have onFile := taken_stale_get roomy named older
    have isHeld : set.heldEntry seen.candidate.peerId = entry := by simp [heldEntry, found]
    have isTaken : (set.taken seen true).entry =
        (entry.take seen.candidate seen.record seen.now true
          (set.spilledFloor seen.candidate)).entry := by
      rw [taken, found, Option.getD_some]
    rw [isHeld] at onFile
    rw [stored, shows_iff, shows_iff]
    constructor
    · rintro ⟨after, present, supports, fact, filed, value, lasting⟩
      rw [store_get, if_pos rfl] at present
      split at present
      · cases present
      · cases present
        rw [onFile, Entry.settled_stale_get] at filed
        rw [isTaken, Entry.take_stale_supports order] at supports
        exact ⟨entry, found, supports, fact, filed.1, value, lasting⟩
    · rintro ⟨before, present, supports, fact, filed, value, lasting⟩
      cases found.symm.trans present
      have remains := taken_stale_nonempty found (supports.earlier order)
      refine ⟨(set.taken seen true).entry, ?_, ?_, fact, ?_, value, lasting⟩
      · rw [store_get, if_pos rfl, remains]
        rfl
      · rw [isTaken, Entry.take_stale_supports order]
        exact supports
      · rw [onFile, Entry.settled_stale_get]
        exact ⟨filed, supports.earlier order, order.trans_lt lasting⟩

end CandidateSet

inductive ManagerCall where
  | register (descriptor : ProviderDescriptor) (priority : Int)
  | event (source : String) (event : DiscoveryEvent) (now : Nat) (trust : PeerTrustPolicy)
  | sweep (now : Nat)

namespace DiscoveryManager

def perform (manager : DiscoveryManager) : ManagerCall → DiscoveryManager
  | .register descriptor priority => (manager.register descriptor priority).1
  | .event source event now trust => (manager.onEvent source event now trust).1
  | .sweep now => manager.sweep now

def callOf (manager : DiscoveryManager) : ManagerCall → Option Call
  | .register _ _ => none
  | .event source event now trust =>
    match manager.providers[source]? with
    | none => none
    | some registered =>
      match event with
      | .candidateObserved candidate =>
        if candidate.source ≠ source then none
        else
          match candidate.validate with
          | .error _ => none
          | .ok () => some (.observe ⟨candidate, now, trust,
              registered.descriptor.supportsExpiry, isPinnedProvider registered⟩)
      | .candidateExpired peerId eventSource addresses =>
        if eventSource ≠ source then none else some (.retract peerId source addresses)
      | .healthChanged _ _ => none
  | .sweep now => some (.sweep now)

variable {manager : DiscoveryManager}

theorem register_candidates :
    (manager.register descriptor priority).1.candidates = manager.candidates := by
  unfold register
  split
  · rfl
  · split <;> rfl

theorem perform_candidates :
    (manager.perform call).candidates =
      match manager.callOf call with
      | some operation => manager.candidates.perform operation
      | none => manager.candidates := by
  cases call with
  | register descriptor priority => exact register_candidates
  | sweep now => rfl
  | event source event now trust =>
    simp only [perform, onEvent, callOf]
    cases manager.providers[source]? with
    | none => rfl
    | some registered =>
      cases event with
      | candidateObserved candidate =>
        by_cases mismatch : candidate.source ≠ source
        · simp only [if_pos mismatch]
        · simp only [if_neg mismatch]
          cases candidate.validate <;> rfl
      | candidateExpired peerId eventSource addresses =>
        by_cases mismatch : eventSource ≠ source
        · simp only [if_pos mismatch]
        · simp only [if_neg mismatch]
          rfl
      | healthChanged eventSource health =>
        by_cases mismatch : eventSource ≠ source
        · simp only [if_pos mismatch]
        · simp only [if_neg mismatch]

theorem onEvent_providers (candidate : CandidatePeer) (now : Nat) (trust : PeerTrustPolicy) :
    (manager.onEvent source (.candidateObserved candidate) now trust).1.providers =
      manager.providers := by
  simp only [onEvent]
  cases manager.providers[source]? with
  | none => rfl
  | some registered =>
    by_cases mismatch : candidate.source ≠ source
    · simp only [if_pos mismatch]
    · simp only [if_neg mismatch]
      cases candidate.validate <;> rfl

theorem perform_providers (bounded : manager.providers.size ≤ maxProviders) :
    (manager.perform call).providers.size ≤ maxProviders ∧
      ∀ name ∈ manager.providers, name ∈ (manager.perform call).providers := by
  cases call with
  | sweep now => exact ⟨bounded, fun _ held => held⟩
  | register descriptor priority =>
    simp only [perform, register]
    split
    · exact ⟨bounded, fun _ held => held⟩
    · split
      · exact ⟨bounded, fun _ held => held⟩
      next room =>
        refine ⟨?_, fun name held => (mem_insert _ _ _ _).mpr (.inr held)⟩
        rw [ExtTreeMap.size_insert]
        split
        · exact bounded
        next fresh =>
          have short : ¬maxProviders ≤ manager.providers.size := fun full =>
            room ⟨fun held => fresh (ExtTreeMap.contains_iff_mem.mpr held), full⟩
          omega
  | event source event now trust =>
    cases event with
    | candidateObserved candidate =>
      simp only [perform, onEvent_providers]
      exact ⟨bounded, fun _ held => held⟩
    | candidateExpired peerId eventSource addresses =>
      simp only [perform, onEvent]
      cases manager.providers[source]? with
      | none => exact ⟨bounded, fun _ held => held⟩
      | some registered =>
        dsimp only
        split <;> exact ⟨bounded, fun _ held => held⟩
    | healthChanged eventSource health =>
      simp only [perform, onEvent]
      rcases found : manager.providers[source]? with _ | registered
      · exact ⟨bounded, fun _ held => held⟩
      · have member : manager.providers.contains source = true :=
          ExtTreeMap.contains_iff_mem.mpr ((mem_iff_get _ _).mpr ⟨_, found⟩)
        dsimp only
        split
        · exact ⟨bounded, fun _ held => held⟩
        · refine ⟨?_, fun name held => (mem_insert _ _ _ _).mpr (.inr held)⟩
          rw [ExtTreeMap.size_insert, if_pos member]
          exact bounded

theorem callOf_observe (heard : manager.callOf call = some (.observe seen)) :
    seen.candidate.source ∈ manager.providers := by
  cases call with
  | register | sweep => cases heard
  | event source event now trust =>
    simp only [callOf] at heard
    rcases found : manager.providers[source]? with _ | registered
    · simp [found] at heard
    · rw [found] at heard
      cases event with
      | candidateObserved candidate =>
        by_cases mismatch : candidate.source ≠ source
        · simp [if_pos mismatch] at heard
        · simp only [if_neg mismatch] at heard
          cases valid : candidate.validate with
          | error error => simp [valid] at heard
          | ok _ =>
            rw [valid] at heard
            cases heard
            rw [not_not.mp mismatch]
            exact (mem_iff_get _ _).mpr ⟨registered, found⟩
      | candidateExpired peerId eventSource addresses =>
        by_cases mismatch : eventSource ≠ source
        · simp [if_pos mismatch] at heard
        · simp [if_neg mismatch] at heard
      | healthChanged eventSource health => cases heard

end DiscoveryManager

structure Managed where
  manager : DiscoveryManager := .new
  trace : List Call := []

def Managed.step (managed : Managed) (call : ManagerCall) : Managed where
  manager := managed.manager.perform call
  trace := managed.trace ++ (managed.manager.callOf call).toList

def managedBy (calls : List ManagerCall) : Managed :=
  calls.foldl Managed.step {}

variable (calls : List ManagerCall)

theorem managedBy_append : managedBy (calls ++ [call]) = (managedBy calls).step call := by
  simp [managedBy]

theorem reached_append (calls : List Call) :
    reached (calls ++ [call]) = (reached calls).perform call := by
  simp [reached]

theorem managedBy_candidates :
    (managedBy calls).manager.candidates = reached (managedBy calls).trace := by
  induction calls using List.reverseRecOn with
  | nil => rfl
  | append_singleton calls call ih =>
    rw [managedBy_append]
    simp only [Managed.step]
    rw [DiscoveryManager.perform_candidates]
    cases (managedBy calls).manager.callOf call with
    | none => simpa using ih
    | some operation =>
      rw [Option.toList_some, reached_append, ih]

theorem managedBy_speakers :
    (managedBy calls).manager.providers.size ≤ maxProviders ∧
      ∀ source ∈ speakers (managedBy calls).trace,
        source ∈ (managedBy calls).manager.providers := by
  induction calls using List.reverseRecOn with
  | nil => exact ⟨Nat.zero_le _, by simp [managedBy, speakers]⟩
  | append_singleton calls call ih =>
    rw [managedBy_append]
    obtain ⟨bounded, grown⟩ := DiscoveryManager.perform_providers ih.1
    refine ⟨bounded, fun source spoke => ?_⟩
    simp only [Managed.step, speakers, List.filterMap_append, List.toFinset_append,
      Finset.mem_union] at spoke
    rcases spoke with earlier | now
    · exact grown source (ih.2 source earlier)
    · rcases heard : (managedBy calls).manager.callOf call with _ | operation
      · simp [heard] at now
      · cases operation with
        | observe seen =>
          rw [heard] at now
          have same : source = seen.candidate.source := by simpa using now
          rw [same]
          exact grown _ (DiscoveryManager.callOf_observe heard)
        | retract | sweep | evict => simp [heard] at now

theorem card_speakers_le : (speakers (managedBy calls).trace).card ≤ maxProviders := by
  obtain ⟨bounded, registered⟩ := managedBy_speakers calls
  refine le_trans ?_ bounded
  rw [← ExtTreeMap.length_keys, ← List.toFinset_card_of_nodup ExtTreeMap.nodup_keys]
  apply Finset.card_le_card
  intro source spoke
  exact List.mem_toFinset.mpr (ExtTreeMap.mem_keys.mpr (registered source spoke))

def factOf (candidate : CandidatePeer) (protocol : ProtocolId) : TripleKey :=
  ⟨candidate.peerId, ⟨protocol, candidate.source⟩⟩

def Run.Newer (run : Run) (candidate : CandidatePeer) : Prop :=
  ∃ sighting ∈ run.log, sighting.pair = pairOf candidate ∧
    candidate.observedAt < sighting.observedAt

def Run.CarriesNewer (run : Run) (candidate : CandidatePeer) (protocol : ProtocolId) : Prop :=
  ∃ observation ∈ candidate.protocolObservations.toList, observation.protocolId = protocol ∧
    ∀ item ∈ run.evidence, item.key = factOf candidate protocol →
      item.observedAt < observation.observedAt

def Run.Repeats (run : Run) (candidate : CandidatePeer) : Prop :=
  ∃ observation ∈ candidate.protocolObservations.toList,
    (∃ item ∈ run.evidence, item.key = factOf candidate observation.protocolId ∧
      item.observedAt = observation.observedAt) ∧
    ∀ item ∈ run.evidence, item.key = factOf candidate observation.protocolId →
      item.observedAt ≤ observation.observedAt

instance (run : Run) (candidate : CandidatePeer) : Decidable (run.Newer candidate) :=
  inferInstanceAs (Decidable (∃ sighting ∈ run.log, _))

instance (run : Run) (candidate : CandidatePeer) (protocol : ProtocolId) :
    Decidable (run.CarriesNewer candidate protocol) :=
  inferInstanceAs (Decidable (∃ observation ∈ candidate.protocolObservations.toList, _))

instance (run : Run) (candidate : CandidatePeer) : Decidable (run.Repeats candidate) :=
  inferInstanceAs (Decidable (∃ observation ∈ candidate.protocolObservations.toList, _))

theorem Run.older_of_not_repeats {run : Run} (original : ¬run.Repeats candidate)
    (notNewer : ¬run.CarriesNewer candidate protocol)
    (carried : observation ∈ candidate.protocolObservations)
    (about : observation.protocolId = protocol) :
    ∃ item ∈ run.evidence, item.key = factOf candidate protocol ∧
      observation.observedAt < item.observedAt := by
  subst about
  have listed := Std.ExtTreeSet.mem_toList.mpr carried
  by_contra none
  push Not at none
  apply notNewer
  refine ⟨observation, listed, rfl, fun item applied same => ?_⟩
  refine lt_of_le_of_ne (none item applied same) fun equal => ?_
  exact original ⟨observation, listed, ⟨item, applied, same, equal⟩, none⟩

def observed (candidate : CandidatePeer) (now : Nat) (trust : PeerTrustPolicy) : ManagerCall :=
  .event candidate.source (.candidateObserved candidate) now trust

section

variable (manager : DiscoveryManager) (candidate : CandidatePeer) (now : Nat)
  (trust : PeerTrustPolicy)

theorem merged_observed :
    (manager.perform (observed candidate now trust)).merged time =
      (manager.perform (observed candidate now trust)).candidates.candidates time
        manager.priorityOf := by
  have same : (manager.perform (observed candidate now trust)).priorityOf = manager.priorityOf := by
    funext source
    simp only [DiscoveryManager.priorityOf, observed, DiscoveryManager.perform,
      DiscoveryManager.onEvent_providers]
  rw [DiscoveryManager.merged, same]

theorem callOf_observed :
    manager.callOf (observed candidate now trust) = none ∨
      ∃ seen : Observation, seen.candidate = candidate ∧ seen.now = now ∧
        manager.callOf (observed candidate now trust) = some (.observe seen) := by
  simp only [observed, DiscoveryManager.callOf]
  cases manager.providers[candidate.source]? with
  | none => exact .inl rfl
  | some registered =>
    simp only [ne_eq, not_true_eq_false, if_false]
    cases candidate.validate with
    | error error => exact .inl rfl
    | ok _ => exact .inr ⟨_, rfl, rfl, rfl⟩

end

/-- An older snapshot changes no reading of its source's facts, unless it repeats at the
same time the newest evidence its source has given about one of them. -/
theorem older_snapshot_shows_the_same (calls : List ManagerCall) (candidate : CandidatePeer)
    (now : Nat) (trust : PeerTrustPolicy)
    (fits : ∀ peer, (factNames (managedBy (calls ++ [observed candidate now trust])).trace
      peer).card ≤ maxObservationsPerPeer)
    (fewFacts : (runOf (managedBy calls).trace).goneFacts.card ≤ maxHighWater)
    (few : (runOf (managedBy calls).trace).gone.card ≤ maxHighWater)
    (original : ¬(runOf (managedBy calls).trace).Repeats candidate)
    (older : (runOf (managedBy calls).trace).Newer candidate) (time : Nat) (order : now ≤ time)
    (protocol : ProtocolId)
    (notNewer : ¬(runOf (managedBy calls).trace).CarriesNewer candidate protocol)
    (supported : Bool) :
    Shows ((managedBy (calls ++ [observed candidate now trust])).manager.merged time)
        candidate.peerId candidate.source protocol supported ↔
      Shows ((managedBy calls).manager.merged time) candidate.peerId candidate.source protocol
        supported := by
  have limited := card_speakers_le calls
  have reachedSet : (managedBy calls).manager.candidates = (runOf (managedBy calls).trace).set :=
    (managedBy_candidates calls).trans (runOf_set _).symm
  rw [managedBy_append] at fits ⊢
  simp only [Managed.step] at fits ⊢
  rw [merged_observed, DiscoveryManager.perform_candidates, DiscoveryManager.merged]
  rcases callOf_observed (managedBy calls).manager candidate now trust with
    ignored | ⟨seen, rfl, rfl, heard⟩
  · rw [ignored]
  · rw [heard] at fits ⊢
    rw [Option.toList_some] at fits
    generalize (managedBy calls).trace = trace at *
    have fitsBefore : ∀ peer, (factNames trace peer).card ≤ maxObservationsPerPeer := fun peer =>
      (Finset.card_le_card (factNames_append trace)).trans (fits peer)
    have tracked := runOf_tracked trace few limited
    have facts := runOf_factTracked trace fewFacts fitsBefore
    obtain ⟨sighting, logged, same, newer⟩ := older
    have below := tracked.isStale logged same newer
    have roomy : ((runOf trace).set.heldEntry seen.candidate.peerId).Roomy
        (factNames (trace ++ [.observe seen]) seen.candidate.peerId) := by
      refine facts.roomy facts.covered (.refl facts.follows.spilled) ?_ (fits _)
      intro item listed owner
      rw [← owner]
      exact factNames_append trace (heardFacts_named listed)
    rw [reachedSet]
    refine CandidateSet.observe_stale_shows below roomy
      (fun item listed => (carriedKeys_named trace item listed).2) ?_ order
    intro observation carried about
    obtain ⟨item, applied, key, stronger⟩ :=
      Run.older_of_not_repeats original notNewer carried about
    have floor := facts.follows.floor _ (List.mem_map_of_mem applied)
    rw [key] at floor
    exact stronger.trans_le floor

def allNames (calls : List Call) : Finset FactKey :=
  (calls.flatMap fun call =>
    match call with
    | .observe seen => seen.candidate.protocolObservations.toList.map fun observation =>
      (⟨observation.protocolId, seen.candidate.source⟩ : FactKey)
    | _ => []).toFinset

theorem factNames_subset (calls : List Call) : factNames calls peer ⊆ allNames calls := by
  intro key named
  simp only [factNames, allNames, List.mem_toFinset, List.mem_flatMap] at named ⊢
  obtain ⟨call, listed, member⟩ := named
  refine ⟨call, listed, ?_⟩
  cases call with
  | observe seen =>
    dsimp only at member ⊢
    split at member
    · exact member
    · cases member
  | retract | sweep | evict => cases member

def kademlia : ProtocolId :=
  ⟨"/interweave/kad/1.0.0", by decide⟩

def peerCache : ProviderDescriptor :=
  ⟨"peer-cache", "1.0", none, .configured, true⟩

def snapshot (observedAt : Nat) (evidence : Option Nat) : CandidatePeer where
  peerId := .numbered 0
  addresses := {"/ip4/10.0.0.1/tcp/1"}
  source := "peer-cache"
  observedAt := observedAt
  expiresAt := some 100
  protocolObservations :=
    match evidence with
    | some time => {⟨kademlia, true, time⟩}
    | none => ∅

def withdrawal : List ManagerCall :=
  [.register peerCache 0, observed (snapshot 8 (some 5)) 8 .default,
    observed (snapshot 20 none) 20 .default]

/-- A snapshot taken between the two, delivered after both, brings the capability back. -/
theorem delayed_snapshot_reasserts :
    (∀ peer, (factNames (managedBy (withdrawal ++
        [observed (snapshot 10 (some 5)) 25 .default])).trace peer).card ≤
      maxObservationsPerPeer) ∧
    (runOf (managedBy withdrawal).trace).goneFacts.card ≤ maxHighWater ∧
    (runOf (managedBy withdrawal).trace).gone.card ≤ maxHighWater ∧
    (runOf (managedBy withdrawal).trace).Newer (snapshot 10 (some 5)) ∧
    ¬(runOf (managedBy withdrawal).trace).CarriesNewer (snapshot 10 (some 5)) kademlia ∧
    ¬Shows ((managedBy withdrawal).manager.merged 30) (.numbered 0) "peer-cache" kademlia true ∧
    Shows ((managedBy (withdrawal ++ [observed (snapshot 10 (some 5)) 25 .default])).manager.merged
      30) (.numbered 0) "peer-cache" kademlia true := by
  refine ⟨fun peer => (Finset.card_le_card (factNames_subset _)).trans ?_, ?_⟩ <;>
    decide +kernel

theorem older_snapshot_shows_the_same_sample :
    Shows ((managedBy (withdrawal ++ [observed (snapshot 10 (some 4)) 25 .default])).manager.merged
        30) (.numbered 0) "peer-cache" kademlia true ↔
      Shows ((managedBy withdrawal).manager.merged 30) (.numbered 0) "peer-cache" kademlia true :=
  older_snapshot_shows_the_same withdrawal (snapshot 10 (some 4)) 25 .default
    (fun peer => (Finset.card_le_card (factNames_subset _)).trans (by decide +kernel))
    (by decide +kernel) (by decide +kernel) (by decide +kernel) (by decide +kernel) 30 (by decide)
    kademlia (by decide +kernel) true

end InterWeave.Discovery
