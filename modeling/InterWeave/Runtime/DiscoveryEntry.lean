import InterWeave.Runtime.DiscoveryCore

/-!
What an observation does to one peer's entry: which records and facts it can touch, and
what it leaves as it was.
-/

namespace InterWeave.Discovery

open Std (ExtTreeMap)
open Watermark (mark raise lift Within)
open OrderedMap

namespace Entry

variable {entry : Entry} {key : FactKey} {record : Provenance} {fact : Fact}

def recordsAt (entry : Entry) (address : String) : List Provenance :=
  entry.addresses[address]?.getD []

theorem mem_recordsAt :
    record ∈ entry.recordsAt address ↔
      ∃ records, entry.addresses[address]? = some records ∧ record ∈ records := by
  rw [recordsAt]
  cases entry.addresses[address]? <;> simp

theorem mem_records : record ∈ entry.records ↔ ∃ address, record ∈ entry.recordsAt address := by
  simp [records, mem_recordsAt]

theorem keepRecords_recordsAt (entry : Entry) (address : String) :
    (entry.keepRecords keep).recordsAt address =
      (entry.recordsAt address).filter (keep address) := by
  simp only [recordsAt, keepRecords, ExtTreeMap.getElem?_filter', ExtTreeMap.getElem?_map]
  cases entry.addresses[address]? with
  | none => rfl
  | some records =>
    by_cases nothing : (records.filter (keep address)).isEmpty = true
    · simp [Option.filter, List.isEmpty_iff.mp nothing]
    · simp [Option.filter, nothing]

@[simp]
theorem keepRecords_observations (entry : Entry) :
    (entry.keepRecords keep).observations = entry.observations := rfl

@[simp]
theorem keepRecords_applied (entry : Entry) :
    (entry.keepRecords keep).applied = entry.applied := rfl

@[simp]
theorem keepRecords_factApplied (entry : Entry) :
    (entry.keepRecords keep).factApplied = entry.factApplied := rfl

theorem mem_pruneAddresses :
    record ∈ (entry.pruneAddresses now).recordsAt address ↔
      record ∈ entry.recordsAt address ∧ now < record.expiresAt := by
  rw [pruneAddresses, keepRecords_recordsAt, List.mem_filter, Provenance.isLive, decide_eq_true_iff]

def Supports (entry : Entry) (now : Nat) (source : String) : Prop :=
  ∃ address, ∃ record ∈ entry.recordsAt address, record.source = source ∧ now < record.expiresAt

theorem dropOrphanedFacts_get :
    entry.dropOrphanedFacts.observations[key]? = some fact ↔
      entry.observations[key]? = some fact ∧
        ∃ address, ∃ record ∈ entry.recordsAt address, record.source = key.source := by
  simp only [dropOrphanedFacts, ExtTreeMap.getElem?_filter', Option.filter_eq_some_iff,
    List.any_eq_true, mem_records, beq_iff_eq]
  refine and_congr_right fun _ => ?_
  constructor
  · rintro ⟨record, ⟨address, member⟩, same⟩
    exact ⟨address, record, member, same⟩
  · rintro ⟨address, record, member, same⟩
    exact ⟨record, ⟨address, member⟩, same⟩

theorem dropLapsedFacts_get :
    (entry.dropLapsedFacts now).observations[key]? = some fact ↔
      entry.observations[key]? = some fact ∧ now < fact.expiresAt := by
  simp [dropLapsedFacts]

theorem withdrawOmitted_get_of_get
    (found : (entry.withdrawOmitted candidate).observations[key]? = some fact) :
    entry.observations[key]? = some fact := by
  simp only [withdrawOmitted, ExtTreeMap.getElem?_filter', Option.filter_eq_some_iff] at found
  exact found.1

theorem isPinnedBy_congr {other : Entry} (same : entry.addresses = other.addresses) :
    entry.isPinnedBy source = other.isPinnedBy source := by
  rw [isPinnedBy, isPinnedBy, records, records, same]

def asserted (entry : Entry) (key : FactKey) (fact : Fact) : Entry :=
  { entry.noteFact key fact.observedAt with
    observations := entry.observations.insert key fact }

def withoutFact (entry : Entry) (key : FactKey) : Entry :=
  { entry with observations := entry.observations.erase key }

inductive FactExit (record : Provenance) (entry : Entry) (key : FactKey) (fact : Fact) :
    Entry → Prop where
  | kept : FactExit record entry key fact entry
  | filed (room : key ∈ entry.observations ∨
        entry.observations.size < maxObservationsPerPeer) :
      FactExit record entry key fact (entry.asserted key fact)
  | displaced {victim : FactKey} (pinned : record.pinned = true)
      (own : entry.isPinnedBy record.source = true) (found : victim ∈ entry.observations)
      (unpinned : entry.isPinnedBy victim.source = false) :
      FactExit record entry key fact ((entry.withoutFact victim).asserted key fact)

theorem oldestUnpinnedFact_some (oldest : entry.oldestUnpinnedFact = some victim) :
    victim ∈ entry.observations ∧ entry.isPinnedBy victim.source = false := by
  rw [oldestUnpinnedFact, Option.map_eq_some_iff] at oldest
  obtain ⟨item, least, rfl⟩ := oldest
  obtain ⟨listed, unpinned⟩ := List.mem_filter.mp (Extremum.minByKey_mem least)
  refine ⟨(mem_iff_get _ _).mpr ⟨item.2, ?_⟩, by simpa using unpinned⟩
  exact ExtTreeMap.mem_toList_iff_getElem?_eq_some.mp listed

theorem placeFact_exit (record : Provenance) (spilled : ProtocolId → Nat) (slots : Slots)
    (observation : ProtocolObservation) :
    FactExit record slots.entry ⟨observation.protocolId, record.source⟩
      ⟨observation.supported, observation.observedAt, record.expiresAt⟩
      (slots.placeFact record spilled observation).entry := by
  unfold Slots.placeFact
  dsimp only
  split
  · exact .kept
  · unfold Slots.freeFact
    by_cases full : (⟨observation.protocolId, record.source⟩ : FactKey) ∉ slots.entry.observations ∧
        maxObservationsPerPeer ≤ slots.entry.observations.size
    · rw [if_pos full]
      by_cases pinned : (record.pinned && slots.entry.isPinnedBy record.source) = true
      · simp only [pinned, Bool.not_true, Bool.false_eq_true, if_false]
        rw [Bool.and_eq_true] at pinned
        cases oldest : slots.entry.oldestUnpinnedFact with
        | none => exact .kept
        | some victim =>
          obtain ⟨found, unpinned⟩ := oldestUnpinnedFact_some oldest
          exact .displaced pinned.1 pinned.2 found unpinned
      · simp only [pinned, Bool.not_false, if_true]
        exact .kept
    · rw [if_neg full]
      refine .filed ?_
      by_cases held : (⟨observation.protocolId, record.source⟩ : FactKey) ∈
          slots.entry.observations
      · exact .inl held
      · exact .inr (not_le.mp fun crowded => full ⟨held, crowded⟩)

theorem FactExit.frame (exit : FactExit record entry key fact after) :
    after.addresses = entry.addresses ∧ after.applied = entry.applied := by
  cases exit <;> exact ⟨rfl, rfl⟩

end Entry

section

variable {record : Provenance} {records : List Provenance} {addresses : AddressMap}

theorem refresh_none (unknown : refresh record records = none) :
    ∀ held ∈ records, held.source ≠ record.source := by
  induction records with
  | nil => simp
  | cons first rest ih =>
    rw [refresh] at unknown
    split at unknown
    · split at unknown <;> cases unknown
    next other =>
      rw [Option.map_eq_none_iff] at unknown
      exact List.forall_mem_cons.mpr ⟨other, ih unknown⟩

inductive Placement (record : Provenance) (records : List Provenance) :
    List Provenance → Prop where
  | refreshed {placed : List Provenance} (known : refresh record records = some placed) :
      Placement record records placed
  | full (crowded : maxProvenancePerAddress ≤ records.length) : Placement record records records
  | swapped {index : Nat} {victim : Provenance} (pinned : record.pinned = true)
      (new : ∀ held ∈ records, held.source ≠ record.source)
      (found : records[index]? = some victim) (unpinned : victim.pinned = false) :
      Placement record records (records.eraseIdx index ++ [record])
  | appended (new : ∀ held ∈ records, held.source ≠ record.source)
      (room : records.length < maxProvenancePerAddress) :
      Placement record records (records ++ [record])

theorem oldestUnpinnedRecord_some (oldest : oldestUnpinnedRecord records = some index) :
    ∃ victim, records[index]? = some victim ∧ victim.pinned = false := by
  rw [oldestUnpinnedRecord, Option.map_eq_some_iff] at oldest
  obtain ⟨item, least, rfl⟩ := oldest
  obtain ⟨listed, unpinned⟩ := List.mem_filter.mp (Extremum.minByKey_mem least)
  refine ⟨item.1, List.mem_zipIdx_iff_getElem?.mp listed, by simpa using unpinned⟩

theorem placeRecord_placement (record : Provenance) :
    Placement record records (placeRecord record records).1 := by
  unfold placeRecord
  split
  next placed known => exact .refreshed known
  next unknown =>
    have new := refresh_none unknown
    split
    next crowded =>
      split
      · exact .full crowded
      next pinned =>
        split
        next index oldest =>
          obtain ⟨victim, found, unpinned⟩ := oldestUnpinnedRecord_some oldest
          exact .swapped (by simpa using pinned) new found unpinned
        · exact .full crowded
    next room => exact .appended new (not_le.mp room)

inductive AddressExit (record : Provenance) (addresses : AddressMap) (address : String) :
    AddressMap → Prop where
  | refused (full : maxAddressesPerPeer ≤ addresses.size) :
      AddressExit record addresses address addresses
  | placed {placed : List Provenance}
      (room : address ∈ addresses ∨ addresses.size < maxAddressesPerPeer)
      (placement : Placement record (addresses[address]?.getD []) placed) :
      AddressExit record addresses address (addresses.insert address placed)
  | displaced {victim : String} {held : List Provenance} (pinned : record.pinned = true)
      (new : address ∉ addresses) (found : addresses[victim]? = some held)
      (unpinned : ∀ other ∈ held, other.pinned = false) :
      AddressExit record addresses address ((addresses.erase victim).insert address [record])

theorem oldestUnpinnedAddress_some (oldest : oldestUnpinnedAddress addresses = some victim) :
    ∃ held, addresses[victim]? = some held ∧ ∀ other ∈ held, other.pinned = false := by
  rw [oldestUnpinnedAddress, Option.map_eq_some_iff] at oldest
  obtain ⟨item, least, rfl⟩ := oldest
  obtain ⟨listed, unpinned⟩ := List.mem_filter.mp (Extremum.minByKey_mem least)
  refine ⟨item.2, ExtTreeMap.mem_toList_iff_getElem?_eq_some.mp listed, ?_⟩
  simpa using unpinned

theorem placeRecord_nil (record : Provenance) : (placeRecord record []).1 = [record] := rfl

theorem placeAddress_exit (record : Provenance) (slots : Slots) (address : String) :
    ∃ after, AddressExit record slots.entry.addresses address after ∧
      (slots.placeAddress record address).entry = { slots.entry with addresses := after } := by
  unfold Slots.placeAddress Slots.freeAddress
  by_cases full : address ∉ slots.entry.addresses ∧
      maxAddressesPerPeer ≤ slots.entry.addresses.size
  · rw [if_pos full]
    by_cases pinned : record.pinned = true
    · simp only [pinned, Bool.not_true, Bool.false_eq_true, if_false]
      cases oldest : oldestUnpinnedAddress slots.entry.addresses with
      | none => exact ⟨_, .refused full.2, rfl⟩
      | some victim =>
        obtain ⟨held, found, unpinned⟩ := oldestUnpinnedAddress_some oldest
        have absent : (slots.entry.addresses.erase victim)[address]? = none := by
          rw [get_erase, (notMem_iff_get _ _).mp full.1, ite_self]
        simp only [Slots.support, absent, Option.getD_none, placeRecord_nil]
        exact ⟨_, .displaced pinned full.1 found unpinned, rfl⟩
    · simp only [pinned, Bool.not_false, if_true]
      exact ⟨_, .refused full.2, rfl⟩
  · rw [if_neg full]
    refine ⟨_, .placed ?_ (placeRecord_placement _), rfl⟩
    by_cases held : address ∈ slots.entry.addresses
    · exact .inl held
    · exact .inr (not_le.mp fun crowded => full ⟨held, crowded⟩)

end

namespace Slots

variable (record : Provenance) (spilled : ProtocolId → Nat) (slots : Slots) (address : String)
    (observation : ProtocolObservation)

theorem freeFact_of_room {slots : Slots} {record : Provenance} {key : FactKey}
    (room : key ∈ slots.entry.observations ∨
      slots.entry.observations.size < maxObservationsPerPeer) :
    slots.freeFact record key = (slots, true) := by
  unfold freeFact
  rw [if_neg]
  rintro ⟨fresh, full⟩
  rcases room with held | short
  · exact fresh held
  · omega

theorem placeFact_own {protocol : ProtocolId} (other : observation.protocolId ≠ protocol) :
    (slots.placeFact record spilled observation).entry.observations[
        (⟨protocol, record.source⟩ : FactKey)]? =
      slots.entry.observations[(⟨protocol, record.source⟩ : FactKey)]? := by
  have apart : (⟨observation.protocolId, record.source⟩ : FactKey) ≠ ⟨protocol, record.source⟩ :=
    fun same => other (congrArg FactKey.protocol same)
  have exit := Entry.placeFact_exit record spilled slots observation
  generalize (slots.placeFact record spilled observation).entry = after at exit ⊢
  generalize slots.entry = before at exit ⊢
  cases exit with
  | kept => rfl
  | filed room => rw [Entry.asserted, get_insert, if_neg apart]
  | displaced pinned own found unpinned =>
    rw [Entry.asserted, get_insert, if_neg apart, Entry.withoutFact,
      get_erase, if_neg]
    rintro rfl
    rw [own] at unpinned
    cases unpinned

theorem foldl_placeFact_frame {observations : List ProtocolObservation} :
    (observations.foldl (placeFact record spilled) slots).entry.addresses =
        slots.entry.addresses ∧
      (observations.foldl (placeFact record spilled) slots).entry.applied =
        slots.entry.applied := by
  induction observations generalizing slots with
  | nil => exact ⟨rfl, rfl⟩
  | cons observation rest ih =>
    obtain ⟨addresses, applied⟩ := (Entry.placeFact_exit record spilled slots observation).frame
    exact ⟨(ih _).1.trans addresses, (ih _).2.trans applied⟩

theorem foldl_placeFact_own {observations : List ProtocolObservation}
    (unnamed : ∀ observation ∈ observations, observation.protocolId ≠ protocol) :
    (observations.foldl (placeFact record spilled) slots).entry.observations[
        (⟨protocol, record.source⟩ : FactKey)]? =
      slots.entry.observations[(⟨protocol, record.source⟩ : FactKey)]? := by
  induction observations generalizing slots with
  | nil => rfl
  | cons observation rest ih =>
    refine (ih _ fun later member => unnamed later (List.mem_cons_of_mem _ member)).trans ?_
    exact placeFact_own _ _ _ _ (unnamed observation List.mem_cons_self)

def SameLedger (first second : Entry) : Prop :=
  first.observations = second.observations ∧ first.applied = second.applied ∧
    first.factApplied = second.factApplied

theorem placeAddress_ledger : SameLedger (slots.placeAddress record address).entry slots.entry := by
  obtain ⟨after, -, same⟩ := placeAddress_exit record slots address
  rw [same]
  exact ⟨rfl, rfl, rfl⟩

theorem foldl_placeAddress_ledger {addresses : List String} :
    SameLedger (addresses.foldl (placeAddress record) slots).entry slots.entry := by
  induction addresses generalizing slots with
  | nil => exact ⟨rfl, rfl, rfl⟩
  | cons address rest ih =>
    obtain ⟨facts, applied, floors⟩ := ih (slots.placeAddress record address)
    obtain ⟨factsHere, appliedHere, floorsHere⟩ := placeAddress_ledger record slots address
    exact ⟨facts.trans factsHere, applied.trans appliedHere, floors.trans floorsHere⟩

theorem placeAddress_nonempty (some : slots.entry.addresses.isEmpty = false ∨
      slots.entry.addresses.size < maxAddressesPerPeer) :
    (slots.placeAddress record address).entry.addresses.isEmpty = false := by
  obtain ⟨after, exit, same⟩ := placeAddress_exit record slots address
  rw [same]
  cases exit with
  | refused full =>
    rcases some with held | short
    · exact held
    · omega
  | placed | displaced => simp

theorem foldl_placeAddress_nonempty {addresses : List String}
    (held : slots.entry.addresses.isEmpty = false) :
    (addresses.foldl (placeAddress record) slots).entry.addresses.isEmpty = false := by
  induction addresses generalizing slots with
  | nil => exact held
  | cons address rest ih => exact ih _ (placeAddress_nonempty record slots address (.inl held))

end Slots

namespace Entry

variable (entry : Entry) (candidate : CandidatePeer) (record : Provenance) (now : Nat)
  (stale : Bool) (spilled : ProtocolId → Nat)

theorem take_addresses :
    (entry.take candidate record now stale spilled).entry.addresses =
      (entry.takeAddresses candidate record now stale).entry.addresses := by
  rw [take, takeFacts, (Slots.foldl_placeFact_frame _ _ _).1]
  cases stale <;> rfl

theorem takeAddresses_ledger :
    (entry.takeAddresses candidate record now stale).entry.observations = entry.observations ∧
      (entry.takeAddresses candidate record now stale).entry.applied =
        (if stale then entry else
          entry.noteApplied candidate.source candidate.observedAt).applied ∧
      (entry.takeAddresses candidate record now stale).entry.factApplied = entry.factApplied := by
  cases stale with
  | true => exact ⟨rfl, rfl, rfl⟩
  | false => exact Slots.foldl_placeAddress_ledger _ _

theorem take_applied :
    (entry.take candidate record now stale spilled).entry.applied =
      (if stale then entry else
        entry.noteApplied candidate.source candidate.observedAt).applied := by
  rw [take, takeFacts, (Slots.foldl_placeFact_frame _ _ _).2,
    ← (takeAddresses_ledger entry candidate record now stale).2.1]
  cases stale <;> rfl

theorem take_recordsAt_of_stale (address : String) :
    (entry.take candidate record now true spilled).entry.recordsAt address =
      (entry.pruneAddresses now).recordsAt address := by
  rw [recordsAt, take_addresses]
  rfl

theorem take_new_nonempty (named : candidate.addresses.isEmpty = false) :
    (take {} candidate record now false spilled).entry.addresses.isEmpty = false := by
  rw [take_addresses]
  obtain ⟨first, rest, listed⟩ : ∃ first rest, candidate.addresses.toList = first :: rest := by
    rw [← Std.ExtTreeSet.isEmpty_toList, List.isEmpty_eq_false_iff] at named
    exact List.exists_cons_of_ne_nil named
  have empty : ((({} : Entry).noteApplied candidate.source candidate.observedAt).pruneAddresses
      now).addresses.size < maxAddressesPerPeer := by
    have listing : ((({} : Entry).noteApplied candidate.source
        candidate.observedAt).pruneAddresses now).addresses = ∅ := by
      apply ExtTreeMap.ext_getElem?
      intro address
      simp [pruneAddresses, keepRecords, noteApplied]
    rw [listing]
    decide
  simp only [takeAddresses, Bool.false_eq_true, if_false, listed, List.foldl_cons]
  apply Slots.foldl_placeAddress_nonempty
  exact Slots.placeAddress_nonempty _ _ _ (.inr empty)

theorem take_stale_keeps
    (unnamed : ∀ observation ∈ candidate.protocolObservations, observation.protocolId ≠ protocol)
    (held : entry.observations[(⟨protocol, record.source⟩ : FactKey)]? = some fact)
    (lasting : now < fact.expiresAt) (supported : entry.Supports now record.source) :
    (entry.take candidate record now true spilled).entry.observations[
      (⟨protocol, record.source⟩ : FactKey)]? = some fact := by
  rw [take, takeFacts, Slots.foldl_placeFact_own]
  · have kept : (entry.pruneAddresses now).dropOrphanedFacts.observations[
        (⟨protocol, record.source⟩ : FactKey)]? = some fact := by
      obtain ⟨address, supporting, member, same, live⟩ := supported
      exact dropOrphanedFacts_get.mpr
        ⟨held, address, supporting, mem_pruneAddresses.mpr ⟨member, live⟩, same⟩
    exact dropLapsedFacts_get.mpr ⟨kept, lasting⟩
  · intro observation member
    exact unnamed observation (Std.ExtTreeSet.mem_toList.mp member)

end Entry

end InterWeave.Discovery
