import InterWeave.Runtime.DiscoveryReading

/-!
What one source's event does to what other sources say. Short of the eviction of a whole
peer, only a pinned observation costs another source anything, and never what is pinned.
-/

namespace InterWeave.Discovery

open Std (ExtTreeMap ExtTreeSet)
open OrderedMap

section

variable {record other : Provenance} {records placed : List Provenance}

open Provenance

theorem mem_refresh (known : refresh record records = some placed)
    (foreign : other.source ≠ record.source) : other ∈ placed ↔ other ∈ records := by
  induction records generalizing placed with
  | nil => cases known
  | cons first rest ih =>
    rw [refresh] at known
    split at known
    next own =>
      have notFirst : other ≠ first := fun same => foreign (same ▸ own)
      split at known
      · obtain rfl := Option.some.inj known
        have notMoved : other ≠ { first with
            observedAt := record.observedAt, expiresAt := record.expiresAt } :=
          fun same => foreign ((congrArg source same).trans own)
        simp [notFirst, notMoved]
      · obtain rfl := Option.some.inj known
        rfl
    · obtain ⟨after, moved, rfl⟩ := Option.map_eq_some_iff.mp known
      simp [ih moved]

def Costs (record other : Provenance) : Prop := record.pinned = true ∧ other.pinned = false

theorem Placement.foreign (placement : Placement record records placed)
    (foreign : other.source ≠ record.source) :
    (other ∈ placed → other ∈ records) ∧
      (other ∈ records → other ∈ placed ∨ Costs record other) := by
  have notNew : other ≠ record := fun same => foreign (congrArg source same)
  cases placement with
  | refreshed known =>
    rw [mem_refresh known foreign]
    exact ⟨id, .inl⟩
  | full crowded => exact ⟨id, .inl⟩
  | @swapped index victim pinned new found unpinned =>
    obtain ⟨inside, rfl⟩ := List.getElem?_eq_some_iff.mp found
    simp only [List.mem_append, List.mem_singleton, notNew, or_false]
    refine ⟨List.mem_of_mem_eraseIdx, fun member => ?_⟩
    rw [← (List.getElem_cons_eraseIdx_perm inside).mem_iff, List.mem_cons] at member
    rcases member with rfl | kept
    · exact .inr ⟨pinned, unpinned⟩
    · exact .inl kept
  | appended new room =>
    simp only [List.mem_append, List.mem_singleton, notNew, or_false]
    exact ⟨id, .inl⟩

theorem AddressExit.foreign (exit : AddressExit record addresses address after)
    (foreign : other.source ≠ record.source) (place : String) :
    (other ∈ after[place]?.getD [] → other ∈ addresses[place]?.getD []) ∧
      (other ∈ addresses[place]?.getD [] →
        other ∈ after[place]?.getD [] ∨ Costs record other) := by
  have notNew : other ≠ record := fun same => foreign (congrArg source same)
  cases exit with
  | refused full => exact ⟨id, .inl⟩
  | placed room placement =>
    rw [get_insert]
    split
    next same =>
      subst same
      exact placement.foreign foreign
    · exact ⟨id, .inl⟩
  | @displaced victim held pinned new found unpinned =>
    rw [get_insert, get_erase]
    split
    next same =>
      subst same
      rw [(notMem_iff_get _ _).mp new]
      simp [notNew]
    · split
      next same =>
        subst same
        rw [found]
        refine ⟨fun member => absurd member List.not_mem_nil, fun member => ?_⟩
        exact .inr ⟨pinned, unpinned other member⟩
      · exact ⟨id, .inl⟩

end

structure Entry.Spares (record : Provenance) (before after : Entry) : Prop where
  adds : ∀ address other, other.source ≠ record.source → other ∈ after.recordsAt address →
    other ∈ before.recordsAt address
  loses : ∀ address other, other.source ≠ record.source → other ∈ before.recordsAt address →
    other ∈ after.recordsAt address ∨ Costs record other

namespace Entry

variable {entry before middle after : Entry} {candidate : CandidatePeer} {record : Provenance}
  {now : Nat} {stale : Bool} {spilled : ProtocolId → Nat}

theorem Spares.refl (record : Provenance) (entry : Entry) : Spares record entry entry :=
  ⟨fun _ _ _ => id, fun _ _ _ => .inl⟩

theorem Spares.trans (first : Spares record before middle) (second : Spares record middle after) :
    Spares record before after := by
  refine ⟨fun address other foreign held => ?_, fun address other foreign held => ?_⟩
  · exact first.adds address other foreign (second.adds address other foreign held)
  · rcases first.loses address other foreign held with kept | lost
    · exact second.loses address other foreign kept
    · exact .inr lost

theorem placeAddress_spares {slots : Slots} :
    Spares record slots.entry (slots.placeAddress record address).entry := by
  obtain ⟨after, exit, same⟩ := placeAddress_exit record slots address
  rw [same]
  exact ⟨fun place _ foreign => (exit.foreign foreign place).1,
    fun place _ foreign => (exit.foreign foreign place).2⟩

theorem takeAddresses_spares : Spares record (entry.pruneAddresses now)
    (entry.takeAddresses candidate record now stale).entry := by
  unfold takeAddresses
  cases stale with
  | true => exact .refl _ _
  | false =>
    exact List.foldlRecOn _ _
      (motive := fun slots : Slots => Spares record (entry.pruneAddresses now) slots.entry)
      ⟨fun _ _ _ => id, fun _ _ _ => .inl⟩
      fun _ spared address _ => spared.trans placeAddress_spares

theorem take_spares : Spares record (entry.pruneAddresses now)
    (entry.take candidate record now stale spilled).entry := by
  have spared : Spares record (entry.pruneAddresses now)
      (entry.takeAddresses candidate record now stale).entry := takeAddresses_spares
  refine ⟨fun address other => ?_, fun address other => ?_⟩
  · rw [recordsAt, take_addresses]
    exact spared.adds address other
  · rw [recordsAt.eq_def (entry.take _ _ _ _ _).entry, take_addresses]
    exact spared.loses address other

structure SparesFacts (record : Provenance) (before after : Entry) : Prop where
  addresses : after.addresses = before.addresses
  adds : ∀ (key : FactKey) fact, key.source ≠ record.source →
    after.observations[key]? = some fact → before.observations[key]? = some fact
  loses : ∀ (key : FactKey) fact, key.source ≠ record.source →
    before.observations[key]? = some fact → after.observations[key]? = some fact ∨
      record.pinned = true ∧ before.isPinnedBy key.source = false

theorem SparesFacts.refl (record : Provenance) (entry : Entry) : SparesFacts record entry entry :=
  ⟨rfl, fun _ _ _ => id, fun _ _ _ => .inl⟩

theorem SparesFacts.trans (first : SparesFacts record before middle)
    (second : SparesFacts record middle after) : SparesFacts record before after := by
  refine ⟨second.addresses.trans first.addresses, fun key fact foreign filed => ?_,
    fun key fact foreign filed => ?_⟩
  · exact first.adds key fact foreign (second.adds key fact foreign filed)
  · rcases first.loses key fact foreign filed with kept | lost
    · rw [← isPinnedBy_congr first.addresses]
      exact second.loses key fact foreign kept
    · exact .inr lost

theorem asserted_get :
    (entry.asserted key fact).observations[other]? =
      if key = other then some fact else entry.observations[other]? :=
  get_insert _ _ _ _

theorem placeFact_spares {slots : Slots} :
    SparesFacts record slots.entry (slots.placeFact record spilled observation).entry := by
  have exit := placeFact_exit record spilled slots observation
  generalize (slots.placeFact record spilled observation).entry = after at exit ⊢
  generalize slots.entry = before at exit ⊢
  cases exit with
  | kept => exact .refl _ _
  | filed room =>
    refine ⟨rfl, fun key fact foreign filed => ?_, fun key fact foreign filed => ?_⟩
    · rw [asserted_get, if_neg fun same => foreign (congrArg FactKey.source same.symm)] at filed
      exact filed
    · rw [asserted_get, if_neg fun same => foreign (congrArg FactKey.source same.symm)]
      exact .inl filed
  | @displaced victim pinned own found unpinned =>
    refine ⟨rfl, fun key fact foreign filed => ?_, fun key fact foreign filed => ?_⟩
    · rw [asserted_get, if_neg fun same => foreign (congrArg FactKey.source same.symm),
        withoutFact, get_erase] at filed
      split at filed
      · cases filed
      · exact filed
    · rw [asserted_get, if_neg fun same => foreign (congrArg FactKey.source same.symm),
        withoutFact, get_erase]
      split
      next same =>
        subst same
        exact .inr ⟨pinned, unpinned⟩
      · exact .inl filed

theorem settled_foreign {key : FactKey} (foreign : key.source ≠ candidate.source) :
    (entry.settled candidate record now stale).observations[key]? = some fact ↔
      entry.observations[key]? = some fact ∧ now < fact.expiresAt ∧
        ∃ address,
          ∃ held ∈ (entry.takeAddresses candidate record now stale).entry.recordsAt address,
          held.source = key.source := by
  have ledger := (takeAddresses_ledger entry candidate record now stale).1
  have kept : ((entry.takeAddresses candidate record now
      stale).entry.dropOrphanedFacts.dropLapsedFacts now).observations[key]? = some fact ↔
        entry.observations[key]? = some fact ∧ now < fact.expiresAt ∧
          ∃ address, ∃ held ∈
            (entry.takeAddresses candidate record now stale).entry.recordsAt address,
            held.source = key.source := by
    rw [dropLapsedFacts_get, dropOrphanedFacts_get, ledger, and_assoc]
    exact and_congr_right fun _ => and_comm
  unfold settled
  cases stale with
  | true => exact kept
  | false =>
    rw [← kept]
    simp only [Bool.false_eq_true, if_false, withdrawOmitted, ExtTreeMap.getElem?_filter',
      Option.filter_eq_some_iff]
    refine and_iff_left ?_
    simp [foreign]

theorem take_sparesFacts : SparesFacts record (entry.settled candidate record now stale)
    (entry.take candidate record now stale spilled).entry := by
  unfold take takeFacts
  exact List.foldlRecOn _ _
    (motive := fun slots : Slots =>
      SparesFacts record (entry.settled candidate record now stale) slots.entry)
    (.refl _ _) fun _ spared observation _ =>
      spared.trans placeFact_spares

def Vouches (entry : Entry) (now : Nat) (address source : String) : Prop :=
  ∃ record, entry.Live now address record ∧ record.source = source

def Claims (entry : Entry) (now : Nat) (source : String) (protocol : ProtocolId)
    (supported : Bool) : Prop :=
  entry.Supports now source ∧ ∃ fact,
    entry.observations[(⟨protocol, source⟩ : FactKey)]? = some fact ∧
      fact.supported = supported ∧ now < fact.expiresAt

structure Isolated (source : String) (pinned : Bool) (now : Nat) (before after : Entry) :
    Prop where
  vouches : ∀ address other, other ≠ source → after.Vouches now address other →
    before.Vouches now address other
  claims : ∀ other protocol supported, other ≠ source →
    after.Claims now other protocol supported → before.Claims now other protocol supported
  unvouched : ∀ address other, other ≠ source → before.Vouches now address other →
    after.Vouches now address other ∨
      pinned = true ∧ ∀ held ∈ before.recordsAt address, held.source = other → held.pinned = false
  unclaimed : ∀ other protocol supported, other ≠ source →
    before.Claims now other protocol supported → after.Claims now other protocol supported ∨
      pinned = true ∧ after.isPinnedBy other = false

theorem Isolated.refl (source : String) (pinned : Bool) (now : Nat) (entry : Entry) :
    Isolated source pinned now entry entry :=
  ⟨fun _ _ _ => id, fun _ _ _ _ => id, fun _ _ _ => .inl, fun _ _ _ _ => .inl⟩

theorem isPinnedBy_eq_true : entry.isPinnedBy source = true ↔
    ∃ address, ∃ held ∈ entry.recordsAt address, held.source = source ∧ held.pinned = true := by
  simp only [isPinnedBy, List.any_eq_true, mem_records, Bool.and_eq_true, beq_iff_eq]
  constructor
  · rintro ⟨held, ⟨address, member⟩, same⟩
    exact ⟨address, held, member, same⟩
  · rintro ⟨address, held, member, same⟩
    exact ⟨held, ⟨address, member⟩, same⟩

theorem Shaped.same_record (shaped : entry.Shaped) (here : first ∈ entry.recordsAt address)
    (there : second ∈ entry.recordsAt address) (same : first.source = second.source) :
    first = second := by
  obtain ⟨records, found, member⟩ := mem_recordsAt.mp here
  obtain ⟨others, again, also⟩ := mem_recordsAt.mp there
  obtain rfl := Option.some.inj (found.symm.trans again)
  exact List.inj_on_of_nodup_map (shaped.housed.kept address records found).single member also same

theorem take_recordsAt :
    (entry.take candidate record now stale spilled).entry.recordsAt address =
      (entry.takeAddresses candidate record now stale).entry.recordsAt address := by
  rw [recordsAt, take_addresses]
  rfl

theorem take_supports (foreign : other ≠ record.source)
    (held : ∃ address, ∃ old ∈ (entry.take candidate record now stale spilled).entry.recordsAt
      address, old.source = other) :
    (entry.take candidate record now stale spilled).entry.Supports now other := by
  obtain ⟨address, old, member, rfl⟩ := held
  have earlier := take_spares.adds address old foreign member
  exact ⟨address, old, member, rfl, (mem_pruneAddresses.mp earlier).2⟩

theorem take_isolated (shaped : entry.Shaped) (own : record.source = candidate.source) :
    Isolated candidate.source record.pinned now entry
      (entry.take candidate record now stale spilled).entry := by
  have spared : Spares record (entry.pruneAddresses now)
      (entry.take candidate record now stale spilled).entry := take_spares
  have facts : SparesFacts record (entry.settled candidate record now stale)
      (entry.take candidate record now stale spilled).entry := take_sparesFacts
  rw [← own]
  refine ⟨fun address other foreign => ?_, fun other protocol supported foreign => ?_,
    fun address other foreign => ?_, fun other protocol supported foreign => ?_⟩
  · rintro ⟨held, ⟨member, live⟩, rfl⟩
    exact ⟨held, ⟨(mem_pruneAddresses.mp (spared.adds address held foreign member)).1, live⟩, rfl⟩
  · rintro ⟨⟨address, held, member, rfl, live⟩, fact, filed, value, lasting⟩
    have earlier := (mem_pruneAddresses.mp (spared.adds address held foreign member)).1
    have onFile := (settled_foreign (own ▸ foreign)).mp
      (facts.adds ⟨protocol, held.source⟩ fact foreign filed)
    exact ⟨⟨address, held, earlier, rfl, live⟩, fact, onFile.1, value, lasting⟩
  · rintro ⟨held, ⟨member, live⟩, rfl⟩
    rcases spared.loses address held foreign (mem_pruneAddresses.mpr ⟨member, live⟩) with
      kept | ⟨pinned, unpinned⟩
    · exact .inl ⟨held, ⟨kept, live⟩, rfl⟩
    · refine .inr ⟨pinned, fun twin also same => ?_⟩
      rw [shaped.same_record also member same]
      exact unpinned
  · rintro ⟨⟨address, held, member, rfl, live⟩, fact, filed, value, lasting⟩
    by_cases supports : ∃ place, ∃ old ∈
        (entry.take candidate record now stale spilled).entry.recordsAt place,
        old.source = held.source
    · have vouched := supports
      simp only [take_recordsAt] at vouched
      have settled : (entry.settled candidate record now stale).observations[
          (⟨protocol, held.source⟩ : FactKey)]? = some fact :=
        (settled_foreign (own ▸ foreign)).mpr ⟨filed, lasting, vouched⟩
      rcases facts.loses ⟨protocol, held.source⟩ fact foreign settled with
        kept | ⟨pinned, unpinned⟩
      · exact .inl ⟨take_supports foreign supports, fact, kept, value, lasting⟩
      · exact .inr ⟨pinned, (isPinnedBy_congr facts.addresses).trans unpinned⟩
    · rcases spared.loses address held foreign (mem_pruneAddresses.mpr ⟨member, live⟩) with
        kept | ⟨pinned, -⟩
      · exact absurd ⟨address, held, kept, rfl⟩ supports
      · refine .inr ⟨pinned, Bool.eq_false_iff.mpr fun still => supports ?_⟩
        obtain ⟨place, old, there, same, -⟩ := isPinnedBy_eq_true.mp still
        exact ⟨place, old, there, same⟩

theorem recordsAt_of_isEmpty (none : entry.addresses.isEmpty = true) :
    entry.recordsAt address = [] := by
  rw [recordsAt, ExtTreeMap.isEmpty_iff.mp none]
  simp

theorem Isolated.removed {source : String} {pinned : Bool}
    (isolated : Isolated source pinned now before after)
    (none : after.addresses.isEmpty = true) : Isolated source pinned now before {} := by
  have unvouching (address other : String) : ¬after.Vouches now address other := by
    rintro ⟨held, ⟨member, -⟩, -⟩
    rw [recordsAt_of_isEmpty none] at member
    cases member
  have unclaiming (other : String) (protocol : ProtocolId) (supported : Bool) :
      ¬after.Claims now other protocol supported := by
    rintro ⟨⟨address, held, member, -⟩, -⟩
    rw [recordsAt_of_isEmpty none] at member
    cases member
  refine ⟨?_, ?_, fun address other foreign shown => ?_,
    fun other protocol supported foreign shown => ?_⟩
  · rintro address other - ⟨held, ⟨member, -⟩, -⟩
    simp [recordsAt] at member
  · rintro other protocol supported - ⟨⟨address, held, member, -⟩, -⟩
    simp [recordsAt] at member
  · exact .inr ((isolated.unvouched address other foreign shown).resolve_left
      (unvouching address other))
  · refine .inr ⟨((isolated.unclaimed other protocol supported foreign shown).resolve_left
      (unclaiming other protocol supported)).1, ?_⟩
    refine Bool.eq_false_iff.mpr fun still => ?_
    obtain ⟨address, held, member, -⟩ := isPinnedBy_eq_true.mp still
    simp [recordsAt] at member

end Entry

def Lists (candidates : List AggregatedCandidate) (peer : TransportIdentity) (address : String)
    (source : String) : Prop :=
  ∃ candidate ∈ candidates, candidate.peerId = peer ∧
    ∃ item ∈ candidate.addresses, item.address = address ∧ source ∈ item.sources

namespace CandidateSet

variable {set : CandidateSet} {seen : Observation} {peer : TransportIdentity} {now : Nat}
  {priorityOf : String → Option Int}

variable {source : String}

theorem heldEntry_of_get (found : set.peers[peer]? = some entry) : set.heldEntry peer = entry := by
  rw [heldEntry, found, Option.getD_some]

theorem heldEntry_of_none (absent : set.peers[peer]? = none) : set.heldEntry peer = {} := by
  rw [heldEntry, absent, Option.getD_none]

theorem lists_iff :
    Lists (set.candidates now priorityOf) peer address source ↔
      (set.heldEntry peer).Vouches now address source := by
  constructor
  · rintro ⟨candidate, listed, rfl, shown⟩
    obtain ⟨other, entry, found, aggregated⟩ := mem_candidates.mp listed
    obtain ⟨rfl, reads⟩ := Entry.readsAs_of_aggregate aggregated
    rw [heldEntry_of_get found]
    exact (reads.sources address source).mp shown
  · intro vouched
    cases found : set.peers[peer]? with
    | none =>
      obtain ⟨held, ⟨member, -⟩, -⟩ := vouched
      rw [heldEntry_of_none found] at member
      simp [Entry.recordsAt] at member
    | some entry =>
      rw [heldEntry_of_get found] at vouched
      obtain ⟨candidate, aggregated⟩ :
          ∃ candidate, entry.aggregate now priorityOf peer = some candidate := by
        obtain ⟨held, live, -⟩ := vouched
        exact (Entry.aggregate_isSome_iff peer).mpr ⟨address, held, live⟩
      obtain ⟨same, reads⟩ := Entry.readsAs_of_aggregate aggregated
      exact ⟨candidate, mem_candidates.mpr ⟨peer, entry, found, aggregated⟩, same,
        (reads.sources address source).mpr vouched⟩

theorem shows_iff_claims :
    Shows (set.candidates now priorityOf) peer source protocol supported ↔
      (set.heldEntry peer).Claims now source protocol supported := by
  rw [shows_iff]
  constructor
  · rintro ⟨entry, found, claimed⟩
    rw [heldEntry_of_get found]
    exact claimed
  · intro claimed
    cases found : set.peers[peer]? with
    | none =>
      obtain ⟨⟨address, held, member, -⟩, -⟩ := claimed
      rw [heldEntry_of_none found] at member
      simp [Entry.recordsAt] at member
    | some entry =>
      rw [heldEntry_of_get found] at claimed
      exact ⟨entry, rfl, claimed⟩

theorem Tidy.heldEntry (tidy : set.Tidy) (peer : TransportIdentity) :
    (set.heldEntry peer).Shaped := by
  cases found : set.peers[peer]? with
  | none =>
    rw [heldEntry_of_none found]
    exact Entry.shaped_empty
  | some entry =>
    rw [heldEntry_of_get found]
    exact tidy.entries peer entry found

theorem store_heldEntry : (set.store seen stale).heldEntry peer =
    if seen.candidate.peerId = peer then
      if (set.taken seen stale).entry.addresses.isEmpty = true then {}
      else (set.taken seen stale).entry
    else set.heldEntry peer := by
  rw [heldEntry, store_get]
  split
  · split
    · rfl
    · rfl
  · rfl

theorem Tidy.store_isolated (tidy : set.Tidy) (stale : Bool) :
    Entry.Isolated seen.candidate.source seen.providerPinned seen.now
      (set.heldEntry seen.candidate.peerId)
      ((set.store seen stale).heldEntry seen.candidate.peerId) := by
  have own : seen.record.source = seen.candidate.source := rfl
  have taken : Entry.Isolated seen.candidate.source seen.providerPinned seen.now
      (set.heldEntry seen.candidate.peerId) (set.taken seen stale).entry :=
    Entry.take_isolated (tidy.heldEntry _) own
  rw [store_heldEntry, if_pos rfl]
  split
  next none => exact taken.removed none
  · exact taken

structure IsolatedBut (set : CandidateSet) (seen : Observation) (after : CandidateSet)
    (gone : Option TransportIdentity) : Prop where
  crowded : ∀ peer, gone = some peer →
    maxCandidates ≤ set.peers.size ∧ peer ∈ set.peers ∧ peer ∉ after.peers
  others : ∀ peer, gone ≠ some peer → peer ≠ seen.candidate.peerId →
    after.heldEntry peer = set.heldEntry peer
  subject : Entry.Isolated seen.candidate.source seen.providerPinned seen.now
    (set.heldEntry seen.candidate.peerId) (after.heldEntry seen.candidate.peerId)

theorem Tidy.store_isolatedBut (tidy : set.Tidy) (stale : Bool) :
    set.IsolatedBut seen (set.store seen stale) none := by
  refine ⟨by simp, fun peer _ other => ?_, tidy.store_isolated stale⟩
  rw [store_heldEntry, if_neg other.symm]

theorem isolatedBut_self (same : after.peers = set.peers) : set.IsolatedBut seen after none := by
  have held (peer : TransportIdentity) : after.heldEntry peer = set.heldEntry peer := by
    rw [heldEntry, heldEntry, same]
  refine ⟨by simp, fun peer _ _ => held peer, ?_⟩
  rw [held]
  exact .refl _ _ _ _

theorem observe_of_room (room : set.peers.size < maxCandidates) :
    set.observe seen = set ∨
      set.observe seen = set.store seen (set.isStale seen.candidate) := by
  have slot : set.secureSlot seen = (set, true) := by
    rw [secureSlot, if_neg fun both => not_le.mpr room both.2]
  rw [observe, slot]
  split
  · exact .inl rfl
  · exact .inr rfl

theorem Sound.replaced_isolatedBut (sound : set.Sound) (held : peer ∈ set.peers)
    (full : maxCandidates ≤ set.peers.size) (new : seen.candidate.peerId ∉ set.peers)
    (stale : Bool) :
    set.IsolatedBut seen ((set.removeEntry peer).countEvicted.store seen stale) (some peer) := by
  have left := sound.tidy.removeEntry peer
  have counted : (set.removeEntry peer).countEvicted.Tidy :=
    ⟨left.entries, left.marks, left.factMarks⟩
  have remaining {other : TransportIdentity} (kept : peer ≠ other) :
      (set.removeEntry peer).countEvicted.heldEntry other = set.heldEntry other := by
    rw [heldEntry, heldEntry, countEvicted, removeEntry_peers, get_erase, if_neg kept]
  have apart : peer ≠ seen.candidate.peerId := by
    rintro rfl
    exact new held
  have stored : IsolatedBut _ seen _ none := counted.store_isolatedBut stale
  refine ⟨?_, fun other kept foreign => ?_, ?_⟩
  · rintro _ ⟨⟩
    refine ⟨full, held, ?_⟩
    rw [notMem_iff_get, store_get, if_neg (Ne.symm apart), countEvicted,
      removeEntry_peers, get_erase, if_pos rfl]
  · rw [stored.others other (by simp) foreign]
    exact remaining fun same => kept (congrArg some same)
  · rw [← remaining apart]
    exact stored.subject

theorem Sound.observe_isolatedBut (sound : set.Sound) (seen : Observation) :
    ∃ gone, set.IsolatedBut seen (set.observe seen) gone := by
  by_cases full : maxCandidates ≤ set.peers.size
  · have exit : ObserveExit set seen (set.applies seen) (set.observe seen) :=
      observe_exit sound.few
    generalize set.observe seen = after at exit ⊢
    generalize set.applies seen = applied at exit
    cases exit with
    | nothing | refused => exact ⟨none, isolatedBut_self rfl⟩
    | stored room => exact ⟨none, sound.tidy.store_isolatedBut _⟩
    | replaced peer chosen new useful =>
      exact ⟨some peer, sound.replaced_isolatedBut chosen.held full new _⟩
  · have ended : set.observe seen = set ∨
        set.observe seen = set.store seen (set.isStale seen.candidate) :=
      observe_of_room (not_le.mp full)
    rcases ended with same | same
    · rw [same]
      exact ⟨none, isolatedBut_self rfl⟩
    · rw [same]
      exact ⟨none, sound.tidy.store_isolatedBut _⟩

theorem retract_heldEntry :
    (set.retract peer source addresses).heldEntry other =
      if peer = other ∧ other ∈ set.peers then
        if ((set.heldEntry other).retracted source addresses).addresses.isEmpty = true then {}
        else (set.heldEntry other).retracted source addresses
      else set.heldEntry other := by
  rw [heldEntry, retract_get]
  by_cases same : peer = other
  · subst same
    cases found : set.peers[peer]? with
    | none =>
      have absent : peer ∉ set.peers := (notMem_iff_get _ _).mpr found
      simp [absent, heldEntry_of_none found]
    | some entry =>
      have present : peer ∈ set.peers := (mem_iff_get _ _).mpr ⟨entry, found⟩
      rw [if_pos rfl, if_pos ⟨rfl, present⟩, heldEntry_of_get found, Option.map_some]
      split
      next none => rw [Option.filter_some_neg (by simp [none]), Option.getD_none]
      next some => rw [Option.filter_some_pos (by simpa using some), Option.getD_some]
  · rw [if_neg same, if_neg fun both => same both.1, heldEntry]

end CandidateSet

namespace Entry

variable {entry : Entry} {now : Nat} {source : String} {addresses : ExtTreeSet String}

theorem mem_retracted (foreign : held.source ≠ source) :
    held ∈ (entry.retracted source addresses).recordsAt address ↔
      held ∈ entry.recordsAt address := by
  change held ∈ (entry.keepRecords _).recordsAt address ↔ _
  rw [keepRecords_recordsAt, List.mem_filter]
  refine and_iff_left ?_
  simp [foreign]

theorem retracted_isolated :
    Isolated source false now entry (entry.retracted source addresses) := by
  refine ⟨fun address other foreign => ?_, fun other protocol supported foreign => ?_,
    fun address other foreign => ?_, fun other protocol supported foreign => ?_⟩
  · rintro ⟨held, ⟨member, live⟩, rfl⟩
    exact ⟨held, ⟨(mem_retracted foreign).mp member, live⟩, rfl⟩
  · rintro ⟨⟨address, held, member, rfl, live⟩, fact, filed, value, lasting⟩
    have onFile := (dropOrphanedFacts_get.mp filed).1
    exact ⟨⟨address, held, (mem_retracted foreign).mp member, rfl, live⟩, fact, onFile, value,
      lasting⟩
  · rintro ⟨held, ⟨member, live⟩, rfl⟩
    exact .inl ⟨held, ⟨(mem_retracted foreign).mpr member, live⟩, rfl⟩
  · rintro ⟨⟨address, held, member, rfl, live⟩, fact, filed, value, lasting⟩
    have kept : held ∈ (entry.retracted source addresses).recordsAt address :=
      (mem_retracted foreign).mpr member
    exact .inl ⟨⟨address, held, kept, rfl, live⟩, fact,
      dropOrphanedFacts_get.mpr ⟨filed, address, held, kept, rfl⟩, value, lasting⟩

end Entry

theorem CandidateSet.retract_isolated (set : CandidateSet) (peer subject : TransportIdentity)
    (source : String) (addresses : ExtTreeSet String) (now : Nat) :
    Entry.Isolated source false now (set.heldEntry subject)
      ((set.retract peer source addresses).heldEntry subject) := by
  rw [retract_heldEntry]
  split
  · split
    next none => exact Entry.retracted_isolated.removed none
    · exact Entry.retracted_isolated
  · exact .refl _ _ _ _

/-- One source's event changes nothing that other sources show, apart from a peer evicted to
make room; a pinned observation may also take, of its own peer, addresses that are not pinned
and facts of sources with nothing pinned there. -/
theorem other_sources_isolated (calls : List Call) (priorityOf : String → Option Int) :
    (∀ peer source addresses now subject other, other ≠ source →
      (∀ address,
        Lists (((reached calls).retract peer source addresses).candidates now priorityOf) subject
            address other ↔
          Lists ((reached calls).candidates now priorityOf) subject address other) ∧
      ∀ protocol supported,
        Shows (((reached calls).retract peer source addresses).candidates now priorityOf) subject
            other protocol supported ↔
          Shows ((reached calls).candidates now priorityOf) subject other protocol supported) ∧
    ∀ seen : Observation,
      let before := (reached calls).candidates seen.now priorityOf
      let after := ((reached calls).observe seen).candidates seen.now priorityOf
      ∃ evicted : Option TransportIdentity,
        (∀ peer, evicted = some peer → maxCandidates ≤ (reached calls).peers.size ∧
          peer ∈ (reached calls).peers ∧ peer ∉ ((reached calls).observe seen).peers) ∧
        ∀ subject, evicted ≠ some subject → ∀ other, other ≠ seen.candidate.source →
          (∀ address, Lists after subject address other → Lists before subject address other) ∧
          (∀ protocol supported, Shows after subject other protocol supported →
            Shows before subject other protocol supported) ∧
          (∀ address, Lists before subject address other →
            Lists after subject address other ∨
              seen.providerPinned = true ∧ subject = seen.candidate.peerId ∧
                ∀ entry, (reached calls).peers[subject]? = some entry →
                  ∀ record ∈ entry.recordsAt address, record.source = other →
                    record.pinned = false) ∧
          ∀ protocol supported, Shows before subject other protocol supported →
            Shows after subject other protocol supported ∨
              seen.providerPinned = true ∧ subject = seen.candidate.peerId ∧
                ∀ entry, ((reached calls).observe seen).peers[subject]? = some entry →
                  entry.isPinnedBy other = false := by
  refine ⟨fun peer source addresses now subject other foreign => ?_, fun seen => ?_⟩
  · have isolated := (reached calls).retract_isolated peer subject source addresses now
    simp only [CandidateSet.lists_iff, CandidateSet.shows_iff_claims]
    refine ⟨fun address => ⟨isolated.vouches address other foreign, fun shown => ?_⟩,
      fun protocol supported => ⟨isolated.claims other protocol supported foreign, fun shown => ?_⟩⟩
    · exact (isolated.unvouched address other foreign shown).resolve_right (by simp)
    · exact (isolated.unclaimed other protocol supported foreign shown).resolve_right (by simp)
  · intro before after
    obtain ⟨evicted, isolated⟩ := (reached_sound calls).observe_isolatedBut seen
    refine ⟨evicted, isolated.crowded, fun subject kept other foreign => ?_⟩
    simp only [before, after, CandidateSet.lists_iff, CandidateSet.shows_iff_claims]
    by_cases here : subject = seen.candidate.peerId
    · subst here
      have subject := isolated.subject
      refine ⟨fun address => subject.vouches address other foreign,
        fun protocol supported => subject.claims other protocol supported foreign,
        fun address shown => ?_, fun protocol supported shown => ?_⟩
      · refine (subject.unvouched address other foreign shown).imp_right fun cost => ?_
        refine ⟨cost.1, rfl, fun entry found => ?_⟩
        rw [CandidateSet.heldEntry_of_get found] at cost
        exact cost.2
      · refine (subject.unclaimed other protocol supported foreign shown).imp_right fun cost => ?_
        refine ⟨cost.1, rfl, fun entry found => ?_⟩
        rw [CandidateSet.heldEntry_of_get found] at cost
        exact cost.2
    · rw [isolated.others subject kept here]
      exact ⟨fun _ => id, fun _ _ => id, fun _ => .inl, fun _ _ => .inl⟩

end InterWeave.Discovery
