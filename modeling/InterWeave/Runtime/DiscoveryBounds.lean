import InterWeave.Runtime.DiscoverySet

/-!
The shape every operation leaves a candidate set in: each nested table within its bound, no
address without a record and no peer without an address.
-/

namespace InterWeave.Discovery

open Std (ExtTreeMap ExtTreeSet)
open Watermark (Picks raise size_raise_le)
open OrderedMap Extremum

variable {addresses : AddressMap}

theorem oldestMark_picks {K : Type} [LinearOrder K] : Picks (oldestMark (K := K)) := by
  intro table some
  unfold oldestMark
  cases least : minByKey Prod.snd table.toList with
  | none =>
    have none := congrArg List.length (minByKey_eq_none.mp least)
    rw [ExtTreeMap.length_toList, List.length_nil] at none
    omega
  | some item =>
    have listed := minByKey_mem least
    refine ⟨item.1, (mem_iff_get _ _).mpr ⟨item.2, ?_⟩, rfl⟩
    exact ExtTreeMap.mem_toList_iff_getElem?_eq_some.mp listed

theorem redundantOrOldest_picks {K : Type} [LinearOrder K] {redundant : K → Nat → Bool} :
    Picks (redundantOrOldest redundant) := by
  intro table some
  unfold redundantOrOldest
  cases first : table.toList.find? fun item => redundant item.1 item.2 with
  | none => exact oldestMark_picks table some
  | some item =>
    have listed := List.mem_of_find?_eq_some first
    refine ⟨item.1, (mem_iff_get _ _).mpr ⟨item.2, ?_⟩, rfl⟩
    exact ExtTreeMap.mem_toList_iff_getElem?_eq_some.mp listed

section

variable {record : Provenance} {records placed : List Provenance}

theorem refresh_sources (known : refresh record records = some placed) :
    placed.map Provenance.source = records.map Provenance.source := by
  induction records generalizing placed with
  | nil => cases known
  | cons first rest ih =>
    rw [refresh] at known
    split at known
    · split at known
      · obtain rfl := Option.some.inj known
        rfl
      · obtain rfl := Option.some.inj known
        rfl
    · obtain ⟨after, moved, rfl⟩ := Option.map_eq_some_iff.mp known
      rw [List.map_cons, List.map_cons, ih moved]

structure WellKept (records : List Provenance) : Prop where
  some : records ≠ []
  few : records.length ≤ maxProvenancePerAddress
  single : (records.map Provenance.source).Nodup

theorem WellKept.filter (kept : WellKept records) (left : records.filter keep ≠ []) :
    WellKept (records.filter keep) := by
  refine ⟨left, (List.length_filter_le _ _).trans kept.few, ?_⟩
  exact kept.single.sublist (List.filter_sublist.map _)

theorem nodup_sources_append (single : (records.map Provenance.source).Nodup)
    (new : ∀ held ∈ records, held.source ≠ record.source) :
    ((records ++ [record]).map Provenance.source).Nodup := by
  rw [List.map_append, List.map_singleton, List.nodup_append]
  refine ⟨single, List.nodup_singleton _, ?_⟩
  intro source listed other same
  obtain ⟨held, member, rfl⟩ := List.mem_map.mp listed
  rw [List.mem_singleton.mp same]
  exact new held member

theorem Placement.wellKept (placement : Placement record records placed)
    (few : records.length ≤ maxProvenancePerAddress)
    (single : (records.map Provenance.source).Nodup) : WellKept placed := by
  cases placement with
  | refreshed known =>
    have sources := refresh_sources known
    have length := congrArg List.length sources
    rw [List.length_map, List.length_map] at length
    refine ⟨?_, length ▸ few, sources ▸ single⟩
    rintro rfl
    rw [List.length_nil, eq_comm, List.length_eq_zero_iff] at length
    subst length
    cases known
  | full crowded =>
    refine ⟨?_, few, single⟩
    rintro rfl
    simp [maxProvenancePerAddress] at crowded
  | swapped pinned new found unpinned =>
    obtain ⟨inside, -⟩ := List.getElem?_eq_some_iff.mp found
    refine ⟨by simp, ?_, ?_⟩
    · rw [List.length_append, List.length_eraseIdx_of_lt inside, List.length_singleton]
      omega
    · refine nodup_sources_append (single.sublist ((List.eraseIdx_sublist _ _).map _)) ?_
      exact fun held member => new held (List.mem_of_mem_eraseIdx member)
  | appended new room =>
    refine ⟨by simp, ?_, nodup_sources_append single new⟩
    rw [List.length_append, List.length_singleton]
    exact room

end

structure Housed (addresses : AddressMap) : Prop where
  few : addresses.size ≤ maxAddressesPerPeer
  kept : ∀ (address : String) records, addresses[address]? = some records → WellKept records

theorem housed_empty : Housed ∅ := by
  refine ⟨?_, fun address records found => ?_⟩
  · rw [ExtTreeMap.size_empty]
    exact Nat.zero_le _
  · simp at found

theorem wellKept_singleton : WellKept [record] :=
  ⟨by simp, by simp [maxProvenancePerAddress], by simp⟩

theorem Housed.insert (housed : Housed addresses) (kept : WellKept records)
    (room : address ∈ addresses ∨ addresses.size < maxAddressesPerPeer) :
    Housed (addresses.insert address records) := by
  refine ⟨?_, fun other held found => ?_⟩
  · rw [ExtTreeMap.size_insert]
    split
    · exact housed.few
    next fresh =>
      rcases room with held | short
      · exact absurd held fresh
      · exact short
  · rw [get_insert] at found
    split at found
    · obtain rfl := Option.some.inj found
      exact kept
    · exact housed.kept other held found

theorem Housed.erase (housed : Housed addresses) (address : String) :
    Housed (addresses.erase address) := by
  refine ⟨ExtTreeMap.size_erase_le.trans housed.few, fun other held found => ?_⟩
  rw [get_erase] at found
  split at found
  · cases found
  · exact housed.kept other held found

theorem Housed.records_of_get (housed : Housed addresses) (address : String) :
    (addresses[address]?.getD []).length ≤ maxProvenancePerAddress ∧
      ((addresses[address]?.getD []).map Provenance.source).Nodup := by
  cases found : addresses[address]? with
  | none => simp
  | some records => exact ⟨(housed.kept address records found).few,
      (housed.kept address records found).single⟩

theorem AddressExit.housed {record : Provenance} {after : AddressMap} {address : String}
    (exit : AddressExit record addresses address after) (housed : Housed addresses) :
    Housed after := by
  cases exit with
  | refused full => exact housed
  | placed room placement =>
    obtain ⟨few, single⟩ := housed.records_of_get address
    exact housed.insert (placement.wellKept few single) room
  | displaced pinned new found unpinned =>
    have held := (mem_iff_get _ _).mpr ⟨_, found⟩
    refine (housed.erase _).insert wellKept_singleton (.inr ?_)
    exact (size_erase_lt held).trans_le housed.few

theorem Housed.filter (housed : Housed addresses) (keep : String → Provenance → Bool) :
    Housed ((addresses.map fun address records => records.filter (keep address)).filter
      fun _ records => !records.isEmpty) := by
  refine ⟨?_, fun address records found => ?_⟩
  · refine (ExtTreeMap.size_filter_le_size).trans ?_
    rw [ExtTreeMap.size_map]
    exact housed.few
  · rw [ExtTreeMap.getElem?_filter', Option.filter_eq_some_iff, ExtTreeMap.getElem?_map] at found
    obtain ⟨mapped, left⟩ := found
    obtain ⟨old, held, rfl⟩ := Option.map_eq_some_iff.mp mapped
    exact (housed.kept address old held).filter (by simpa using left)

structure Entry.Shaped (entry : Entry) : Prop where
  housed : Housed entry.addresses
  facts : entry.observations.size ≤ maxObservationsPerPeer
  floors : entry.factApplied.size ≤ 2 * maxObservationsPerPeer

namespace Entry

variable {entry : Entry} {candidate : CandidatePeer} {record : Provenance} {now : Nat}
  {stale : Bool} {spilled : ProtocolId → Nat}

theorem shaped_empty : Shaped {} := by
  refine ⟨housed_empty, ?_, ?_⟩
  · rw [ExtTreeMap.size_empty]
    exact Nat.zero_le _
  · rw [ExtTreeMap.size_empty]
    exact Nat.zero_le _

theorem Shaped.keepRecords (shaped : entry.Shaped) (keep : String → Provenance → Bool) :
    (entry.keepRecords keep).Shaped :=
  ⟨shaped.housed.filter keep, shaped.facts, shaped.floors⟩

theorem Shaped.fewerFacts (shaped : entry.Shaped) (keep : FactKey → Fact → Bool) :
    Shaped { entry with observations := entry.observations.filter keep } :=
  ⟨shaped.housed, ExtTreeMap.size_filter_le_size.trans shaped.facts, shaped.floors⟩

theorem Shaped.noteApplied (shaped : entry.Shaped) (source : String) (observedAt : Nat) :
    (entry.noteApplied source observedAt).Shaped :=
  ⟨shaped.housed, shaped.facts, shaped.floors⟩

theorem Shaped.retracted (shaped : entry.Shaped) (source : String)
    (addresses : ExtTreeSet String) : (entry.retracted source addresses).Shaped :=
  (shaped.keepRecords _).fewerFacts _

theorem Shaped.swept (shaped : entry.Shaped) (now : Nat) : (entry.swept now).Shaped :=
  ((shaped.keepRecords _).fewerFacts _).fewerFacts _

theorem Shaped.placeAddress {slots : Slots} (shaped : slots.entry.Shaped) (record : Provenance)
    (address : String) : (slots.placeAddress record address).entry.Shaped := by
  obtain ⟨after, exit, same⟩ := placeAddress_exit record slots address
  rw [same]
  exact ⟨exit.housed shaped.housed, shaped.facts, shaped.floors⟩

theorem Shaped.asserted (shaped : entry.Shaped) (fact : Fact)
    (room : key ∈ entry.observations ∨ entry.observations.size < maxObservationsPerPeer) :
    (entry.asserted key fact).Shaped := by
  refine ⟨shaped.housed, ?_, ?_⟩
  · change (entry.observations.insert key fact).size ≤ maxObservationsPerPeer
    rw [ExtTreeMap.size_insert]
    split
    · exact shaped.facts
    next fresh =>
      rcases room with held | short
      · exact absurd held fresh
      · exact short
  · exact size_raise_le redundantOrOldest_picks (by decide) shaped.floors

theorem Shaped.withoutFact (shaped : entry.Shaped) (key : FactKey) :
    (entry.withoutFact key).Shaped :=
  ⟨shaped.housed, ExtTreeMap.size_erase_le.trans shaped.facts, shaped.floors⟩

theorem Shaped.placeFact {slots : Slots} (shaped : slots.entry.Shaped) (record : Provenance)
    (spilled : ProtocolId → Nat) (observation : ProtocolObservation) :
    (slots.placeFact record spilled observation).entry.Shaped := by
  have exit := placeFact_exit record spilled slots observation
  generalize (slots.placeFact record spilled observation).entry = after at exit ⊢
  cases exit with
  | kept => exact shaped
  | filed room => exact shaped.asserted _ room
  | displaced pinned own found unpinned =>
    refine (shaped.withoutFact _).asserted _ (.inr ?_)
    exact (size_erase_lt found).trans_le shaped.facts

theorem Shaped.take (shaped : entry.Shaped) :
    (entry.take candidate record now stale spilled).entry.Shaped := by
  have housed : (entry.takeAddresses candidate record now stale).entry.Shaped := by
    unfold takeAddresses
    cases stale with
    | true => exact shaped.keepRecords _
    | false =>
      refine List.foldlRecOn _ _
        (motive := fun slots : Slots => slots.entry.Shaped) ?_ ?_
      · exact (shaped.noteApplied _ _).keepRecords _
      · exact fun _ kept address _ => kept.placeAddress record address
  unfold Entry.take takeFacts
  refine List.foldlRecOn _ _ (motive := fun slots : Slots => slots.entry.Shaped) ?_ ?_
  · cases stale with
    | true => exact (housed.fewerFacts _).fewerFacts _
    | false => exact ((housed.fewerFacts _).fewerFacts _).fewerFacts _
  · exact fun _ kept observation _ => kept.placeFact record spilled observation

end Entry

namespace CandidateSet

variable {set : CandidateSet} {seen : Observation} {stale : Bool} {peer : TransportIdentity}
  {now : Nat}

structure Tidy (set : CandidateSet) : Prop where
  entries : ∀ (peer : TransportIdentity) entry, set.peers[peer]? = some entry → entry.Shaped
  marks : set.highWater.size ≤ maxHighWater
  factMarks : set.factHighWater.size ≤ maxHighWater

def Addressed (set : CandidateSet) : Prop :=
  ∀ (peer : TransportIdentity) entry, set.peers[peer]? = some entry →
    entry.addresses.isEmpty = false

theorem spill_size_le {peers : PeerMap} {peer : TransportIdentity}
    (bounded : table.size ≤ maxHighWater) : (spill peers peer marks table).size ≤ maxHighWater := by
  refine List.foldlRecOn marks _
    (motive := fun table : ExtTreeMap PairKey Nat => table.size ≤ maxHighWater) bounded ?_
  exact fun _ kept _ _ => size_raise_le redundantOrOldest_picks (by decide) kept

theorem spillFacts_size_le {peers : PeerMap} {peer : TransportIdentity}
    (bounded : table.size ≤ maxHighWater) :
    (spillFacts peers peer marks table).size ≤ maxHighWater := by
  refine List.foldlRecOn marks _
    (motive := fun table : ExtTreeMap TripleKey Nat => table.size ≤ maxHighWater) bounded ?_
  exact fun _ kept _ _ => size_raise_le redundantOrOldest_picks (by decide) kept

theorem Tidy.removeEntry (tidy : set.Tidy) (peer : TransportIdentity) :
    (set.removeEntry peer).Tidy := by
  cases found : set.peers[peer]? with
  | none =>
    rw [removeEntry_of_none found]
    exact tidy
  | some entry =>
    rw [removeEntry_of_get found]
    refine ⟨fun other kept present => ?_, spill_size_le tidy.marks,
      spillFacts_size_le tidy.factMarks⟩
    rw [get_erase] at present
    split at present
    · cases present
    · exact tidy.entries other kept present

theorem Addressed.removeEntry (addressed : set.Addressed) (peer : TransportIdentity) :
    (set.removeEntry peer).Addressed := by
  intro other kept present
  rw [removeEntry_peers, get_erase] at present
  split at present
  · cases present
  · exact addressed other kept present

theorem Tidy.withEntry (tidy : set.Tidy) (shaped : entry.Shaped) (peer : TransportIdentity) :
    (set.withEntry peer entry).Tidy := by
  refine ⟨fun other kept present => ?_, tidy.marks, tidy.factMarks⟩
  rw [CandidateSet.withEntry, get_insert] at present
  split at present
  · obtain rfl := Option.some.inj present
    exact shaped
  · exact tidy.entries other kept present

theorem Tidy.taken (tidy : set.Tidy) (seen : Observation) (stale : Bool) :
    (set.taken seen stale).entry.Shaped := by
  unfold CandidateSet.taken
  cases found : set.peers[seen.candidate.peerId]? with
  | none => exact Entry.shaped_empty.take
  | some entry => exact (tidy.entries _ entry found).take

theorem Tidy.store (tidy : set.Tidy) : (set.store seen stale).Tidy := by
  have stored : (set.stored seen stale).Tidy := by
    have held := tidy.withEntry (tidy.taken seen stale) seen.candidate.peerId
    exact ⟨held.entries, held.marks, held.factMarks⟩
  rw [store_eq]
  split
  · exact stored.removeEntry _
  · exact stored

theorem Addressed.store (addressed : set.Addressed) : (set.store seen stale).Addressed := by
  intro other kept present
  rw [store_get] at present
  split at present
  · split at present
    · cases present
    next some =>
      obtain rfl := Option.some.inj present
      simpa using some
  · exact addressed other kept present

theorem retract_get {addresses : ExtTreeSet String} :
    (set.retract peer source addresses).peers[other]? =
      if peer = other then
        (set.peers[other]?.map fun entry => entry.retracted source addresses).filter
          fun entry => !entry.addresses.isEmpty
      else set.peers[other]? := by
  cases found : set.peers[peer]? with
  | none =>
    have unchanged : set.retract peer source addresses = set := by rw [retract, found]
    rw [unchanged]
    by_cases same : peer = other
    · subst same
      rw [if_pos rfl, found]
      rfl
    · rw [if_neg same]
  | some entry =>
    rw [retract_eq found]
    by_cases same : peer = other
    · subst same
      rw [if_pos rfl, found, Option.map_some]
      split
      next none =>
        rw [removeEntry_peers, get_erase, if_pos rfl, Option.filter_some_neg]
        simp [none]
      next some =>
        rw [withEntry, get_insert, if_pos rfl, Option.filter_some_pos]
        simpa using some
    · rw [if_neg same]
      split
      · rw [removeEntry_peers, get_erase, if_neg same, withEntry,
          get_insert, if_neg same]
      · rw [withEntry, get_insert, if_neg same]

theorem Tidy.retract (tidy : set.Tidy) (peer : TransportIdentity) (source : String)
    (addresses : ExtTreeSet String) : (set.retract peer source addresses).Tidy := by
  cases found : set.peers[peer]? with
  | none =>
    rw [CandidateSet.retract, found]
    exact tidy
  | some entry =>
    have stored := tidy.withEntry ((tidy.entries peer entry found).retracted source addresses)
      peer
    rw [retract_eq found]
    split
    · exact stored.removeEntry _
    · exact stored

theorem Addressed.retract (addressed : set.Addressed) (peer : TransportIdentity) (source : String)
    (addresses : ExtTreeSet String) : (set.retract peer source addresses).Addressed := by
  intro other kept present
  rw [retract_get] at present
  split at present
  · simpa using (Option.filter_eq_some_iff.mp present).2
  · exact addressed other kept present

theorem Tidy.sweep (tidy : set.Tidy) (now : Nat) : (set.sweep now).Tidy := by
  rw [sweep_eq]
  refine List.foldlRecOn _ _ (motive := Tidy) ?_ fun _ kept peer _ => kept.removeEntry peer
  refine ⟨fun other kept present => ?_, tidy.marks, tidy.factMarks⟩
  rw [swept, ExtTreeMap.getElem?_map] at present
  obtain ⟨old, held, rfl⟩ := Option.map_eq_some_iff.mp present
  exact (tidy.entries other old held).swept now

theorem sweep_get {other : TransportIdentity} : (set.sweep now).peers[other]? =
    (set.peers[other]?.map (Entry.swept now)).filter fun entry => !entry.addresses.isEmpty := by
  have held : (set.swept now).peers[other]? = set.peers[other]?.map (Entry.swept now) := by
    rw [swept, ExtTreeMap.getElem?_map]
  rw [sweep_eq, foldl_removeEntry_get, held]
  simp only [mem_keysWhere, held]
  cases set.peers[other]? with
  | none => simp
  | some entry =>
    cases empty : (entry.swept now).addresses.isEmpty with
    | true =>
      rw [Option.map_some, if_pos ⟨_, rfl, empty⟩, Option.filter_some_neg]
      rw [empty]
      decide
    | false =>
      rw [Option.map_some, if_neg, Option.filter_some_pos]
      · rw [empty]
        rfl
      · rintro ⟨_, same, none⟩
        obtain rfl := Option.some.inj same
        rw [empty] at none
        cases none

theorem addressed_sweep : (set.sweep now).Addressed := by
  intro other kept present
  rw [sweep_get] at present
  simpa using (Option.filter_eq_some_iff.mp present).2

structure Sound (set : CandidateSet) : Prop where
  few : set.peers.size ≤ maxCandidates
  tidy : set.Tidy
  addressed : set.Addressed

theorem Sound.observe (sound : set.Sound) : (set.observe seen).Sound := by
  have exit : ObserveExit set seen (set.applies seen) (set.observe seen) := observe_exit sound.few
  have few : (set.observe seen).peers.size ≤ maxCandidates := observe_size_le sound.few
  generalize set.observe seen = after at exit few ⊢
  generalize set.applies seen = applied at exit
  cases exit with
  | nothing why new => exact sound
  | refused new full unmoved =>
    exact ⟨few, ⟨sound.tidy.entries, sound.tidy.marks, sound.tidy.factMarks⟩, sound.addressed⟩
  | stored room => exact ⟨few, sound.tidy.store, sound.addressed.store⟩
  | replaced peer chosen new useful =>
    have left := sound.tidy.removeEntry peer
    have counted : (set.removeEntry peer).countEvicted.Tidy :=
      ⟨left.entries, left.marks, left.factMarks⟩
    have peopled : (set.removeEntry peer).countEvicted.Addressed :=
      sound.addressed.removeEntry peer
    exact ⟨few, counted.store, peopled.store⟩

theorem Sound.perform (sound : set.Sound) (call : Call) : (set.perform call).Sound := by
  cases call with
  | observe seen => exact sound.observe
  | retract peer source addresses =>
    exact ⟨retract_size_le.trans sound.few, sound.tidy.retract peer source addresses,
      sound.addressed.retract peer source addresses⟩
  | sweep now => exact ⟨sweep_size_le.trans sound.few, sound.tidy.sweep now, addressed_sweep⟩
  | evict now trust incoming pinned =>
    rw [CandidateSet.perform]
    rcases evictOne_exit set now trust incoming pinned with ⟨peer, -, left⟩ | ⟨-, kept⟩
    · have few : (set.removeEntry peer).peers.size ≤ maxCandidates := by
        rw [removeEntry_peers]
        exact ExtTreeMap.size_erase_le.trans sound.few
      rw [left]
      exact ⟨few, sound.tidy.removeEntry peer, sound.addressed.removeEntry peer⟩
    · rw [kept]
      exact sound

theorem sound_new : new.Sound := by
  have absent (peer : TransportIdentity) (entry : Entry) :
      new.peers[peer]? ≠ some entry := by simp [new]
  refine ⟨Nat.zero_le _, ⟨fun peer entry found => absurd found (absent peer entry),
    Nat.zero_le _, Nat.zero_le _⟩, fun peer entry found => absurd found (absent peer entry)⟩

end CandidateSet

theorem reached_sound (calls : List Call) : (reached calls).Sound :=
  List.foldlRecOn calls CandidateSet.perform (motive := CandidateSet.Sound) CandidateSet.sound_new
    fun _ sound call _ => sound.perform call

/-- Whatever the calls, every level of the book is within its bound, and no held peer is
without an address or held address without a record. -/
theorem discovery_book_bounded (calls : List Call) :
    (reached calls).peers.size ≤ maxCandidates ∧
      (reached calls).highWater.size ≤ maxHighWater ∧
      (reached calls).factHighWater.size ≤ maxHighWater ∧
      ∀ (peer : TransportIdentity) entry, (reached calls).peers[peer]? = some entry →
        0 < entry.addresses.size ∧ entry.addresses.size ≤ maxAddressesPerPeer ∧
        entry.observations.size ≤ maxObservationsPerPeer ∧
        entry.factApplied.size ≤ 2 * maxObservationsPerPeer ∧
        ∀ (address : String) records, entry.addresses[address]? = some records →
          records ≠ [] ∧ records.length ≤ maxProvenancePerAddress ∧
            (records.map Provenance.source).Nodup := by
  have sound := reached_sound calls
  refine ⟨sound.few, sound.tidy.marks, sound.tidy.factMarks, fun peer entry found => ?_⟩
  have shaped := sound.tidy.entries peer entry found
  refine ⟨?_, shaped.housed.few, shaped.facts, shaped.floors, fun address records held => ?_⟩
  · obtain ⟨address, held⟩ :=
      (isEmpty_eq_false_iff_exists _).mp (sound.addressed peer entry found)
    exact (Nat.zero_le _).trans_lt (size_erase_lt held)
  · have kept := shaped.housed.kept address records held
    exact ⟨kept.some, kept.few, kept.single⟩

end InterWeave.Discovery
