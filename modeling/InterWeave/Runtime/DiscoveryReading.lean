import InterWeave.Lib.OrderStat
import InterWeave.Runtime.DiscoveryBounds
import InterWeave.Runtime.DiscoveryShown

/-!
The consumer's reading as a function of what is on file and the clock alone: sweeping first
makes no difference to it.
-/

namespace InterWeave.Discovery

open Std (ExtTreeMap ExtTreeSet)

theorem filterMap_toList_congr {K V W : Type} [LinearOrder K] {first second : ExtTreeMap K V}
    (collect : K → V → Option W)
    (same : ∀ key, first[key]?.bind (collect key) = second[key]?.bind (collect key)) :
    (first.toList.filterMap fun item => collect item.1 item.2) =
      second.toList.filterMap fun item => collect item.1 item.2 := by
  have listing (table : ExtTreeMap K V) :
      (table.toList.filterMap fun item => collect item.1 item.2) =
        (table.filterMap collect).toList.map Prod.snd := by
    rw [ExtTreeMap.toList_filterMap, List.map_filterMap]
    congr 1
    funext item
    cases collect item.1 item.2 <;> rfl
  have equal : first.filterMap collect = second.filterMap collect := by
    apply ExtTreeMap.ext_getElem?
    intro key
    rw [ExtTreeMap.getElem?_filterMap', ExtTreeMap.getElem?_filterMap']
    exact same key
  rw [listing, listing, equal]

theorem newest_congr (same : ∀ time, time ∈ first ↔ time ∈ second) :
    newest first = newest second := by
  apply eq_of_forall_lt_iff
  intro bound
  simp only [newest, OrderStat.lt_foldl_max_iff, same]

namespace Entry

variable {entry : Entry} {now time : Nat} {priorityOf : String → Option Int}

theorem addressProvenance_filter (order : now ≤ time) {address : String}
    {records : List Provenance} :
    addressProvenance time priorityOf address (records.filter (Provenance.isLive now)) =
      addressProvenance time priorityOf address records := by
  have live : (records.filter (Provenance.isLive now)).filter (Provenance.isLive time) =
      records.filter (Provenance.isLive time) := by
    rw [List.filter_filter]
    congr 1
    funext record
    simp only [Provenance.isLive, Bool.and_eq_left_iff_imp, decide_eq_true_eq]
    omega
  simp only [addressProvenance, live]

theorem liveAddresses_swept (order : now ≤ time) :
    (entry.swept now).liveAddresses time priorityOf = entry.liveAddresses time priorityOf := by
  refine filterMap_toList_congr (addressProvenance time priorityOf) fun address => ?_
  have kept : (entry.swept now).addresses[address]? =
      (entry.addresses[address]?.map fun records => records.filter (Provenance.isLive now)).filter
        fun records => !records.isEmpty := by
    change (entry.pruneAddresses now).addresses[address]? = _
    rw [pruneAddresses, keepRecords, ExtTreeMap.getElem?_filter', ExtTreeMap.getElem?_map]
  rw [kept]
  cases entry.addresses[address]? with
  | none => rfl
  | some records =>
    rw [Option.bind_some, Option.map_some, ← addressProvenance_filter order]
    cases left : records.filter (Provenance.isLive now) with
    | nil => rfl
    | cons record rest => rfl

theorem recency_swept (order : now ≤ time) :
    (entry.swept now).recency time = entry.recency time := by
  have live (record : Provenance) :
      record ∈ (entry.swept now).records.filter (Provenance.isLive time) ↔
        record ∈ entry.records.filter (Provenance.isLive time) := by
    simp only [List.mem_filter, mem_records, Provenance.isLive, decide_eq_true_eq]
    refine and_congr_left fun lasting => exists_congr fun address => ?_
    have member : record ∈ (entry.pruneAddresses now).recordsAt address ↔
        record ∈ entry.recordsAt address ∧ now < record.expiresAt := mem_pruneAddresses
    exact member.trans (and_iff_left (order.trans_lt lasting))
  apply newest_congr
  intro stamp
  simp [live]

theorem foldl_mergeFact_filter
    (dropped : ∀ item, keep item = false → item.2.expiresAt ≤ time ∨ item.1.source ∉ sources)
    {items : List (FactKey × Fact)} :
    (items.filter keep).foldl (mergeFact time sources) merged =
      items.foldl (mergeFact time sources) merged := by
  rw [List.foldl_filter]
  congr 1
  funext merged item
  cases kept : keep item with
  | true => rfl
  | false => rw [if_neg Bool.false_ne_true, mergeFact, if_pos (dropped item kept)]

theorem mergedObservations_swept (order : now ≤ time)
    (vouched : ∀ source ∈ sources, entry.Supports time source) :
    (entry.swept now).mergedObservations time sources = entry.mergedObservations time sources := by
  unfold mergedObservations swept dropOrphanedFacts dropLapsedFacts
  rw [ExtTreeMap.toList_filter, ExtTreeMap.toList_filter, foldl_mergeFact_filter,
    foldl_mergeFact_filter]
  · rfl
  · intro item lapsed
    exact .inl ((not_lt.mp (of_decide_eq_false lapsed)).trans order)
  · intro item orphaned
    refine .inr fun listed => ?_
    obtain ⟨address, record, held, same, lasting⟩ := vouched _ listed
    rw [List.any_eq_false] at orphaned
    refine orphaned record ?_ (by simpa using same)
    exact mem_records.mpr ⟨address, mem_pruneAddresses.mpr ⟨held, order.trans_lt lasting⟩⟩

theorem aggregate_swept (order : now ≤ time) :
    (entry.swept now).aggregate time priorityOf peer = entry.aggregate time priorityOf peer := by
  have vouched : ∀ source ∈ ((entry.liveAddresses time priorityOf).flatMap
      AddressProvenance.sources).toFinset, entry.Supports time source := by
    intro source listed
    rw [List.mem_toFinset, List.mem_flatMap] at listed
    exact (mem_liveAddresses_sources time).mp listed
  simp only [aggregate, liveAddresses_swept order, recency_swept order,
    mergedObservations_swept order vouched]

end Entry

theorem CandidateSet.candidates_sweep {set : CandidateSet} (order : now ≤ time) :
    (set.sweep now).candidates time priorityOf = set.candidates time priorityOf := by
  refine filterMap_toList_congr
    (fun peer entry => Entry.aggregate entry time priorityOf peer) fun peer => ?_
  rw [sweep_get]
  cases set.peers[peer]? with
  | none => rfl
  | some entry =>
    rw [Option.bind_some, Option.map_some, ← Entry.aggregate_swept order]
    cases empty : (entry.swept now).addresses.isEmpty with
    | true =>
      have none : (entry.swept now).liveAddresses time priorityOf = [] := by
        rw [Entry.liveAddresses, ExtTreeMap.isEmpty_iff.mp empty]
        rfl
      rw [Option.filter_some_neg (by simp [empty]), Entry.aggregate]
      simp only [none, List.isEmpty_nil, if_true]
      rfl
    | false =>
      rw [Option.filter_some_pos (by simp [empty])]
      rfl

def Entry.Live (entry : Entry) (time : Nat) (address : String) (record : Provenance) : Prop :=
  record ∈ entry.recordsAt address ∧ time < record.expiresAt

structure Entry.ReadsAs (entry : Entry) (time : Nat) (priorityOf : String → Option Int)
    (candidate : AggregatedCandidate) : Prop where
  sources : ∀ address source,
    (∃ item ∈ candidate.addresses, item.address = address ∧ source ∈ item.sources) ↔
      ∃ record, entry.Live time address record ∧ record.source = source
  once : (candidate.addresses.map AddressProvenance.address).Nodup
  best : ∀ item ∈ candidate.addresses,
    IsLeast {priority | ∃ record, entry.Live time item.address record ∧
      (priorityOf record.source).getD i32Max = priority} item.bestPriority
  ordered : candidate.addresses.Pairwise fun first second =>
    toLex (first.bestPriority, first.address) ≤ toLex (second.bestPriority, second.address)
  facts : ∀ protocol source supported,
    (∃ merged ∈ candidate.protocolObservations, merged.protocol = protocol ∧
        merged.supported = supported ∧ source ∈ merged.sources) ↔
      ∃ fact, entry.observations[(⟨protocol, source⟩ : FactKey)]? = some fact ∧
        fact.supported = supported ∧ time < fact.expiresAt ∧
        ∃ item ∈ candidate.addresses, source ∈ item.sources

namespace Entry

variable {entry : Entry} {time : Nat} {priorityOf : String → Option Int}

variable {address : String} {records : List Provenance} {item : AddressProvenance}

theorem mem_liveAddresses :
    item ∈ entry.liveAddresses time priorityOf ↔
      ∃ address records, entry.addresses[address]? = some records ∧
        addressProvenance time priorityOf address records = some item := by
  simp [liveAddresses]

theorem addressProvenance_address
    (shown : addressProvenance time priorityOf address records = some item) :
    item.address = address := by
  simp only [addressProvenance] at shown
  split at shown
  · cases shown
  · cases shown
    rfl

open KeySort

theorem addressProvenance_best
    (shown : addressProvenance time priorityOf address records = some item) :
    IsLeast {priority | ∃ record, (record ∈ records ∧ time < record.expiresAt) ∧
      (priorityOf record.source).getD i32Max = priority} item.bestPriority := by
  simp only [addressProvenance] at shown
  split at shown
  · cases shown
  next some =>
    cases shown
    have sorted := sortByKey_pairwise
      (fun record : Provenance => toLex ((priorityOf record.source).getD i32Max, record.source))
      (records.filter (Provenance.isLive time))
    have listed (record : Provenance) : record ∈ sortByKey (fun record : Provenance =>
        toLex ((priorityOf record.source).getD i32Max, record.source))
          (records.filter (Provenance.isLive time)) ↔
        record ∈ records ∧ time < record.expiresAt := by
      rw [mem_sortByKey, List.mem_filter, Provenance.isLive, decide_eq_true_eq]
    have length := length_sortByKey
      (fun record : Provenance => toLex ((priorityOf record.source).getD i32Max, record.source))
      (records.filter (Provenance.isLive time))
    generalize sortByKey (fun record : Provenance =>
        toLex ((priorityOf record.source).getD i32Max, record.source))
          (records.filter (Provenance.isLive time)) = ranked at sorted listed length ⊢
    cases ranked with
    | nil =>
      rw [List.length_nil, eq_comm, List.length_eq_zero_iff] at length
      simp [length] at some
    | cons first rest =>
      refine ⟨⟨first, (listed first).mp List.mem_cons_self, rfl⟩, ?_⟩
      rintro _ ⟨record, held, rfl⟩
      rcases List.mem_cons.mp ((listed record).mpr held) with rfl | later
      · exact le_rfl
      · have least := (List.pairwise_cons.mp sorted).1 record later
        exact (Prod.Lex.toLex_le_toLex.mp least).elim le_of_lt fun tie => tie.1.le

theorem nodup_liveAddresses :
    ((entry.liveAddresses time priorityOf).map AddressProvenance.address).Nodup := by
  have keys : (entry.addresses.toList.map Prod.fst).Nodup := by
    rw [ExtTreeMap.map_fst_toList_eq_keys]
    exact ExtTreeMap.nodup_keys
  refine keys.sublist ?_
  rw [liveAddresses]
  generalize entry.addresses.toList = items
  induction items with
  | nil => exact List.Sublist.refl _
  | cons item rest ih =>
    rw [List.filterMap_cons]
    split
    · exact ih.cons item.1
    next shown =>
      rw [List.map_cons, List.map_cons, addressProvenance_address shown]
      exact ih.cons_cons item.1

theorem readsAs_of_aggregate (shown : entry.aggregate time priorityOf peer = some candidate) :
    candidate.peerId = peer ∧ entry.ReadsAs time priorityOf candidate := by
  simp only [aggregate] at shown
  split at shown
  · cases shown
  · cases shown
    refine ⟨rfl, fun address source => ?_, ?_, fun item listed => ?_, ?_,
      fun protocol source supported => ?_⟩
    · simp only [mem_sortByKey, mem_liveAddresses, Live, mem_recordsAt]
      constructor
      · rintro ⟨item, ⟨place, records, held, shown⟩, rfl, member⟩
        rw [addressProvenance_address shown]
        obtain ⟨record, inside, same, live⟩ := (addressProvenance_sources shown).mp member
        exact ⟨record, ⟨⟨records, held, inside⟩, live⟩, same⟩
      · rintro ⟨record, ⟨⟨records, held, inside⟩, live⟩, same⟩
        obtain ⟨item, shown⟩ := exists_addressProvenance inside live
        exact ⟨item, ⟨address, records, held, shown⟩, addressProvenance_address shown,
          (addressProvenance_sources shown).mpr ⟨record, inside, same, live⟩⟩
    · exact ((sortByKey_perm _ _).map _).nodup_iff.mpr nodup_liveAddresses
    · rw [mem_sortByKey, mem_liveAddresses] at listed
      obtain ⟨address, records, held, shown⟩ := listed
      have least := addressProvenance_best shown
      rw [addressProvenance_address shown]
      convert least using 3
      simp [Live, mem_recordsAt, held, exists_eq_left']
    · exact sortByKey_pairwise _ _
    · rw [mem_mergedObservations]
      simp [mem_sortByKey]

theorem aggregate_isSome_iff (peer : TransportIdentity) :
    (∃ candidate, entry.aggregate time priorityOf peer = some candidate) ↔
      ∃ address record, entry.Live time address record := by
  constructor
  · rintro ⟨candidate, shown⟩
    have reads := (readsAs_of_aggregate shown).2
    simp only [aggregate] at shown
    split at shown
    · cases shown
    next some =>
      cases shown
      obtain ⟨item, listed⟩ := List.exists_mem_of_ne_nil (entry.liveAddresses time priorityOf)
        fun none => some (by rw [none, List.isEmpty_nil])
      obtain ⟨record, live, -⟩ := (reads.best item ((mem_sortByKey _ _).mpr listed)).1
      exact ⟨item.address, record, live⟩
  · rintro ⟨address, record, held, live⟩
    obtain ⟨records, found, inside⟩ := mem_recordsAt.mp held
    obtain ⟨item, shown⟩ := exists_addressProvenance inside live
    have some : (entry.liveAddresses time priorityOf).isEmpty = false := by
      rw [List.isEmpty_eq_false_iff_exists_mem]
      exact ⟨item, mem_liveAddresses.mpr ⟨address, records, found, shown⟩⟩
    obtain ⟨candidate, aggregated, -⟩ := exists_aggregate some
    exact ⟨candidate, aggregated⟩

theorem addressProvenance_nodup (single : (records.map Provenance.source).Nodup)
    (shown : addressProvenance time priorityOf address records = some item) :
    item.sources.Nodup := by
  simp only [addressProvenance] at shown
  split at shown
  · cases shown
  · cases shown
    refine ((sortByKey_perm _ _).map _).nodup_iff.mpr ?_
    exact single.sublist (List.filter_sublist.map _)

theorem Shaped.sources_nodup (shaped : entry.Shaped)
    (shown : entry.aggregate time priorityOf peer = some candidate) :
    ∀ item ∈ candidate.addresses, item.sources.Nodup := by
  simp only [aggregate] at shown
  split at shown
  · cases shown
  · cases shown
    intro item listed
    rw [mem_sortByKey, mem_liveAddresses] at listed
    obtain ⟨address, records, held, shown⟩ := listed
    exact addressProvenance_nodup (shaped.housed.kept address records held).single shown

end Entry

theorem CandidateSet.mem_candidates {set : CandidateSet} :
    candidate ∈ set.candidates time priorityOf ↔
      ∃ (peer : TransportIdentity) (entry : Entry), set.peers[peer]? = some entry ∧
        entry.aggregate time priorityOf peer = some candidate := by
  simp [candidates]

theorem DiscoveryManager.onEvent_rejected {manager : DiscoveryManager}
    (refused : (manager.onEvent source event now trust).2 = .error rejected) :
    (manager.onEvent source event now trust).1 = manager := by
  simp only [onEvent] at refused ⊢
  cases found : manager.providers[source]? with
  | none => rfl
  | some registered =>
    simp only [found] at refused ⊢
    cases event with
    | candidateObserved candidate =>
      by_cases mismatch : candidate.source ≠ source
      · simp only [if_pos mismatch]
      · simp only [if_neg mismatch] at refused ⊢
        cases valid : candidate.validate with
        | error error => rfl
        | ok _ =>
          rw [valid] at refused
          cases refused
    | candidateExpired _ eventSource | healthChanged eventSource =>
      by_cases mismatch : eventSource ≠ source
      · simp only [if_pos mismatch]
      · simp only [if_neg mismatch] at refused
        cases refused

open CandidateSet

/-- The reading is what the clock and the records say, whether or not anything was swept, and
an event that was turned away leaves no trace. -/
theorem reading_ignores_sweeping (calls : List ManagerCall) {now time : Nat} (order : now ≤ time) :
    let manager := (managedBy calls).manager
    (∀ peer, (∃ candidate ∈ manager.merged time, candidate.peerId = peer) ↔
      ∃ entry, manager.candidates.peers[peer]? = some entry ∧
        ∃ address record, entry.Live time address record) ∧
    (∀ candidate ∈ manager.merged time, ∃ entry,
      manager.candidates.peers[candidate.peerId]? = some entry ∧
        entry.ReadsAs time manager.priorityOf candidate ∧
        ∀ item ∈ candidate.addresses, item.sources.Nodup) ∧
    (manager.sweep now).merged time = manager.merged time ∧
    ∀ source event moment trust rejected,
      (manager.onEvent source event moment trust).2 = .error rejected →
        (manager.onEvent source event moment trust).1 = manager := by
  intro manager
  have shown {candidate : AggregatedCandidate} (listed : candidate ∈ manager.merged time) :
      ∃ entry, manager.candidates.peers[candidate.peerId]? = some entry ∧
        entry.aggregate time manager.priorityOf candidate.peerId = some candidate := by
    obtain ⟨peer, entry, found, aggregated⟩ := mem_candidates.mp listed
    obtain ⟨rfl, -⟩ := Entry.readsAs_of_aggregate aggregated
    exact ⟨entry, found, aggregated⟩
  refine ⟨fun peer => ⟨?_, ?_⟩, fun candidate listed => ?_, ?_,
    fun _ _ _ _ _ refused => DiscoveryManager.onEvent_rejected refused⟩
  · rintro ⟨candidate, listed, rfl⟩
    obtain ⟨entry, found, aggregated⟩ := shown listed
    exact ⟨entry, found, (Entry.aggregate_isSome_iff _).mp ⟨candidate, aggregated⟩⟩
  · rintro ⟨entry, found, live⟩
    obtain ⟨candidate, aggregated⟩ :
        ∃ candidate, entry.aggregate time manager.priorityOf peer = some candidate :=
      (Entry.aggregate_isSome_iff peer).mpr live
    exact ⟨candidate, mem_candidates.mpr ⟨peer, entry, found, aggregated⟩,
      (Entry.readsAs_of_aggregate aggregated).1⟩
  · obtain ⟨entry, found, aggregated⟩ := shown listed
    have sound := reached_sound (managedBy calls).trace
    rw [← managedBy_candidates] at sound
    exact ⟨entry, found, (Entry.readsAs_of_aggregate aggregated).2,
      (sound.tidy.entries _ entry found).sources_nodup aggregated⟩
  · exact candidates_sweep order

/-- One source names a capability for a while, another the address for longer. -/
def lapsing : List ManagerCall :=
  [.register peerCache 0, .register { peerCache with name := "static" } 0,
    observed { snapshot 8 (some 5) with expiresAt := some 20 } 8 .default,
    observed { snapshot 8 none with source := "static" } 8 .default]

/-- The sweep takes out a lapsed record and the fact it leaves behind; the reading is the same. -/
theorem reading_ignores_sweeping_sample :
    let manager := (managedBy lapsing).manager
    (manager.candidates.recordsAt (.numbered 0) "/ip4/10.0.0.1/tcp/1").length = 2 ∧
      ((manager.sweep 30).candidates.recordsAt (.numbered 0) "/ip4/10.0.0.1/tcp/1").length = 1 ∧
      (manager.candidates.factAt (.numbered 0) ⟨kademlia, "peer-cache"⟩).isSome = true ∧
      (manager.sweep 30).candidates.factAt (.numbered 0) ⟨kademlia, "peer-cache"⟩ = none ∧
      (manager.merged 40).length = 1 ∧ (manager.sweep 30).merged 40 = manager.merged 40 :=
  ⟨by decide +kernel, by decide +kernel, by decide +kernel, by decide +kernel, by decide +kernel,
    (reading_ignores_sweeping lapsing (by decide)).2.2.1⟩

end InterWeave.Discovery
