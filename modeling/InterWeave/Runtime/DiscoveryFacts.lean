import InterWeave.Runtime.DiscoveryMarks

/-!
Protocol facts have floors of their own. While a peer's events name no more facts than its
entry has slots for, every fact lands in a slot or falls below its floor, and the floors
stand for all the evidence that was carried by applied observations.
-/

namespace InterWeave.Discovery

open Std (ExtTreeMap ExtTreeSet)
open Watermark (mark lift Within)
open OrderedMap

variable (calls : List Call)

namespace Entry

variable {entry : Entry}

def Covered (entry : Entry) : Prop :=
  ∀ (key : FactKey) fact, entry.observations[key]? = some fact →
    key ∈ entry.factApplied ∧ fact.observedAt ≤ mark entry.factApplied key

theorem covered_empty : ({} : Entry).Covered := by
  intro key fact found
  simp at found

theorem Covered.of_subset {other : Entry} (covered : entry.Covered)
    (floors : other.factApplied = entry.factApplied)
    (subset : ∀ (key : FactKey) fact, other.observations[key]? = some fact →
      entry.observations[key]? = some fact) : other.Covered := by
  intro key fact found
  rw [floors]
  exact covered key fact (subset key fact found)

theorem Covered.heldAt_le (covered : entry.Covered) (key : FactKey) :
    entry.heldAt key ≤ mark entry.factApplied key := by
  rw [heldAt]
  split
  next fact found => exact (covered key fact found).2
  · exact Nat.zero_le _

theorem Covered.factFloor_eq (covered : entry.Covered) (spilled : ProtocolId → Nat)
    (key : FactKey) :
    entry.factFloor spilled key = max (mark entry.factApplied key) (spilled key.protocol) := by
  rw [factFloor, max_eq_left]
  exact (covered.heldAt_le key).trans (le_max_left _ _)

structure Roomy (entry : Entry) (names : Finset FactKey) : Prop where
  covered : entry.Covered
  within : Within entry.factApplied names
  fits : names.card ≤ maxObservationsPerPeer

theorem Roomy.room (roomy : entry.Roomy names) (named : key ∈ names) :
    key ∈ entry.observations ∨ entry.observations.size < maxObservationsPerPeer := by
  by_cases held : key ∈ entry.observations
  · exact .inl held
  · refine .inr (lt_of_lt_of_le ?_ roomy.fits)
    have fewer : entry.observations.keys.toFinset ⊆ names.erase key := by
      intro other member
      have present := ExtTreeMap.mem_keys.mp (List.mem_toFinset.mp member)
      obtain ⟨fact, found⟩ := (mem_iff_get _ _).mp present
      refine Finset.mem_erase.mpr ⟨?_, roomy.within _ (roomy.covered other fact found).1⟩
      rintro rfl
      exact held present
    have bounded := Finset.card_le_card fewer
    rw [List.toFinset_card_of_nodup ExtTreeMap.nodup_keys, ExtTreeMap.length_keys,
      Finset.card_erase_of_mem named] at bounded
    have positive := Finset.card_pos.mpr ⟨key, named⟩
    omega

end Entry

namespace Slots

variable {record : Provenance} {spilled : ProtocolId → Nat} {slots : Slots}
  {observation : ProtocolObservation} {names : Finset FactKey}

theorem placeFact_of_room (roomy : slots.entry.Roomy names)
    (named : (⟨observation.protocolId, record.source⟩ : FactKey) ∈ names) :
    slots.placeFact record spilled observation =
      if observation.observedAt <
          max (mark slots.entry.factApplied ⟨observation.protocolId, record.source⟩)
            (spilled observation.protocolId) then slots
      else
        { slots with entry := { slots.entry with
          observations := slots.entry.observations.insert ⟨observation.protocolId, record.source⟩
            ⟨observation.supported, observation.observedAt, record.expiresAt⟩
          factApplied := lift slots.entry.factApplied ⟨observation.protocolId, record.source⟩
            observation.observedAt } } := by
  have wide : names.card ≤ 2 * maxObservationsPerPeer := by
    have := roomy.fits
    omega
  simp only [placeFact, roomy.covered.factFloor_eq, freeFact_of_room (roomy.room named),
    assertFact, Entry.noteFact, Watermark.raise_eq_lift roomy.within named wide]

structure Lands (record : Provenance) (spilled : ProtocolId → Nat) (before after : Entry)
    (names : Finset FactKey) (carried : List ProtocolObservation) : Prop where
  roomy : after.Roomy names
  rises : ∀ key, mark before.factApplied key ≤ mark after.factApplied key
  reached : ∀ observation ∈ carried, observation.observedAt ≤
    max (mark after.factApplied ⟨observation.protocolId, record.source⟩)
      (spilled observation.protocolId)
  named : ∀ key ∈ after.factApplied, key ∈ before.factApplied ∨
    ∃ observation ∈ carried, key = ⟨observation.protocolId, record.source⟩
  unmoved : ∀ protocol, (∀ observation ∈ carried, observation.protocolId = protocol →
      observation.observedAt <
        max (mark before.factApplied ⟨protocol, record.source⟩) (spilled protocol)) →
    after.observations[(⟨protocol, record.source⟩ : FactKey)]? =
      before.observations[(⟨protocol, record.source⟩ : FactKey)]?

theorem lands_nil (roomy : slots.entry.Roomy names) :
    Lands record spilled slots.entry slots.entry names [] :=
  ⟨roomy, fun _ => le_rfl, by simp, fun _ held => .inl held, fun _ _ => rfl⟩

theorem placeFact_lands (roomy : slots.entry.Roomy names)
    (named : (⟨observation.protocolId, record.source⟩ : FactKey) ∈ names) :
    Lands record spilled slots.entry (slots.placeFact record spilled observation).entry names
      [observation] := by
  rw [placeFact_of_room roomy named]
  split
  next below =>
    refine ⟨roomy, fun _ => le_rfl, ?_, fun _ held => .inl held, fun _ _ => rfl⟩
    intro other listed
    rw [List.mem_singleton.mp listed]
    exact below.le
  next above =>
    refine ⟨⟨?_, roomy.within.lift named, roomy.fits⟩, fun _ => Watermark.mark_le_lift, ?_, ?_, ?_⟩
    · intro key fact found
      dsimp only at found ⊢
      rw [get_insert] at found
      split at found
      next same =>
        cases found
        subst same
        exact ⟨Watermark.mem_lift.mpr (.inl rfl), Watermark.le_mark_lift⟩
      · obtain ⟨floor, newer⟩ := roomy.covered key fact found
        exact ⟨Watermark.mem_lift.mpr (.inr floor), newer.trans Watermark.mark_le_lift⟩
    · intro other listed
      rw [List.mem_singleton.mp listed]
      exact le_max_of_le_left Watermark.le_mark_lift
    · intro key floor
      rcases Watermark.mem_lift.mp floor with rfl | held
      · exact .inr ⟨observation, List.mem_singleton_self _, rfl⟩
      · exact .inl held
    · intro protocol below
      dsimp only
      rw [get_insert, if_neg]
      intro same
      have here := congrArg FactKey.protocol same
      dsimp only at here
      subst here
      exact above (below observation (List.mem_singleton_self _) rfl)

theorem Lands.trans {before middle after : Entry} {first second : List ProtocolObservation}
    (early : Lands record spilled before middle names first)
    (late : Lands record spilled middle after names second) :
    Lands record spilled before after names (first ++ second) := by
  refine ⟨late.roomy, fun key => (early.rises key).trans (late.rises key), ?_, ?_, ?_⟩
  · intro observation listed
    rcases List.mem_append.mp listed with inFirst | inSecond
    · exact (early.reached observation inFirst).trans (max_le_max (late.rises _) le_rfl)
    · exact late.reached observation inSecond
  · intro key floor
    rcases late.named key floor with middleFloor | ⟨observation, listed, same⟩
    · rcases early.named key middleFloor with held | ⟨observation, listed, same⟩
      · exact .inl held
      · exact .inr ⟨observation, List.mem_append_left _ listed, same⟩
    · exact .inr ⟨observation, List.mem_append_right _ listed, same⟩
  · intro protocol below
    refine (late.unmoved protocol fun observation listed same => ?_).trans
      (early.unmoved protocol fun observation listed same =>
        below observation (List.mem_append_left _ listed) same)
    refine (below observation (List.mem_append_right _ listed) same).trans_le ?_
    exact max_le_max (early.rises _) le_rfl

theorem foldl_placeFact_lands (roomy : slots.entry.Roomy names)
    (named : ∀ observation ∈ carried, (⟨observation.protocolId, record.source⟩ : FactKey) ∈ names) :
    Lands record spilled slots.entry (carried.foldl (placeFact record spilled) slots).entry names
      carried := by
  induction carried generalizing slots with
  | nil => exact lands_nil roomy
  | cons observation rest ih =>
    have here : Lands record spilled slots.entry
        (slots.placeFact record spilled observation).entry names [observation] :=
      placeFact_lands roomy (named observation List.mem_cons_self)
    exact here.trans (ih here.roomy fun other listed => named other (List.mem_cons_of_mem _ listed))

end Slots

namespace Entry

variable {entry : Entry} {candidate : CandidatePeer} {record : Provenance} {now : Nat}
  {stale : Bool} {spilled : ProtocolId → Nat} {names : Finset FactKey}

def settled (entry : Entry) (candidate : CandidatePeer) (record : Provenance) (now : Nat)
    (stale : Bool) : Entry :=
  let kept :=
    ((entry.takeAddresses candidate record now stale).entry.dropOrphanedFacts).dropLapsedFacts now
  if stale then kept else kept.withdrawOmitted candidate

theorem settled_factApplied :
    (entry.settled candidate record now stale).factApplied = entry.factApplied := by
  rw [← (takeAddresses_ledger entry candidate record now stale).2.2, settled]
  cases stale <;> rfl

theorem settled_observations {key : FactKey}
    (found : (entry.settled candidate record now stale).observations[key]? = some fact) :
    entry.observations[key]? = some fact := by
  rw [← (takeAddresses_ledger entry candidate record now stale).1]
  have kept : (((entry.takeAddresses candidate record now stale).entry.dropOrphanedFacts
      ).dropLapsedFacts now).observations[key]? = some fact := by
    cases stale with
    | true => exact found
    | false => exact withdrawOmitted_get_of_get found
  exact (dropOrphanedFacts_get.mp (dropLapsedFacts_get.mp kept).1).1

theorem take_lands (roomy : entry.Roomy names)
    (named : ∀ observation ∈ candidate.protocolObservations,
      (⟨observation.protocolId, record.source⟩ : FactKey) ∈ names) :
    Slots.Lands record spilled (entry.settled candidate record now stale)
      (entry.take candidate record now stale spilled).entry names
      candidate.protocolObservations.toList := by
  have floors : (entry.settled candidate record now stale).factApplied = entry.factApplied :=
    settled_factApplied
  let start : Slots := { entry.takeAddresses candidate record now stale with
    entry := entry.settled candidate record now stale }
  have ready : start.entry.Roomy names := by
    refine ⟨Covered.of_subset roomy.covered floors fun _ _ => settled_observations, ?_, roomy.fits⟩
    exact floors ▸ roomy.within
  exact Slots.foldl_placeFact_lands ready fun observation listed =>
    named observation (Std.ExtTreeSet.mem_toList.mp listed)

end Entry

namespace CandidateSet

variable {names : Finset FactKey}

def Covered (set : CandidateSet) : Prop :=
  ∀ (peer : TransportIdentity) entry, set.peers[peer]? = some entry → entry.Covered

variable {set after : CandidateSet}

section

variable (covered : set.Covered)

include covered

theorem Covered.of_subset
    (subset : ∀ (peer : TransportIdentity) entry, after.peers[peer]? = some entry →
      set.peers[peer]? = some entry) : after.Covered :=
  fun peer entry found => covered peer entry (subset peer entry found)

theorem Covered.removeEntry (peer : TransportIdentity) : (set.removeEntry peer).Covered := by
  apply covered.of_subset
  intro other entry found
  rw [removeEntry_peers, get_erase] at found
  split at found
  · cases found
  · exact found

theorem Covered.withEntry (here : entry.Covered) : (set.withEntry peer entry).Covered := by
  intro other held found
  rw [CandidateSet.withEntry, get_insert] at found
  split at found
  · cases found
    exact here
  · exact covered other held found

theorem Covered.retract (peer : TransportIdentity) (source : String)
    (addresses : ExtTreeSet String) : (set.retract peer source addresses).Covered := by
  rcases found : set.peers[peer]? with _ | entry
  · rw [CandidateSet.retract, found]
    exact covered
  · have kept : (entry.retracted source addresses).Covered := by
      refine Entry.Covered.of_subset (covered peer entry found) rfl fun key fact held => ?_
      exact (Entry.dropOrphanedFacts_get.mp held).1
    rw [retract_eq found]
    split
    · exact (covered.withEntry kept).removeEntry peer
    · exact covered.withEntry kept

theorem Covered.sweep (now : Nat) : (set.sweep now).Covered := by
  intro peer entry found
  rw [sweep_eq, foldl_removeEntry_get] at found
  split at found
  · cases found
  · rw [swept, ExtTreeMap.getElem?_map, Option.map_eq_some_iff] at found
    obtain ⟨held, there, rfl⟩ := found
    refine Entry.Covered.of_subset (covered peer held there) rfl fun key fact onFile => ?_
    exact (Entry.dropLapsedFacts_get.mp (Entry.dropOrphanedFacts_get.mp onFile).1).1

theorem Covered.evict (now : Nat) (trust : PeerTrustPolicy) (incoming : Nat) (pinned : Bool) :
    (set.evictOne now trust incoming pinned).1.Covered := by
  rcases evictOne_exit set now trust incoming pinned with ⟨peer, -, left⟩ | ⟨-, kept⟩
  · rw [left]
    exact covered.removeEntry peer
  · rw [kept]
    exact covered

end

variable {seen : Observation} {stale : Bool}

def heldEntry (set : CandidateSet) (peer : TransportIdentity) : Entry :=
  set.peers[peer]?.getD {}

theorem heldEntry_factApplied : (set.heldEntry peer).factApplied = set.triples.live peer := by
  simp only [heldEntry, triples, liveTable]
  cases set.peers[peer]? <;> rfl

theorem Covered.heldEntry (covered : set.Covered) (peer : TransportIdentity) :
    (set.heldEntry peer).Covered := by
  rw [CandidateSet.heldEntry]
  rcases found : set.peers[peer]? with _ | entry
  · exact Entry.covered_empty
  · exact covered peer entry found

def carriedKeys (candidate : CandidatePeer) : List (TripleKey × Nat) :=
  candidate.protocolObservations.toList.map fun observation =>
    (⟨candidate.peerId, ⟨observation.protocolId, candidate.source⟩⟩, observation.observedAt)

theorem taken_lands (roomy : (set.heldEntry seen.candidate.peerId).Roomy names)
    (named : ∀ item ∈ carriedKeys seen.candidate, item.1.label ∈ names) :
    Slots.Lands seen.record (set.spilledFloor seen.candidate)
      ((set.heldEntry seen.candidate.peerId).settled seen.candidate seen.record seen.now stale)
      (set.taken seen stale).entry names seen.candidate.protocolObservations.toList := by
  apply Entry.take_lands roomy
  intro observation member
  exact named _ (List.mem_map_of_mem (Std.ExtTreeSet.mem_toList.mpr member))

theorem stored_triples : (set.stored seen stale).triples =
    set.triples.withLive seen.candidate.peerId (set.taken seen stale).entry.factApplied := by
  rw [triples, stored_liveTable]
  rfl

theorem stored_factFollows (follows : set.triples.Follows heard gone)
    (roomy : (set.heldEntry seen.candidate.peerId).Roomy names)
    (named : ∀ item ∈ carriedKeys seen.candidate, item.1.label ∈ names) :
    (set.stored seen stale).triples.Follows (heard ++ carriedKeys seen.candidate) gone := by
  have lands : Slots.Lands seen.record (set.spilledFloor seen.candidate)
      ((set.heldEntry seen.candidate.peerId).settled seen.candidate seen.record seen.now stale)
      (set.taken seen stale).entry names seen.candidate.protocolObservations.toList :=
    taken_lands roomy named
  have floors : ((set.heldEntry seen.candidate.peerId).settled seen.candidate seen.record seen.now
      stale).factApplied = set.triples.live seen.candidate.peerId :=
    Entry.settled_factApplied.trans heldEntry_factApplied
  rw [stored_triples]
  apply follows.raise
  · intro key
    rw [← floors]
    exact lands.rises key
  · intro item listed
    obtain ⟨observation, carried, rfl⟩ := List.mem_map.mp listed
    refine (lands.reached observation carried).trans ?_
    rw [max_comm, MarkBook.threshold]
    simp only [MarkBook.withLive, if_true]
    exact le_rfl
  · intro key floor
    rcases lands.named key floor with held | ⟨observation, carried, rfl⟩
    · rw [floors] at held
      obtain ⟨item, listed, same⟩ := follows.spoken _ key held
      exact ⟨item, List.mem_append_left _ listed, same⟩
    · exact ⟨_, List.mem_append_right _ (List.mem_map_of_mem carried), rfl⟩

theorem store_covered (covered : set.Covered)
    (roomy : (set.heldEntry seen.candidate.peerId).Roomy names)
    (named : ∀ item ∈ carriedKeys seen.candidate, item.1.label ∈ names) :
    (set.store seen stale).Covered := by
  intro peer entry found
  rw [store_get] at found
  split at found
  · split at found
    · cases found
    · cases found
      exact (taken_lands roomy named).roomy.covered
  · exact covered peer entry found

end CandidateSet

def factNames (calls : List Call) (peer : TransportIdentity) : Finset FactKey :=
  (calls.flatMap fun call =>
    match call with
    | .observe seen =>
      if seen.candidate.peerId = peer then
        seen.candidate.protocolObservations.toList.map fun observation =>
          (⟨observation.protocolId, seen.candidate.source⟩ : FactKey)
      else []
    | _ => []).toFinset

theorem factNames_append : factNames calls peer ⊆ factNames (calls ++ [call]) peer := by
  intro key member
  simp only [factNames, List.flatMap_append, List.toFinset_append, Finset.mem_union] at member ⊢
  exact .inl member

theorem carriedKeys_named :
    ∀ item ∈ CandidateSet.carriedKeys seen.candidate,
      item.1.owner = seen.candidate.peerId ∧
        item.1.label ∈ factNames (calls ++ [.observe seen]) seen.candidate.peerId := by
  intro item listed
  obtain ⟨observation, carried, rfl⟩ := List.mem_map.mp listed
  refine ⟨rfl, ?_⟩
  simp only [factNames, List.flatMap_append, List.toFinset_append, Finset.mem_union,
    List.flatMap_cons, List.flatMap_nil, List.append_nil, if_true, List.mem_toFinset]
  exact .inr (List.mem_map_of_mem carried)

namespace Run

variable {run : Run} {call : Call}

theorem heardFacts_of_applied (applied : run.set.applies seen = true) :
    (run.step (.observe seen)).heardFacts =
      run.heardFacts ++ CandidateSet.carriedKeys seen.candidate := by
  rw [heardFacts_step, carried, if_pos applied, List.map_map]
  rfl

structure FactTracked (run : Run) : Prop where
  bounded : run.set.peers.size ≤ maxCandidates
  follows : run.set.triples.Follows run.heardFacts run.goneFacts
  covered : run.set.Covered

section

variable (tracked : run.FactTracked)

include tracked

theorem FactTracked.leaves (call : Call) :
    CandidateSet.tripleView.Leaves run.set (run.set.perform call) (run.step call).goneFacts := by
  refine CandidateSet.tripleView.leaves_of_follows tracked.follows fun item listed => ?_
  apply mem_goneFacts_step
  rw [heardFacts_step]
  exact List.mem_append_left _ listed

theorem FactTracked.spilled_step (call : Call) :
    Within (CandidateSet.tripleView.ledger run.set).spilled (run.step call).goneFacts :=
  tracked.follows.spilled.mono Finset.subset_union_left

theorem FactTracked.quiet (quiet : ∀ seen, call ≠ .observe seen) (silent : run.carried call = [])
    (covered : (run.set.perform call).Covered)
    (few : (run.step call).goneFacts.card ≤ maxHighWater) : (run.step call).FactTracked := by
  refine ⟨CandidateSet.perform_size_le tracked.bounded, ?_, covered⟩
  rw [heardFacts_step, silent, List.map_nil, List.append_nil]
  exact tracked.follows.advance (quiet_advances quiet
    (tracked.spilled_step call) (tracked.leaves call) few)

theorem FactTracked.roomy {base : CandidateSet} (covered : base.Covered)
    (advances : run.set.triples.Advances base.triples keys)
    (named : ∀ item ∈ run.heardFacts, item.1.owner = peer → item.1.label ∈ names)
    (fits : names.card ≤ maxObservationsPerPeer) : (base.heldEntry peer).Roomy names := by
  refine ⟨covered.heldEntry peer, ?_, fits⟩
  rw [CandidateSet.heldEntry_factApplied]
  intro key floor
  obtain ⟨item, listed, same⟩ := tracked.follows.spoken peer key (advances.live peer key floor)
  have label := named item listed (by rw [same])
  rwa [same] at label

theorem FactTracked.observe (seen : Observation) {names : Finset FactKey}
    (named : ∀ item ∈ run.heardFacts, item.1.owner = seen.candidate.peerId → item.1.label ∈ names)
    (carries : ∀ item ∈ CandidateSet.carriedKeys seen.candidate, item.1.label ∈ names)
    (fits : names.card ≤ maxObservationsPerPeer)
    (few : (run.step (.observe seen)).goneFacts.card ≤ maxHighWater) :
    (run.step (.observe seen)).FactTracked := by
  have based := CandidateSet.tripleView.observe tracked.bounded
    (tracked.spilled_step (.observe seen)) (tracked.leaves (.observe seen)) few
  have left : ∀ item ∈ (run.step (.observe seen)).heardFacts, Departed run.set
      (run.set.observe seen) item.1.owner → item.1 ∈ (run.step (.observe seen)).goneFacts :=
    fun item listed => mem_goneFacts_step listed
  have afterwards : (CandidateSet.tripleView.ledger (run.set.observe seen)).Follows
      (run.step (.observe seen)).heardFacts (run.step (.observe seen)).goneFacts ∧
      (run.set.observe seen).Covered := by
    generalize run.set.observe seen = after at based left ⊢
    generalize applied : run.set.applies seen = isApplied at based
    cases based with
    | quiet after advances kept =>
      rw [heardFacts_step, carried, applied, if_neg Bool.false_ne_true, List.map_nil,
        List.append_nil]
      exact ⟨tracked.follows.advance advances, tracked.covered.of_subset kept⟩
    | stored base advances kept leaves =>
      have covered : base.Covered := tracked.covered.of_subset kept
      have roomy := tracked.roomy covered advances named fits
      rw [heardFacts_of_applied applied] at left ⊢
      refine ⟨CandidateSet.tripleView.store ?_ (fun emptied item listed same => ?_) few,
        CandidateSet.store_covered covered roomy carries⟩
      · exact CandidateSet.stored_factFollows (tracked.follows.advance advances) roomy carries
      · refine left item listed ⟨same ▸ leaves emptied, ?_⟩
        rw [same, notMem_iff_get, CandidateSet.store_get, if_pos rfl, if_pos emptied]
  exact ⟨CandidateSet.perform_size_le tracked.bounded, afterwards.1, afterwards.2⟩

end

end Run

theorem heardFacts_named {calls : List Call} {item : TripleKey × Nat}
    (listed : item ∈ (runOf calls).heardFacts) :
    item.1.label ∈ factNames calls item.1.owner := by
  induction calls using List.reverseRecOn with
  | nil => cases listed
  | append_singleton calls call ih =>
    rw [runOf_append, Run.heardFacts_step] at listed
    rcases List.mem_append.mp listed with earlier | now
    · exact factNames_append calls (ih earlier)
    · cases call with
      | observe seen =>
        rw [Run.carried] at now
        split at now
        · rw [List.map_map] at now
          obtain ⟨owner, label⟩ := carriedKeys_named calls item now
          rwa [owner]
        · cases now
      | retract | sweep | evict => cases now

theorem runOf_factTracked (few : (runOf calls).goneFacts.card ≤ maxHighWater)
    (fits : ∀ peer, (factNames calls peer).card ≤ maxObservationsPerPeer) :
    (runOf calls).FactTracked := by
  induction calls using List.reverseRecOn with
  | nil =>
    refine ⟨Nat.zero_le _, ?_, ?_⟩
    · have empty : (runOf []).set.triples = ⟨fun _ => ∅, ∅⟩ := by
        simp [runOf, CandidateSet.triples, CandidateSet.new, funext_iff, CandidateSet.liveTable]
      rw [empty]
      exact MarkBook.follows_empty
    · intro peer entry found
      simp [runOf, CandidateSet.new] at found
  | append_singleton calls call ih =>
    rw [runOf_append] at few ⊢
    have tracked := ih ((Finset.card_le_card Finset.subset_union_left).trans few) fun peer =>
      (Finset.card_le_card (factNames_append calls)).trans (fits peer)
    cases call with
    | observe seen =>
      refine tracked.observe seen ?_ (fun item listed => (carriedKeys_named calls item
        listed).2) (fits seen.candidate.peerId) few
      intro item listed owner
      rw [← owner]
      exact factNames_append calls (heardFacts_named listed)
    | retract peer source addresses =>
      exact tracked.quiet (by simp) rfl (tracked.covered.retract peer source addresses) few
    | sweep now => exact tracked.quiet (by simp) rfl (tracked.covered.sweep now) few
    | evict now trust incoming pinned =>
      exact tracked.quiet (by simp) rfl (tracked.covered.evict now trust incoming pinned) few

end InterWeave.Discovery
