import InterWeave.Api.Identities
import InterWeave.Runtime.DiscoveryLedger

/-!
Reachability never goes backwards. A run of the candidate set carries the observations that
were applied; every one of them is at or below its pair's threshold, so an observation that
comes late is recognised wherever its pair's records have gone meanwhile.
-/

namespace InterWeave.Discovery

open Std (ExtTreeMap ExtTreeSet)
open Watermark (mark lift Within)
open OrderedMap Entry

variable (calls : List Call)

namespace CandidateSet

variable {set : CandidateSet} {seen : Observation} {stale : Bool}

theorem taken_applied (spoken : Within (set.pairs.live seen.candidate.peerId) speakers)
    (speaks : seen.candidate.source ∈ speakers) (limited : speakers.card ≤ maxProviders) :
    (set.taken seen stale).entry.applied =
      if stale then set.pairs.live seen.candidate.peerId
      else lift (set.pairs.live seen.candidate.peerId) seen.candidate.source
        seen.candidate.observedAt := by
  have held : (set.peers[seen.candidate.peerId]?.getD {}).applied =
      set.pairs.live seen.candidate.peerId := by
    simp only [pairs, liveTable]
    cases set.peers[seen.candidate.peerId]? <;> rfl
  rw [taken, take_applied]
  cases stale with
  | true => exact held
  | false =>
    rw [if_neg Bool.false_ne_true, if_neg Bool.false_ne_true, noteApplied, held]
    exact Watermark.raise_eq_lift spoken speaks limited

theorem stored_liveTable {L : Type} [LinearOrder L] {table : Entry → ExtTreeMap L Nat} :
    (set.stored seen stale).liveTable table = fun other =>
      if seen.candidate.peerId = other then table (set.taken seen stale).entry
      else set.liveTable table other := by
  funext other
  rw [liveTable, stored, get_insert]
  split <;> rfl

theorem stored_pairs : (set.stored seen stale).pairs =
    set.pairs.withLive seen.candidate.peerId (set.taken seen stale).entry.applied := by
  rw [pairs, stored_liveTable]
  rfl

theorem stored_follows {speakers : Finset String} (follows : set.pairs.Follows heard gone)
    (spoke : ∀ item ∈ heard, item.1.label ∈ speakers) (speaks : seen.candidate.source ∈ speakers)
    (limited : speakers.card ≤ maxProviders)
    (judged : stale = true →
      seen.candidate.observedAt ≤ set.pairs.threshold (pairOf seen.candidate)) :
    (set.stored seen stale).pairs.Follows
      (heard ++ [(pairOf seen.candidate, seen.candidate.observedAt)]) gone := by
  have spoken : Within (set.pairs.live seen.candidate.peerId) speakers := by
    intro source live
    obtain ⟨item, listed, same⟩ := follows.spoken _ source live
    simpa [same] using spoke item listed
  rw [stored_pairs, taken_applied spoken speaks limited]
  apply follows.raise
  · intro source
    split
    · exact le_rfl
    · exact Watermark.mark_le_lift
  · intro item listed
    rw [List.mem_singleton.mp listed]
    cases stale with
    | true =>
      refine (judged rfl).trans ?_
      simp [MarkBook.threshold, MarkBook.withLive, pairOf]
    | false =>
      refine le_max_of_le_right ?_
      simp only [MarkBook.withLive, pairOf, if_true, Bool.false_eq_true, if_false]
      exact Watermark.le_mark_lift
  · intro source member
    have either : source = seen.candidate.source ∨
        source ∈ set.pairs.live seen.candidate.peerId := by
      split at member
      · exact .inr member
      · exact Watermark.mem_lift.mp member
    rcases either with rfl | held
    · exact ⟨_, List.mem_append_right _ (List.mem_singleton_self _), rfl⟩
    · obtain ⟨item, listed, same⟩ := follows.spoken _ source held
      exact ⟨item, List.mem_append_left _ listed, same⟩

end CandidateSet

structure Sighting where
  pair : PairKey
  observedAt : Nat
  stale : Bool

structure Evidence where
  key : TripleKey
  observedAt : Nat

structure Run where
  set : CandidateSet := .new
  log : List Sighting := []
  evidence : List Evidence := []
  gone : Finset PairKey := ∅
  goneFacts : Finset TripleKey := ∅

namespace Run

def Outdates (log : List Sighting) (candidate : CandidatePeer) : Prop :=
  ∃ sighting ∈ log, sighting.stale = false ∧ sighting.pair = pairOf candidate ∧
    candidate.observedAt < sighting.observedAt

instance (log : List Sighting) (candidate : CandidatePeer) : Decidable (Outdates log candidate) :=
  inferInstanceAs (Decidable (∃ sighting ∈ log, _))

def sightings (run : Run) : Call → List Sighting
  | .observe seen =>
    if run.set.applies seen then
      [⟨pairOf seen.candidate, seen.candidate.observedAt,
        decide (Outdates run.log seen.candidate)⟩]
    else []
  | _ => []

def carried (run : Run) : Call → List Evidence
  | .observe seen =>
    if run.set.applies seen then
      seen.candidate.protocolObservations.toList.map fun observation =>
        ⟨⟨seen.candidate.peerId, ⟨observation.protocolId, seen.candidate.source⟩⟩,
          observation.observedAt⟩
    else []
  | _ => []

def step (run : Run) (call : Call) : Run :=
  let after := run.set.perform call
  let log := run.log ++ run.sightings call
  let evidence := run.evidence ++ run.carried call
  { set := after
    log := log
    evidence := evidence
    gone := run.gone ∪
      (log.map Sighting.pair).toFinset.filter fun key => Departed run.set after key.owner
    goneFacts := run.goneFacts ∪
      (evidence.map Evidence.key).toFinset.filter fun key => Departed run.set after key.owner }

end Run

def runOf (calls : List Call) : Run :=
  calls.foldl Run.step {}

def speakers (calls : List Call) : Finset String :=
  (calls.filterMap fun call =>
    match call with
    | .observe seen => some seen.candidate.source
    | _ => none).toFinset

theorem runOf_append (call : Call) : runOf (calls ++ [call]) = (runOf calls).step call := by
  simp [runOf]

theorem runOf_set : (runOf calls).set = reached calls := by
  induction calls using List.reverseRecOn with
  | nil => rfl
  | append_singleton calls call ih =>
    rw [runOf_append, reached, List.foldl_append, ← reached, ← ih]
    rfl

theorem speakers_append : speakers calls ⊆ speakers (calls ++ [call]) := by
  intro source member
  simp only [speakers, List.filterMap_append, List.toFinset_append, Finset.mem_union] at member ⊢
  exact .inl member

theorem log_speaks {calls : List Call} {sighting : Sighting}
    (logged : sighting ∈ (runOf calls).log) : sighting.pair.label ∈ speakers calls := by
  induction calls using List.reverseRecOn with
  | nil => cases logged
  | append_singleton calls call ih =>
    rw [runOf_append] at logged
    rcases List.mem_append.mp logged with earlier | now
    · exact speakers_append calls (ih earlier)
    · cases call with
      | observe seen =>
        rw [Run.sightings] at now
        split at now
        · rw [List.mem_singleton.mp now]
          simp [speakers, pairOf]
        · cases now
      | retract | sweep | evict => cases now

namespace Run

def heard (run : Run) : List (PairKey × Nat) :=
  run.log.map fun sighting => (sighting.pair, sighting.observedAt)

def heardFacts (run : Run) : List (TripleKey × Nat) :=
  run.evidence.map fun item => (item.key, item.observedAt)

variable {run : Run} {call : Call}

theorem heard_step : (run.step call).heard =
    run.heard ++ (run.sightings call).map fun sighting => (sighting.pair, sighting.observedAt) :=
  List.map_append

theorem heardFacts_step : (run.step call).heardFacts =
    run.heardFacts ++ (run.carried call).map fun item => (item.key, item.observedAt) :=
  List.map_append

theorem mem_gone_step (listed : item ∈ (run.step call).heard)
    (left : Departed run.set (run.set.perform call) item.1.owner) :
    item.1 ∈ (run.step call).gone := by
  obtain ⟨sighting, logged, rfl⟩ := List.mem_map.mp listed
  refine Finset.mem_union_right _ (Finset.mem_filter.mpr ⟨?_, left⟩)
  exact List.mem_toFinset.mpr (List.mem_map_of_mem logged)

theorem mem_goneFacts_step (listed : item ∈ (run.step call).heardFacts)
    (left : Departed run.set (run.set.perform call) item.1.owner) :
    item.1 ∈ (run.step call).goneFacts := by
  obtain ⟨evidence, carried, rfl⟩ := List.mem_map.mp listed
  refine Finset.mem_union_right _ (Finset.mem_filter.mpr ⟨?_, left⟩)
  exact List.mem_toFinset.mpr (List.mem_map_of_mem carried)

theorem heard_of_applied (applied : run.set.applies seen = true) :
    (run.step (.observe seen)).heard =
      run.heard ++ [(pairOf seen.candidate, seen.candidate.observedAt)] := by
  rw [heard_step, sightings, if_pos applied]
  rfl

theorem quiet_advances {L : Type} [LinearOrder L] {view : CandidateSet.View L}
    {keys : Finset (Owned TransportIdentity L)} {set : CandidateSet}
    (quiet : ∀ seen, call ≠ .observe seen) (inside : Within (view.ledger set).spilled keys)
    (leaves : view.Leaves set (set.perform call) keys) (fits : keys.card ≤ maxHighWater) :
    (view.ledger set).Advances (view.ledger (set.perform call)) keys := by
  cases call with
  | observe seen => exact absurd rfl (quiet seen)
  | retract peer source addresses => exact view.retract inside leaves fits
  | sweep now => exact view.sweep inside leaves fits
  | evict now trust incoming pinned => exact view.evict inside leaves fits

structure Tracked (run : Run) : Prop where
  bounded : run.set.peers.size ≤ maxCandidates
  follows : run.set.pairs.Follows run.heard run.gone

theorem Tracked.isStale (tracked : run.Tracked) (logged : sighting ∈ run.log)
    (same : sighting.pair = pairOf candidate) (older : candidate.observedAt < sighting.observedAt) :
    run.set.isStale candidate = true := by
  have floor := tracked.follows.floor _ (List.mem_map_of_mem logged)
  rw [same] at floor
  apply decide_eq_true
  rw [CandidateSet.threshold_eq]
  exact older.trans_le floor

theorem Tracked.leaves (tracked : run.Tracked) (call : Call) :
    CandidateSet.pairView.Leaves run.set (run.set.perform call) (run.step call).gone := by
  refine CandidateSet.pairView.leaves_of_follows tracked.follows fun item listed => ?_
  apply mem_gone_step
  rw [heard_step]
  exact List.mem_append_left _ listed

theorem Tracked.spilled_step (tracked : run.Tracked) (call : Call) :
    Within (CandidateSet.pairView.ledger run.set).spilled (run.step call).gone :=
  tracked.follows.spilled.mono Finset.subset_union_left

theorem Tracked.quiet (tracked : run.Tracked) (quiet : ∀ seen, call ≠ .observe seen)
    (silent : run.sightings call = []) (few : (run.step call).gone.card ≤ maxHighWater) :
    (run.step call).Tracked := by
  refine ⟨CandidateSet.perform_size_le tracked.bounded, ?_⟩
  rw [heard_step, silent, List.map_nil, List.append_nil]
  exact tracked.follows.advance
    (quiet_advances quiet (tracked.spilled_step call) (tracked.leaves call) few)

theorem Tracked.observe (tracked : run.Tracked) (seen : Observation) {speakers : Finset String}
    (spoke : ∀ item ∈ (run.step (.observe seen)).heard, item.1.label ∈ speakers)
    (limited : speakers.card ≤ maxProviders)
    (few : (run.step (.observe seen)).gone.card ≤ maxHighWater) :
    (run.step (.observe seen)).Tracked := by
  refine ⟨CandidateSet.perform_size_le tracked.bounded, ?_⟩
  change (CandidateSet.pairView.ledger (run.set.observe seen)).Follows _ _
  have based := CandidateSet.pairView.observe tracked.bounded (tracked.spilled_step (.observe seen))
    (tracked.leaves (.observe seen)) few
  have left : ∀ item ∈ (run.step (.observe seen)).heard, Departed run.set
      (run.set.observe seen) item.1.owner → item.1 ∈ (run.step (.observe seen)).gone :=
    fun item listed => mem_gone_step listed
  generalize run.set.observe seen = after at based left ⊢
  generalize applied : run.set.applies seen = isApplied at based
  cases based with
  | quiet after advances kept =>
    rw [heard_step, sightings, applied, if_neg Bool.false_ne_true, List.map_nil, List.append_nil]
    exact tracked.follows.advance advances
  | stored base advances kept leaves =>
    have heard := heard_of_applied applied
    rw [heard] at spoke left ⊢
    refine CandidateSet.pairView.store ?_ (fun emptied item listed same => ?_) few
    · refine CandidateSet.stored_follows (tracked.follows.advance advances)
        (fun item listed => spoke item (List.mem_append_left _ listed)) ?_ limited ?_
      · exact spoke _ (List.mem_append_right _ (List.mem_singleton_self _))
      · intro stale
        have below := of_decide_eq_true stale
        rw [CandidateSet.threshold_eq] at below
        exact below.le.trans (advances.rises _)
    · refine left item listed ⟨same ▸ leaves emptied, ?_⟩
      rw [same, notMem_iff_get, CandidateSet.store_get, if_pos rfl, if_pos emptied]

end Run

theorem runOf_tracked (few : (runOf calls).gone.card ≤ maxHighWater)
    (limited : (speakers calls).card ≤ maxProviders) : (runOf calls).Tracked := by
  induction calls using List.reverseRecOn with
  | nil =>
    refine ⟨Nat.zero_le _, ?_⟩
    have empty : (runOf []).set.pairs = ⟨fun _ => ∅, ∅⟩ := by
      simp [runOf, CandidateSet.pairs, CandidateSet.new, funext_iff, CandidateSet.liveTable]
    rw [empty]
    exact MarkBook.follows_empty
  | append_singleton calls call ih =>
    have spoke : ∀ item ∈ (runOf (calls ++ [call])).heard,
        item.1.label ∈ speakers (calls ++ [call]) := by
      intro item listed
      obtain ⟨sighting, logged, rfl⟩ := List.mem_map.mp listed
      exact log_speaks logged
    rw [runOf_append] at few spoke ⊢
    have tracked := ih ((Finset.card_le_card Finset.subset_union_left).trans few)
      ((Finset.card_le_card (speakers_append calls)).trans limited)
    cases call with
    | observe seen => exact tracked.observe seen spoke limited few
    | retract | sweep | evict => exact tracked.quiet (by simp) rfl few

variable {set : CandidateSet}

def CandidateSet.recordsAt (set : CandidateSet) (peer : TransportIdentity) (address : String) :
    List Provenance :=
  (set.peers[peer]?.map fun entry => entry.recordsAt address).getD []

def CandidateSet.factAt (set : CandidateSet) (peer : TransportIdentity) (key : FactKey) :
    Option Fact :=
  set.peers[peer]?.bind fun entry => entry.observations[key]?

namespace CandidateSet

variable {seen : Observation}

theorem observe_stale (below : set.isStale seen.candidate = true) :
    (seen.candidate.peerId ∉ set.peers ∧ set.observe seen = set) ∨
      seen.candidate.peerId ∈ set.peers ∧ set.observe seen = set.store seen true := by
  by_cases held : seen.candidate.peerId ∈ set.peers
  · have slot : set.secureSlot seen = (set, true) := by
      rw [secureSlot, if_neg fun both => both.1 held]
    exact .inr ⟨held, by simp [observe, held, slot, below]⟩
  · exact .inl ⟨held, by simp [observe, contributesNothing, below, held]⟩

theorem store_stale_recordsAt (held : seen.candidate.peerId ∈ set.peers)
    (member : record ∈ (set.store seen true).recordsAt peer address) :
    record ∈ set.recordsAt peer address := by
  obtain ⟨entry, found⟩ := (mem_iff_get _ _).mp held
  rw [recordsAt, store_get] at member
  split at member
  next same =>
    subst same
    split at member
    · cases member
    · rw [taken, found] at member
      simp only [Option.map_some, Option.getD_some, take_recordsAt_of_stale,
        mem_pruneAddresses] at member
      simpa [recordsAt, found] using member.1
  · exact member

theorem observe_stale_records (below : set.isStale seen.candidate = true)
    (peer : TransportIdentity) (address : String) :
    ∀ record ∈ (set.observe seen).recordsAt peer address, record ∈ set.recordsAt peer address := by
  intro record member
  rcases observe_stale below with ⟨-, same⟩ | ⟨held, stored⟩
  · rwa [same] at member
  · rw [stored] at member
    exact store_stale_recordsAt held member

theorem supports_of_recordsAt (found : set.peers[peer]? = some entry)
    (supported : ∃ address, ∃ record ∈ set.recordsAt peer address,
      record.source = source ∧ now < record.expiresAt) : entry.Supports now source := by
  obtain ⟨address, record, member, same, live⟩ := supported
  refine ⟨address, record, ?_, same, live⟩
  simpa [recordsAt, found] using member

theorem taken_stale_nonempty (found : set.peers[seen.candidate.peerId]? = some entry)
    (supported : entry.Supports seen.now source) :
    (set.taken seen true).entry.addresses.isEmpty = false := by
  obtain ⟨address, record, member, -, live⟩ := supported
  have kept : record ∈ (set.taken seen true).entry.recordsAt address := by
    rw [taken, found]
    rw [Option.getD_some, take_recordsAt_of_stale]
    exact mem_pruneAddresses.mpr ⟨member, live⟩
  obtain ⟨records, listed, -⟩ := mem_recordsAt.mp kept
  rw [isEmpty_eq_false_iff_exists]
  exact ⟨address, (mem_iff_get _ _).mpr ⟨records, listed⟩⟩

theorem observe_stale_keeps (below : set.isStale seen.candidate = true)
    (unnamed : ∀ observation ∈ seen.candidate.protocolObservations,
      observation.protocolId ≠ protocol)
    (onFile : set.factAt seen.candidate.peerId ⟨protocol, seen.candidate.source⟩ = some fact)
    (lasting : seen.now < fact.expiresAt)
    (supported : ∃ address, ∃ record ∈ set.recordsAt seen.candidate.peerId address,
      record.source = seen.candidate.source ∧ seen.now < record.expiresAt) :
    (set.observe seen).factAt seen.candidate.peerId ⟨protocol, seen.candidate.source⟩ =
      some fact := by
  rcases observe_stale below with ⟨-, same⟩ | ⟨held, stored⟩
  · rw [same]
    exact onFile
  · obtain ⟨entry, found⟩ := (mem_iff_get _ _).mp held
    have supports := supports_of_recordsAt found supported
    have remains := taken_stale_nonempty found supports
    rw [factAt, found] at onFile
    rw [stored, factAt, store_get, if_pos rfl, remains]
    have kept := take_stale_keeps entry seen.candidate seen.record seen.now
      (set.spilledFloor seen.candidate) unnamed onFile lasting supports
    rw [taken, found]
    exact kept

end CandidateSet

/-- An observation older than an applied one of its pair puts no record in and moves none,
and withdraws no fact that it leaves out: what its source has on file stays while that
source has a live record. -/
theorem stale_observation_changes_nothing (calls : List Call) (seen : Observation)
    (few : (runOf calls).gone.card ≤ maxHighWater)
    (limited : (speakers calls).card ≤ maxProviders)
    (stale : Run.Outdates (runOf calls).log seen.candidate) :
    (∀ peer address, ∀ record ∈ ((runOf calls).set.observe seen).recordsAt peer address,
      record ∈ (runOf calls).set.recordsAt peer address) ∧
    ∀ protocol fact,
      (∀ observation ∈ seen.candidate.protocolObservations, observation.protocolId ≠ protocol) →
      (runOf calls).set.factAt seen.candidate.peerId ⟨protocol, seen.candidate.source⟩ = some fact →
      seen.now < fact.expiresAt →
      (∃ address, ∃ record ∈ (runOf calls).set.recordsAt seen.candidate.peerId address,
        record.source = seen.candidate.source ∧ seen.now < record.expiresAt) →
      ((runOf calls).set.observe seen).factAt seen.candidate.peerId
        ⟨protocol, seen.candidate.source⟩ = some fact := by
  have tracked := runOf_tracked calls few limited
  have below : (runOf calls).set.isStale seen.candidate = true := by
    obtain ⟨sighting, logged, -, same, older⟩ := stale
    exact tracked.isStale logged same older
  generalize (runOf calls).set = set at below ⊢
  exact ⟨CandidateSet.observe_stale_records below,
    fun protocol fact unnamed held lasting supported =>
    CandidateSet.observe_stale_keeps below unnamed held lasting supported⟩

def identify : ProtocolId :=
  ⟨"/ipfs/id/1.0.0", by decide⟩

def glimpse (observedAt : Nat) (facts : ExtTreeSet ProtocolObservation) : Observation where
  candidate :=
    { peerId := .numbered 0
      addresses := {"/ip4/10.0.0.1/tcp/1"}
      source := "mdns"
      observedAt := observedAt
      expiresAt := some 100
      protocolObservations := facts }
  now := 30
  trust := .default
  providerExpires := true
  providerPinned := false

/-- The observation came first, and its source has taken it back since. -/
def retracted : List Call :=
  [.observe (glimpse 20 {⟨identify, true, 20⟩}), .retract (.numbered 0) "mdns" ∅]

/-- An older observation leaves a fact standing, and brings back no record that was removed, the
mark of which lies with the marks of what is gone. -/
theorem stale_observation_changes_nothing_sample :
    ((runOf [.observe (glimpse 20 {⟨identify, true, 20⟩})]).set.observe (glimpse 10 ∅)).factAt
      (.numbered 0) ⟨identify, "mdns"⟩ = some ⟨true, 20, 100⟩ ∧
    (runOf retracted).gone.card = 1 ∧
    ((runOf retracted).set.observe (glimpse 10 ∅)).recordsAt (.numbered 0) "/ip4/10.0.0.1/tcp/1" =
      [] := by
  have keeps := (stale_observation_changes_nothing [.observe (glimpse 20 {⟨identify, true, 20⟩})]
    (glimpse 10 ∅) (by decide +kernel) (by decide +kernel) (by decide +kernel)).2
  have unnamed : ∀ observation ∈ (glimpse 10 ∅).candidate.protocolObservations,
      observation.protocolId ≠ identify := fun _ member => absurd member ExtTreeSet.not_mem_empty
  have removed := (stale_observation_changes_nothing retracted (glimpse 10 ∅) (by decide +kernel)
    (by decide +kernel) (by decide +kernel)).1 (.numbered 0) "/ip4/10.0.0.1/tcp/1"
  have none : (runOf retracted).set.recordsAt (.numbered 0) "/ip4/10.0.0.1/tcp/1" = [] := by
    decide +kernel
  refine ⟨keeps identify ⟨true, 20, 100⟩ unnamed ?_ ?_ ?_, by decide +kernel, ?_⟩
  · decide +kernel
  · decide
  · refine ⟨"/ip4/10.0.0.1/tcp/1", ⟨"mdns", 20, 100, false⟩, ?_, rfl, ?_⟩
    · decide +kernel
    · decide
  · rw [none] at removed
    exact List.eq_nil_iff_forall_not_mem.mpr fun record member =>
      List.not_mem_nil (removed record member)

end InterWeave.Discovery
