import InterWeave.Runtime.DiscoveryEntry

/-!
What each operation on the candidate set does to the peers it holds and to the thresholds
it keeps for them.
-/

namespace InterWeave.Discovery

open Std (ExtTreeMap ExtTreeSet)
open Watermark (mark raise lift pour Within)
open OrderedMap

namespace CandidateSet

def spill (peers : PeerMap) (peer : TransportIdentity) (marks : List (String × Nat))
    (table : ExtTreeMap PairKey Nat) : ExtTreeMap PairKey Nat :=
  marks.foldl (fun table item => raise maxHighWater (redundantOrOldest (coversMark peers)) table
    ⟨peer, item.1⟩ item.2) table

def spillFacts (peers : PeerMap) (peer : TransportIdentity) (marks : List (FactKey × Nat))
    (table : ExtTreeMap TripleKey Nat) : ExtTreeMap TripleKey Nat :=
  marks.foldl (fun table item => raise maxHighWater (redundantOrOldest (coversFactMark peers)) table
    ⟨peer, item.1⟩ item.2) table

theorem foldl_rememberWatermark {set : CandidateSet} {peer : TransportIdentity}
    (marks : List (String × Nat)) :
    marks.foldl (fun set item => set.rememberWatermark ⟨peer, item.1⟩ item.2) set =
      { set with highWater := spill set.peers peer marks set.highWater } := by
  induction marks generalizing set with
  | nil => rfl
  | cons item rest ih =>
    rw [List.foldl_cons, ih]
    rfl

theorem foldl_rememberFactWatermark {set : CandidateSet} {peer : TransportIdentity}
    (marks : List (FactKey × Nat)) :
    marks.foldl (fun set item => set.rememberFactWatermark ⟨peer, item.1⟩ item.2) set =
      { set with factHighWater := spillFacts set.peers peer marks set.factHighWater } := by
  induction marks generalizing set with
  | nil => rfl
  | cons item rest ih =>
    rw [List.foldl_cons, ih]
    rfl

variable {set : CandidateSet} {peer : TransportIdentity} {entry : Entry}

theorem removeEntry_of_none (absent : set.peers[peer]? = none) : set.removeEntry peer = set := by
  rw [removeEntry, absent]

theorem removeEntry_of_get (found : set.peers[peer]? = some entry) :
    set.removeEntry peer =
      { peers := set.peers.erase peer
        overflow := set.overflow
        highWater := spill (set.peers.erase peer) peer entry.applied.toList set.highWater
        factHighWater :=
          spillFacts (set.peers.erase peer) peer entry.factApplied.toList set.factHighWater } := by
  simp only [removeEntry, found, foldl_rememberWatermark, foldl_rememberFactWatermark]

theorem removeEntry_peers : (set.removeEntry peer).peers = set.peers.erase peer := by
  rcases found : set.peers[peer]? with _ | entry
  · rw [removeEntry_of_none found, erase_of_get_none found]
  · rw [removeEntry_of_get found]

theorem foldl_removeEntry_get {leaving : List TransportIdentity} :
    (leaving.foldl removeEntry set).peers[peer]? =
      if peer ∈ leaving then none else set.peers[peer]? := by
  induction leaving generalizing set with
  | nil => simp
  | cons first rest ih =>
    rw [List.foldl_cons, ih, removeEntry_peers, get_erase]
    by_cases here : first = peer
    · simp [here]
    · simp [here, Ne.symm here]

def Lapsed (set : CandidateSet) (now : Nat) (peer : TransportIdentity) : Prop :=
  ∃ entry, set.peers[peer]? = some entry ∧
    ∀ address, ∀ record ∈ entry.recordsAt address, record.expiresAt ≤ now

theorem isLapsed_iff :
    entry.isLapsed now = true ↔
      ∀ address, ∀ record ∈ entry.recordsAt address, record.expiresAt ≤ now := by
  simp only [Entry.isLapsed, List.all_eq_true, Provenance.isLive, Entry.mem_records,
    Bool.not_eq_true', decide_eq_false_iff_not, not_lt]
  constructor
  · exact fun all address record member => all record ⟨address, member⟩
  · rintro all record ⟨address, member⟩
    exact all address record member

variable {now incoming : Nat} {trust : PeerTrustPolicy} {pinned : Bool}

theorem recencyOf_of_get (found : set.peers[peer]? = some entry) :
    set.recencyOf now peer = entry.recency now := by
  rw [recencyOf, found]

open Extremum

theorem leastRecent_some (least : set.leastRecent now trust = some (peer, recency)) :
    peer ∈ set.peers ∧ set.isEvictable now trust peer = true ∧ recency = set.recencyOf now peer ∧
      ∀ other ∈ set.peers, set.isEvictable now trust other = true →
        recency ≤ set.recencyOf now other := by
  rw [leastRecent, Option.map_eq_some_iff] at least
  obtain ⟨⟨held, entry⟩, settled, same⟩ := least
  cases same
  have chosen := List.mem_filter.mp (minByKey_mem settled)
  have found := ExtTreeMap.mem_toList_iff_getElem?_eq_some.mp chosen.1
  refine ⟨(mem_iff_get _ _).mpr ⟨entry, found⟩, chosen.2,
    (recencyOf_of_get found).symm, ?_⟩
  intro other member evictable
  obtain ⟨otherEntry, otherFound⟩ := (mem_iff_get _ _).mp member
  rw [recencyOf_of_get otherFound]
  have listed := ExtTreeMap.mem_toList_iff_getElem?_eq_some.mpr otherFound
  exact minByKey_le settled (List.mem_filter.mpr ⟨listed, evictable⟩)

theorem leastRecent_none (none : set.leastRecent now trust = none) :
    ∀ other ∈ set.peers, set.isEvictable now trust other = false := by
  rw [leastRecent, Option.map_eq_none_iff, minByKey_eq_none] at none
  intro other member
  obtain ⟨entry, found⟩ := (mem_iff_get _ _).mp member
  have listed := ExtTreeMap.mem_toList_iff_getElem?_eq_some.mpr found
  simpa using List.filter_eq_nil_iff.mp none _ listed

inductive Chosen (set : CandidateSet) (now : Nat) (trust : PeerTrustPolicy) (incoming : Nat)
    (pinned : Bool) (peer : TransportIdentity) : Prop where
  | lapsed (dead : set.Lapsed now peer)
  | ranked (alive : ∀ peer, ¬set.Lapsed now peer)
      (held : peer ∈ set.peers) (evictable : set.isEvictable now trust peer = true)
      (least : ∀ other ∈ set.peers, set.isEvictable now trust other = true →
        set.recencyOf now peer ≤ set.recencyOf now other)
      (outranked : (pinned = true ∧ set.configured.length < maxConfiguredRetained) ∨
        set.recencyOf now peer ≤ incoming)

structure Unmoved (set : CandidateSet) (now : Nat) (trust : PeerTrustPolicy) (incoming : Nat)
    (pinned : Bool) : Prop where
  alive : ∀ peer, ¬set.Lapsed now peer
  behind : ∀ other ∈ set.peers, set.isEvictable now trust other = true →
    incoming < set.recencyOf now other ∧
      ¬(pinned = true ∧ set.configured.length < maxConfiguredRetained)

theorem Chosen.held (chosen : set.Chosen now trust incoming pinned peer) : peer ∈ set.peers := by
  cases chosen with
  | lapsed dead =>
    obtain ⟨entry, found, -⟩ := dead
    exact (mem_iff_get _ _).mpr ⟨entry, found⟩
  | ranked alive held evictable least outranked => exact held

theorem evictOne_exit (set : CandidateSet) (now : Nat) (trust : PeerTrustPolicy) (incoming : Nat)
    (pinned : Bool) :
    (∃ peer, set.Chosen now trust incoming pinned peer ∧
      set.evictOne now trust incoming pinned = (set.removeEntry peer, true)) ∨
    set.Unmoved now trust incoming pinned ∧
      set.evictOne now trust incoming pinned = (set, false) := by
  rcases scanned : set.peers.toList.find? fun item => item.2.isLapsed now with _ | ⟨peer, entry⟩
  · have alive : ∀ peer, ¬set.Lapsed now peer := by
      rintro peer ⟨entry, found, dead⟩
      have listed := ExtTreeMap.mem_toList_iff_getElem?_eq_some.mpr found
      exact List.find?_eq_none.mp scanned _ listed (isLapsed_iff.mpr dead)
    rcases settled : set.leastRecent now trust with _ | ⟨peer, recency⟩
    · refine .inr ⟨⟨alive, fun other member may => ?_⟩, by simp [evictOne, scanned, settled]⟩
      rw [leastRecent_none settled other member] at may
      cases may
    · obtain ⟨held, evictable, rfl, least⟩ := leastRecent_some settled
      by_cases favoured : pinned = true ∧ set.configured.length < maxConfiguredRetained
      · exact .inl ⟨peer, .ranked alive held evictable least (.inl favoured),
          by simp [evictOne, scanned, settled, favoured]⟩
      · by_cases older : incoming < set.recencyOf now peer
        · refine .inr ⟨⟨alive, fun other member may => ?_⟩, ?_⟩
          · exact ⟨older.trans_le (least other member may), favoured⟩
          · simp only [evictOne, scanned, settled, if_neg favoured, if_pos older]
        · refine .inl ⟨peer, .ranked alive held evictable least (.inr (not_lt.mp older)), ?_⟩
          simp only [evictOne, scanned, settled, if_neg favoured, if_neg older]
  · have listed := List.mem_of_find?_eq_some scanned
    have dead := List.find?_some scanned
    refine .inl ⟨peer, .lapsed ⟨entry, ?_, isLapsed_iff.mp dead⟩, by simp [evictOne, scanned]⟩
    exact ExtTreeMap.mem_toList_iff_getElem?_eq_some.mp listed

def taken (set : CandidateSet) (seen : Observation) (stale : Bool) : Slots :=
  (set.peers[seen.candidate.peerId]?.getD {}).take seen.candidate seen.record seen.now stale
    (set.spilledFloor seen.candidate)

def stored (set : CandidateSet) (seen : Observation) (stale : Bool) : CandidateSet :=
  { set with
    peers := set.peers.insert seen.candidate.peerId (set.taken seen stale).entry
    overflow := { set.overflow with
      displaced := set.overflow.displaced + (set.taken seen stale).displaced
      configuredRefused :=
        set.overflow.configuredRefused + (set.taken seen stale).configuredRefused } }

variable {seen : Observation} {stale : Bool}

theorem store_eq : set.store seen stale =
    if (set.taken seen stale).entry.addresses.isEmpty = true then
      (set.stored seen stale).removeEntry seen.candidate.peerId
    else set.stored seen stale := rfl

theorem store_get : (set.store seen stale).peers[peer]? =
    if seen.candidate.peerId = peer then
      if (set.taken seen stale).entry.addresses.isEmpty = true then none
      else some (set.taken seen stale).entry
    else set.peers[peer]? := by
  rw [store_eq]
  split
  · rw [removeEntry_peers, get_erase, stored, get_insert]
    split <;> rfl
  · rw [stored, get_insert]

theorem named_of_useful (useful : set.contributesNothing seen = false) :
    seen.candidate.addresses.isEmpty = false ∧ set.isStale seen.candidate = false := by
  simp only [contributesNothing, Bool.or_eq_false_iff] at useful
  exact ⟨useful.1.1, useful.2⟩

theorem taken_new (new : seen.candidate.peerId ∉ set.peers)
    (useful : set.contributesNothing seen = false) :
    (set.taken seen (set.isStale seen.candidate)).entry.addresses.isEmpty = false := by
  obtain ⟨named, current⟩ := named_of_useful useful
  rw [taken, (notMem_iff_get _ _).mp new, current]
  exact Entry.take_new_nonempty _ _ _ _ named

theorem store_size_le (room : seen.candidate.peerId ∈ set.peers ∨ set.peers.size < maxCandidates)
    (bounded : set.peers.size ≤ maxCandidates) :
    (set.store seen stale).peers.size ≤ maxCandidates := by
  have inserted : (set.stored seen stale).peers.size ≤ maxCandidates := by
    rw [stored, ExtTreeMap.size_insert]
    split
    · exact bounded
    next fresh =>
      rcases room with held | short
      · exact absurd held fresh
      · omega
  rw [store_eq]
  split
  · rw [removeEntry_peers]
    exact ExtTreeMap.size_erase_le.trans inserted
  · exact inserted

def countEvicted (set : CandidateSet) : CandidateSet :=
  { set with overflow := { set.overflow with evicted := set.overflow.evicted + 1 } }

def countRefused (set : CandidateSet) : CandidateSet :=
  { set with overflow := { set.overflow with refused := set.overflow.refused + 1 } }

theorem taken_replaced (new : seen.candidate.peerId ∉ set.peers)
    (useful : set.contributesNothing seen = false) :
    ((set.removeEntry peer).countEvicted.taken seen
      (set.isStale seen.candidate)).entry.addresses.isEmpty = false := by
  obtain ⟨named, current⟩ := named_of_useful useful
  have absent : (set.removeEntry peer).countEvicted.peers[seen.candidate.peerId]? = none := by
    rw [countEvicted, removeEntry_peers, get_erase,
      (notMem_iff_get _ _).mp new, ite_self]
  rw [taken, absent, current]
  exact Entry.take_new_nonempty _ _ _ _ named

inductive ObserveExit (set : CandidateSet) (seen : Observation) : Bool → CandidateSet → Prop where
  | nothing (why : set.contributesNothing seen = true) (new : seen.candidate.peerId ∉ set.peers) :
      ObserveExit set seen false set
  | refused (new : seen.candidate.peerId ∉ set.peers) (full : maxCandidates ≤ set.peers.size)
      (unmoved : set.Unmoved seen.now seen.trust seen.candidate.observedAt seen.providerPinned) :
      ObserveExit set seen false set.countRefused
  | stored (room : seen.candidate.peerId ∈ set.peers ∨
        set.contributesNothing seen = false ∧ set.peers.size < maxCandidates) :
      ObserveExit set seen true (set.store seen (set.isStale seen.candidate))
  | replaced (peer : TransportIdentity)
      (chosen : set.Chosen seen.now seen.trust seen.candidate.observedAt seen.providerPinned peer)
      (new : seen.candidate.peerId ∉ set.peers) (useful : set.contributesNothing seen = false) :
      ObserveExit set seen true
        ((set.removeEntry peer).countEvicted.store seen (set.isStale seen.candidate))

theorem observe_exit (bounded : set.peers.size ≤ maxCandidates) :
    ObserveExit set seen (set.applies seen) (set.observe seen) := by
  by_cases held : seen.candidate.peerId ∈ set.peers
  · have slot : set.secureSlot seen = (set, true) := by
      rw [secureSlot, if_neg fun both => both.1 held]
    have after : set.observe seen = set.store seen (set.isStale seen.candidate) := by
      simp [observe, held, slot]
    have applied : set.applies seen = true := by simp [applies, held, slot]
    rw [after, applied]
    exact .stored (.inl held)
  · rcases useful : set.contributesNothing seen with _ | _
    · by_cases full : maxCandidates ≤ set.peers.size
      · rcases evictOne_exit set seen.now seen.trust seen.candidate.observedAt
            seen.providerPinned with ⟨peer, chosen, left⟩ | ⟨unmoved, kept⟩
        · have room : (set.removeEntry peer).peers.size < maxCandidates := by
            rw [removeEntry_peers]
            exact (size_erase_lt chosen.held).trans_le bounded
          have slot : set.secureSlot seen = ((set.removeEntry peer).countEvicted, true) := by
            rw [secureSlot, if_pos ⟨held, full⟩, left]
            simp [countEvicted, room]
          have after : set.observe seen =
              (set.removeEntry peer).countEvicted.store seen (set.isStale seen.candidate) := by
            simp [observe, useful, slot]
          have applied : set.applies seen = true := by simp [applies, useful, slot]
          rw [after, applied]
          exact .replaced peer chosen held useful
        · have slot : set.secureSlot seen = (set.countRefused, false) := by
            rw [secureSlot, if_pos ⟨held, full⟩, kept]
            simp [countRefused, full]
          have after : set.observe seen = set.countRefused := by simp [observe, useful, slot]
          have applied : set.applies seen = false := by simp [applies, slot]
          rw [after, applied]
          exact .refused held full unmoved
      · have slot : set.secureSlot seen = (set, true) := by
          rw [secureSlot, if_neg fun both => full both.2]
        have after : set.observe seen = set.store seen (set.isStale seen.candidate) := by
          simp [observe, useful, slot]
        have applied : set.applies seen = true := by simp [applies, useful, slot]
        rw [after, applied]
        exact .stored (.inr ⟨useful, not_le.mp full⟩)
    · have after : set.observe seen = set := by simp [observe, useful, held]
      have applied : set.applies seen = false := by simp [applies, useful, held]
      rw [after, applied]
      exact .nothing useful held

theorem observe_size_le (bounded : set.peers.size ≤ maxCandidates) :
    (set.observe seen).peers.size ≤ maxCandidates := by
  have exit : ObserveExit set seen (set.applies seen) (set.observe seen) := observe_exit bounded
  generalize set.observe seen = after at exit ⊢
  generalize set.applies seen = applied at exit
  cases exit with
  | nothing | refused => exact bounded
  | stored room => exact store_size_le (room.imp_right And.right) bounded
  | replaced peer chosen new useful =>
    have fewer : (set.removeEntry peer).countEvicted.peers.size < maxCandidates := by
      rw [countEvicted, removeEntry_peers]
      exact (size_erase_lt chosen.held).trans_le bounded
    exact store_size_le (.inr fewer) fewer.le

def withEntry (set : CandidateSet) (peer : TransportIdentity) (entry : Entry) : CandidateSet :=
  { set with peers := set.peers.insert peer entry }

theorem retract_eq (found : set.peers[peer]? = some entry) :
    set.retract peer source addresses =
      if (entry.retracted source addresses).addresses.isEmpty = true then
        (set.withEntry peer (entry.retracted source addresses)).removeEntry peer
      else set.withEntry peer (entry.retracted source addresses) := by
  rw [retract, found]
  rfl

def swept (set : CandidateSet) (now : Nat) : CandidateSet :=
  { set with peers := set.peers.map fun _ entry => entry.swept now }

theorem sweep_eq : set.sweep now =
    (keysWhere (fun _ entry => entry.addresses.isEmpty) (set.swept now).peers).foldl
      removeEntry (set.swept now) := rfl

theorem retract_size_le : (set.retract peer source addresses).peers.size ≤ set.peers.size := by
  unfold retract
  split
  · exact le_rfl
  next entry found =>
    have held : peer ∈ set.peers := (mem_iff_get _ _).mpr ⟨entry, found⟩
    have same (kept : Entry) : (set.peers.insert peer kept).size = set.peers.size := by
      rw [ExtTreeMap.size_insert, if_pos (ExtTreeMap.contains_iff_mem.mpr held)]
    dsimp only
    split
    · rw [removeEntry_peers]
      exact ExtTreeMap.size_erase_le.trans (same _).le
    · exact (same _).le

theorem foldl_removeEntry_size_le {leaving : List TransportIdentity} :
    (leaving.foldl removeEntry set).peers.size ≤ set.peers.size := by
  induction leaving generalizing set with
  | nil => exact le_rfl
  | cons first rest ih =>
    refine ih.trans ?_
    rw [removeEntry_peers]
    exact ExtTreeMap.size_erase_le

theorem sweep_size_le : (set.sweep now).peers.size ≤ set.peers.size := by
  refine foldl_removeEntry_size_le.trans ?_
  exact (ExtTreeMap.size_map (t := set.peers)).le

theorem evictOne_size_le : (set.evictOne now trust incoming pinned).1.peers.size ≤
    set.peers.size := by
  rcases evictOne_exit set now trust incoming pinned with ⟨peer, -, left⟩ | ⟨-, kept⟩
  · rw [left, removeEntry_peers]
    exact ExtTreeMap.size_erase_le
  · rw [kept]

end CandidateSet

inductive Call where
  | observe (seen : Observation)
  | retract (peer : TransportIdentity) (source : String) (addresses : ExtTreeSet String)
  | sweep (now : Nat)
  | evict (now : Nat) (trust : PeerTrustPolicy) (incoming : Nat) (pinned : Bool)

def CandidateSet.perform (set : CandidateSet) : Call → CandidateSet
  | .observe seen => set.observe seen
  | .retract peer source addresses => set.retract peer source addresses
  | .sweep now => set.sweep now
  | .evict now trust incoming pinned => (set.evictOne now trust incoming pinned).1

theorem CandidateSet.perform_size_le {set : CandidateSet}
    (bounded : set.peers.size ≤ maxCandidates) :
    (set.perform call).peers.size ≤ maxCandidates := by
  cases call with
  | observe seen => exact observe_size_le bounded
  | retract peer source addresses => exact retract_size_le.trans bounded
  | sweep now => exact sweep_size_le.trans bounded
  | evict now trust incoming pinned => exact evictOne_size_le.trans bounded

def reached (calls : List Call) : CandidateSet :=
  calls.foldl CandidateSet.perform CandidateSet.new

theorem reached_size_le : (reached calls).peers.size ≤ maxCandidates := by
  refine List.foldlRecOn calls (motive := fun set : CandidateSet => set.peers.size ≤ maxCandidates)
    CandidateSet.perform ?_ ?_
  · exact Nat.zero_le _
  · exact fun _ bounded call _ => CandidateSet.perform_size_le bounded

end InterWeave.Discovery
