import InterWeave.Api.Identities
import InterWeave.Runtime.DiscoverySet

/-!
What a full candidate set gives up for a peer it does not hold. A peer without a live
record goes first; otherwise trust and configuration shield a peer, and among the rest the
least recently observed one goes unless the newcomer is older still.
-/

namespace InterWeave.Discovery

open Std (ExtTreeMap)
open OrderedMap

namespace CandidateSet

def pinnedPeers (set : CandidateSet) : Finset TransportIdentity :=
  set.configured.toFinset

theorem card_pinnedPeers {set : CandidateSet} : set.pinnedPeers.card = set.configured.length :=
  List.toFinset_card_of_nodup nodup_keysWhere

structure Protects (set : CandidateSet) (now : Nat) (kept : Finset TransportIdentity) : Prop where
  few : set.pinnedPeers.card ≤ maxConfiguredRetained → kept = set.pinnedPeers
  many : maxConfiguredRetained < set.pinnedPeers.card →
    kept ⊆ set.pinnedPeers ∧ kept.card = maxConfiguredRetained ∧
      ∀ inside ∈ kept, ∀ outside ∈ set.pinnedPeers \ kept,
        set.recencyOf now outside ≤ set.recencyOf now inside

open KeySort

theorem protect_protects {set : CandidateSet} :
    set.Protects now (set.protect now).toFinset := by
  constructor
  · intro few
    rw [card_pinnedPeers] at few
    rw [protect, if_pos few, pinnedPeers]
  · intro many
    rw [card_pinnedPeers] at many
    rw [protect, if_neg (not_le.mpr many)]
    generalize ranking : sortByKey
      (fun peer => OrderDual.toDual (set.recencyOf now peer)) set.configured = ranked
    have members (peer : TransportIdentity) : peer ∈ ranked ↔ peer ∈ set.configured := by
      rw [← ranking]
      exact mem_sortByKey _ _
    have distinct : ranked.Nodup := by
      rw [← ranking]
      exact (sortByKey_perm _ _).nodup_iff.mpr nodup_keysWhere
    have length : ranked.length = set.configured.length := by
      rw [← ranking]
      exact length_sortByKey _ _
    refine ⟨?_, ?_, ?_⟩
    · intro peer inside
      rw [List.mem_toFinset] at inside
      exact List.mem_toFinset.mpr ((members peer).mp (List.mem_of_mem_take inside))
    · rw [List.toFinset_card_of_nodup (distinct.sublist (List.take_sublist _ _)),
        List.length_take]
      omega
    · intro inside front outside excluded
      rw [List.mem_toFinset] at front
      rw [Finset.mem_sdiff, List.mem_toFinset, pinnedPeers, List.mem_toFinset,
        ← members] at excluded
      have back : outside ∈ ranked.drop maxConfiguredRetained := by
        have either := excluded.1
        rw [← List.take_append_drop maxConfiguredRetained ranked, List.mem_append] at either
        exact either.resolve_left excluded.2
      rw [← ranking] at front back
      have order := take_le_drop _ _ _ front back
      exact OrderDual.toDual_le_toDual.mp order

def MayGo (set : CandidateSet) (trust : PeerTrustPolicy) (kept : Finset TransportIdentity)
    (peer : TransportIdentity) : Prop :=
  peer ∈ set.peers ∧ (trust.decide peer).isAllowed = false ∧ peer ∉ kept

theorem mayGo_iff {set : CandidateSet} : set.MayGo trust (set.protect now).toFinset peer ↔
      peer ∈ set.peers ∧ set.isEvictable now trust peer = true := by
  simp [MayGo, isEvictable]

def Replaces (set after : CandidateSet) (newcomer evicted : TransportIdentity) : Prop :=
  ∀ peer, peer ∈ after.peers ↔ peer = newcomer ∨ peer ∈ set.peers ∧ peer ≠ evicted

structure Crowded (set : CandidateSet) (seen : Observation) : Prop where
  full : set.peers.size = maxCandidates
  new : seen.candidate.peerId ∉ set.peers
  named : seen.candidate.addresses.isEmpty = false
  unexpired : seen.now < seen.record.expiresAt
  current : set.isStale seen.candidate = false

def Favoured (set : CandidateSet) (seen : Observation) : Prop :=
  seen.providerPinned = true ∧ set.pinnedPeers.card < maxConfiguredRetained

structure OverflowRule (set : CandidateSet) (seen : Observation) (after : CandidateSet) :
    Prop where
  lapsedFirst : (∃ peer, set.Lapsed seen.now peer) →
    ∃ peer, set.Lapsed seen.now peer ∧ set.Replaces after seen.candidate.peerId peer
  thenUnshielded : (∀ peer, ¬set.Lapsed seen.now peer) →
    ∃ kept, set.Protects seen.now kept ∧
      (∀ evicted ∈ set.peers, evicted ∉ after.peers →
        set.MayGo seen.trust kept evicted ∧
        (∀ other, set.MayGo seen.trust kept other →
          set.recencyOf seen.now evicted ≤ set.recencyOf seen.now other) ∧
        set.Replaces after seen.candidate.peerId evicted) ∧
      ((∀ other, ¬set.MayGo seen.trust kept other) ∨
          (∀ other, set.MayGo seen.trust kept other →
            seen.candidate.observedAt < set.recencyOf seen.now other) ∧ ¬set.Favoured seen →
        after = set.countRefused)

variable {set : CandidateSet} {seen : Observation}

theorem Crowded.useful (crowded : set.Crowded seen) : set.contributesNothing seen = false := by
  simp [contributesNothing, crowded.named, crowded.current, crowded.unexpired]

theorem Crowded.replaces (crowded : set.Crowded seen) (peer : TransportIdentity) :
    set.Replaces
      ((set.removeEntry peer).countEvicted.store seen (set.isStale seen.candidate))
      seen.candidate.peerId peer := by
  intro other
  rw [mem_iff_get, mem_iff_get, store_get,
    taken_replaced crowded.new crowded.useful, countEvicted, removeEntry_peers,
    get_erase]
  by_cases newcomer : seen.candidate.peerId = other
  · simp [newcomer]
  · by_cases left : peer = other
    · simp [newcomer, left, Ne.symm newcomer]
    · simp [newcomer, left, Ne.symm newcomer, Ne.symm left]

theorem Replaces.unique (replaces : set.Replaces after newcomer peer) (held : evicted ∈ set.peers)
    (left : evicted ∉ after.peers) : evicted = peer := by
  by_contra differs
  exact left ((replaces evicted).mpr (.inr ⟨held, differs⟩))

theorem overflowRule_observe (crowded : set.Crowded seen) :
    set.OverflowRule seen (set.observe seen) := by
  have exit : ObserveExit set seen (set.applies seen) (set.observe seen) :=
    observe_exit crowded.full.le
  generalize set.observe seen = after at exit ⊢
  generalize set.applies seen = applied at exit
  cases exit with
  | nothing why new => simp [crowded.useful] at why
  | stored room =>
    rcases room with held | ⟨-, short⟩
    · exact absurd held crowded.new
    · exact absurd crowded.full short.ne
  | refused new full unmoved =>
    refine ⟨fun ⟨peer, dead⟩ => absurd dead (unmoved.alive peer), fun _ => ?_⟩
    refine ⟨_, protect_protects, ?_, fun _ => rfl⟩
    exact fun evicted held left => absurd held left
  | replaced peer chosen new useful =>
    have replaces := crowded.replaces peer
    generalize (set.removeEntry peer).countEvicted.store seen (set.isStale seen.candidate) =
      after at replaces ⊢
    cases chosen with
    | lapsed dead => exact ⟨fun _ => ⟨peer, dead, replaces⟩, fun alive => absurd dead (alive peer)⟩
    | ranked alive held evictable least outranked =>
      refine ⟨fun ⟨peer, dead⟩ => absurd dead (alive peer), fun _ => ?_⟩
      refine ⟨_, protect_protects, ?_, ?_⟩
      · intro evicted member left
        obtain rfl := replaces.unique member left
        refine ⟨mayGo_iff.mpr ⟨held, evictable⟩, fun other may => ?_, replaces⟩
        exact least other (mayGo_iff.mp may).1 (mayGo_iff.mp may).2
      · rintro (nobody | ⟨older, ordinary⟩)
        · exact absurd (mayGo_iff.mpr ⟨held, evictable⟩) (nobody peer)
        · rw [Favoured, card_pinnedPeers] at ordinary
          have before := older peer (mayGo_iff.mpr ⟨held, evictable⟩)
          exact absurd (outranked.resolve_left ordinary) (not_le.mpr before)

theorem observe_new (new : seen.candidate.peerId ∉ set.peers)
    (room : set.peers.size < maxCandidates) (named : seen.candidate.addresses.isEmpty = false)
    (unexpired : seen.now < seen.record.expiresAt) (current : set.isStale seen.candidate = false) :
    set.observe seen = set.stored seen false := by
  have useful : set.contributesNothing seen = false := by
    simp [contributesNothing, named, current, unexpired]
  have slot : set.secureSlot seen = (set, true) := by
    rw [secureSlot, if_neg fun both => absurd both.2 (not_le.mpr room)]
  have settled := taken_new new useful
  have stored : set.observe seen = set.store seen false := by
    simp [observe, useful, slot, current]
  rw [current] at settled
  rw [stored, store_eq, settled]
  rfl

end CandidateSet

theorem overflow_keeps_what_matters (calls : List Call) :
    (reached calls).peers.size ≤ maxCandidates ∧
      ∀ seen, (reached calls).Crowded seen →
        (reached calls).OverflowRule seen ((reached calls).observe seen) :=
  ⟨reached_size_le, fun _ crowded => CandidateSet.overflowRule_observe crowded⟩

def arrival (number : Nat) : Observation where
  candidate :=
    { peerId := .numbered number
      addresses := {"/ip4/10.0.0.1/tcp/1"}
      source := "mdns"
      observedAt := 1
      expiresAt := some 2
      protocolObservations := ∅ }
  now := 1
  trust := .default
  providerExpires := true
  providerPinned := false

def crowd (count : Nat) : List Call :=
  (List.range count).map fun number => .observe (arrival number)

theorem arrival_isStale {set : CandidateSet} (unmarked : set.highWater = ∅)
    (new : TransportIdentity.numbered number ∉ set.peers) :
    set.isStale (arrival number).candidate = false := by
  have absent : set.peers[TransportIdentity.numbered number]? = none :=
    (notMem_iff_get _ _).mp new
  simp [CandidateSet.isStale, CandidateSet.threshold, pairOf, arrival, unmarked, absent]

theorem arrival_unexpired : (arrival number).now < (arrival number).record.expiresAt := by
  simp [arrival, Observation.record, lifetime]

theorem crowd_reached (room : count ≤ maxCandidates) :
    (reached (crowd count)).peers.size = count ∧ (reached (crowd count)).highWater = ∅ ∧
      ∀ number, count ≤ number → number ≤ maxCandidates →
        .numbered number ∉ (reached (crowd count)).peers := by
  induction count with
  | zero =>
    exact ⟨rfl, rfl, fun _ _ _ member => by simp [crowd, reached, CandidateSet.new] at member⟩
  | succ count ih =>
    obtain ⟨size, unmarked, absent⟩ := ih (by omega)
    have unfolded : reached (crowd (count + 1)) =
        (reached (crowd count)).observe (arrival count) := by
      simp [reached, crowd, List.range_succ, CandidateSet.perform]
    generalize reached (crowd count) = set at size unmarked absent unfolded
    have new := absent count le_rfl (by omega)
    rw [unfolded, CandidateSet.observe_new new (by omega) rfl arrival_unexpired
      (arrival_isStale unmarked new)]
    refine ⟨?_, unmarked, fun number above below member => ?_⟩
    · have fresh : ¬set.peers.contains (arrival count).candidate.peerId = true := new
      simp only [CandidateSet.stored, ExtTreeMap.size_insert]
      rw [if_neg fresh, size]
    · rcases (mem_insert _ _ _ _).mp member with same | held
      · have large : maxCandidates < 2 ^ 43 := by decide
        have := TransportIdentity.numbered_inj (by omega) (by omega) same
        omega
      · exact absent number (by omega) below held

theorem overflow_keeps_what_matters_sample :
    (reached (crowd maxCandidates)).OverflowRule (arrival maxCandidates)
      ((reached (crowd maxCandidates)).observe (arrival maxCandidates)) := by
  obtain ⟨size, unmarked, absent⟩ := crowd_reached (le_refl maxCandidates)
  have new := absent maxCandidates le_rfl le_rfl
  refine (overflow_keeps_what_matters (crowd maxCandidates)).2 (arrival maxCandidates) ?_
  exact ⟨size, new, rfl, arrival_unexpired, arrival_isStale unmarked new⟩

end InterWeave.Discovery
