import InterWeave.Lib.MarkBook
import InterWeave.Runtime.DiscoverySet

/-!
The candidate set keeps two ledgers of forward-only marks, one of pairs for reachability
and one of triples for protocol facts. Every operation moves marks between a peer's entry
and the spilled tables the way a ledger does, as long as those tables have room.
-/

namespace InterWeave.Discovery

open Std (ExtTreeMap ExtTreeSet)
open Watermark (mark pour Within)
open OrderedMap

def Departed (before after : CandidateSet) (peer : TransportIdentity) : Prop :=
  peer ∈ before.peers ∧ peer ∉ after.peers

instance (before after : CandidateSet) (peer : TransportIdentity) :
    Decidable (Departed before after peer) :=
  inferInstanceAs (Decidable (_ ∧ _))

def Entry.marks (entry : Entry) : ExtTreeMap String Nat × ExtTreeMap FactKey Nat :=
  (entry.applied, entry.factApplied)

namespace CandidateSet

variable {peer : TransportIdentity}

def liveTable {L : Type} [LinearOrder L] (table : Entry → ExtTreeMap L Nat) (set : CandidateSet)
    (peer : TransportIdentity) : ExtTreeMap L Nat :=
  (set.peers[peer]?.map table).getD ∅

def pairs (set : CandidateSet) : MarkBook TransportIdentity String :=
  ⟨set.liveTable Entry.applied, set.highWater⟩

def triples (set : CandidateSet) : MarkBook TransportIdentity FactKey :=
  ⟨set.liveTable Entry.factApplied, set.factHighWater⟩

theorem threshold_eq (set : CandidateSet) (key : PairKey) :
    set.threshold key = set.pairs.threshold key := by
  simp only [threshold, MarkBook.threshold, pairs, liveTable]
  cases set.peers[key.owner]? <;> simp

structure SameMarks (set after : CandidateSet) : Prop where
  spilled : after.highWater = set.highWater
  spilledFacts : after.factHighWater = set.factHighWater
  held : ∀ peer : TransportIdentity,
    after.peers[peer]?.map Entry.marks = set.peers[peer]?.map Entry.marks

theorem liveTable_removeEntry {L : Type} [LinearOrder L] (table : Entry → ExtTreeMap L Nat)
    (set : CandidateSet) (peer : TransportIdentity) :
    (set.removeEntry peer).liveTable table =
      fun other => if peer = other then ∅ else set.liveTable table other := by
  funext other
  rw [liveTable, removeEntry_peers, get_erase]
  split <;> rfl

structure View (L : Type) [LinearOrder L] where
  ledger : CandidateSet → MarkBook TransportIdentity L
  retouched : ∀ {set after : CandidateSet}, set.SameMarks after → ledger after = ledger set
  removed : ∀ {set : CandidateSet} {peer : TransportIdentity}
    {keys : Finset (Owned TransportIdentity L)}, Within (ledger set).spilled keys →
    (∀ label ∈ (ledger set).live peer, ⟨peer, label⟩ ∈ keys) → keys.card ≤ maxHighWater →
    ledger (set.removeEntry peer) = (ledger set).depart peer

theorem named_of_mem_toList {L : Type} [LinearOrder L] {marks : ExtTreeMap L Nat}
    {keys : Finset (Owned TransportIdentity L)} (named : ∀ label ∈ marks, ⟨peer, label⟩ ∈ keys) :
    ∀ item ∈ marks.toList, (⟨peer, item.1⟩ : Owned TransportIdentity L) ∈ keys := by
  rintro ⟨label, value⟩ listed
  apply named label
  rw [mem_iff_get]
  exact ⟨value, ExtTreeMap.mem_toList_iff_getElem?_eq_some.mp listed⟩

theorem pairs_removeEntry {set : CandidateSet} (inside : Within set.highWater keys)
    (named : ∀ source ∈ set.pairs.live peer, ⟨peer, source⟩ ∈ keys)
    (fits : keys.card ≤ maxHighWater) : (set.removeEntry peer).pairs = set.pairs.depart peer := by
  have spilled : (set.removeEntry peer).highWater =
      pour (fun source => ⟨peer, source⟩) (set.pairs.live peer).toList set.highWater := by
    rcases found : set.peers[peer]? with _ | entry
    · have nothing : (∅ : ExtTreeMap String Nat).toList = [] := ExtTreeMap.toList_eq_nil_iff.mpr rfl
      simp [removeEntry_of_none found, pairs, liveTable, found, pour, nothing]
    · have marks : set.pairs.live peer = entry.applied := by simp [pairs, liveTable, found]
      rw [marks] at named ⊢
      rw [removeEntry_of_get found]
      exact Watermark.foldl_raise_eq_pour inside (named_of_mem_toList named) fits
  rw [pairs, liveTable_removeEntry, spilled]
  rfl

theorem triples_removeEntry {set : CandidateSet} (inside : Within set.factHighWater keys)
    (named : ∀ key ∈ set.triples.live peer, ⟨peer, key⟩ ∈ keys) (fits : keys.card ≤ maxHighWater) :
    (set.removeEntry peer).triples = set.triples.depart peer := by
  have spilled : (set.removeEntry peer).factHighWater =
      pour (fun key => ⟨peer, key⟩) (set.triples.live peer).toList set.factHighWater := by
    rcases found : set.peers[peer]? with _ | entry
    · have nothing : (∅ : ExtTreeMap FactKey Nat).toList = [] :=
        ExtTreeMap.toList_eq_nil_iff.mpr rfl
      simp [removeEntry_of_none found, triples, liveTable, found, pour, nothing]
    · have marks : set.triples.live peer = entry.factApplied := by
        simp [triples, liveTable, found]
      rw [marks] at named ⊢
      rw [removeEntry_of_get found]
      exact Watermark.foldl_raise_eq_pour inside (named_of_mem_toList named) fits
  rw [triples, liveTable_removeEntry, spilled]
  rfl

theorem SameMarks.liveTable {set after : CandidateSet} (same : set.SameMarks after) {L : Type}
    [LinearOrder L] (table : ExtTreeMap String Nat × ExtTreeMap FactKey Nat → ExtTreeMap L Nat) :
    after.liveTable (table ∘ Entry.marks) = set.liveTable (table ∘ Entry.marks) := by
  funext peer
  rw [CandidateSet.liveTable, CandidateSet.liveTable, ← Option.map_map, ← Option.map_map,
    same.held peer]

def pairView : View String where
  ledger := pairs
  retouched := by
    intro set after same
    rw [pairs, pairs, same.spilled]
    exact congrArg (MarkBook.mk · _) (same.liveTable Prod.fst)
  removed := pairs_removeEntry

def tripleView : View FactKey where
  ledger := triples
  retouched := by
    intro set after same
    rw [triples, triples, same.spilledFacts]
    exact congrArg (MarkBook.mk · _) (same.liveTable Prod.snd)
  removed := triples_removeEntry

namespace View

variable {L : Type} [LinearOrder L] (view : View L) {set after : CandidateSet}
  {peer : TransportIdentity} {keys : Finset (Owned TransportIdentity L)}

theorem retouch (inside : Within (view.ledger set).spilled keys) (same : set.SameMarks after) :
    (view.ledger set).Advances (view.ledger after) keys := by
  rw [view.retouched same]
  exact .refl inside

theorem remove (inside : Within (view.ledger set).spilled keys)
    (named : ∀ label ∈ (view.ledger set).live peer, ⟨peer, label⟩ ∈ keys)
    (fits : keys.card ≤ maxHighWater) :
    (view.ledger set).Advances (view.ledger (set.removeEntry peer)) keys := by
  rw [view.removed inside named fits]
  exact MarkBook.depart_advances inside named

theorem removeAll {leaving : List TransportIdentity}
    (inside : Within (view.ledger set).spilled keys)
    (named : ∀ peer ∈ leaving, ∀ label ∈ (view.ledger set).live peer, ⟨peer, label⟩ ∈ keys)
    (fits : keys.card ≤ maxHighWater) :
    (view.ledger set).Advances (view.ledger (leaving.foldl removeEntry set)) keys := by
  induction leaving generalizing set with
  | nil => exact .refl inside
  | cons first rest ih =>
    have here := view.remove inside (named first List.mem_cons_self) fits
    refine here.trans (ih here.within fun peer member label held => ?_)
    exact named peer (List.mem_cons_of_mem _ member) label (here.live peer label held)

def Leaves (set after : CandidateSet) (keys : Finset (Owned TransportIdentity L)) : Prop :=
  ∀ peer, Departed set after peer → ∀ label ∈ (view.ledger set).live peer, ⟨peer, label⟩ ∈ keys

theorem leaves_of_follows (follows : (view.ledger set).Follows heard gone)
    (departs : ∀ item ∈ heard, Departed set after item.1.owner → item.1 ∈ keys) :
    view.Leaves set after keys := by
  intro peer left label live
  obtain ⟨item, listed, same⟩ := follows.spoken peer label live
  rw [← same]
  exact departs item listed (by rwa [same])

theorem retract (inside : Within (view.ledger set).spilled keys)
    (leaves : view.Leaves set (set.retract peer source addresses) keys)
    (fits : keys.card ≤ maxHighWater) :
    (view.ledger set).Advances (view.ledger (set.retract peer source addresses)) keys := by
  rcases found : set.peers[peer]? with _ | entry
  · rw [CandidateSet.retract, found]
    exact .refl inside
  · have touched : (view.ledger set).Advances
        (view.ledger (set.withEntry peer (entry.retracted source addresses))) keys := by
      refine view.retouch inside ⟨rfl, rfl, fun other => ?_⟩
      rw [withEntry, get_insert]
      split
      next same => simp [← same, found, Entry.marks, Entry.retracted, Entry.dropOrphanedFacts]
      · rfl
    rw [retract_eq found] at leaves ⊢
    split
    next emptied =>
      rw [if_pos emptied] at leaves
      refine touched.trans (view.remove touched.within (fun label live => ?_) fits)
      refine leaves peer ⟨(mem_iff_get _ _).mpr ⟨entry, found⟩, ?_⟩ label
        (touched.live peer label live)
      rw [removeEntry_peers, mem_erase]
      exact fun both => both.1 rfl
    · exact touched

theorem sweep (inside : Within (view.ledger set).spilled keys)
    (leaves : view.Leaves set (set.sweep now) keys) (fits : keys.card ≤ maxHighWater) :
    (view.ledger set).Advances (view.ledger (set.sweep now)) keys := by
  have touched : (view.ledger set).Advances (view.ledger (set.swept now)) keys := by
    refine view.retouch inside ⟨rfl, rfl, fun other => ?_⟩
    rw [swept, ExtTreeMap.getElem?_map, Option.map_map]
    rfl
  rw [sweep_eq]
  refine touched.trans (view.removeAll touched.within (fun peer leaving label live => ?_) fits)
  refine leaves peer ⟨?_, ?_⟩ label (touched.live peer label live)
  · obtain ⟨entry, found, -⟩ := mem_keysWhere.mp leaving
    have held : peer ∈ (set.swept now).peers := (mem_iff_get _ _).mpr ⟨entry, found⟩
    exact ExtTreeMap.mem_map.mp held
  · rw [sweep_eq, notMem_iff_get, foldl_removeEntry_get, if_pos leaving]

theorem evict (inside : Within (view.ledger set).spilled keys)
    (leaves : view.Leaves set (set.evictOne now trust incoming pinned).1 keys)
    (fits : keys.card ≤ maxHighWater) :
    (view.ledger set).Advances (view.ledger (set.evictOne now trust incoming pinned).1) keys := by
  rcases evictOne_exit set now trust incoming pinned with ⟨peer, chosen, left⟩ | ⟨-, kept⟩
  · rw [left] at leaves ⊢
    refine view.remove inside (leaves peer ⟨chosen.held, ?_⟩) fits
    rw [removeEntry_peers, mem_erase]
    exact fun both => both.1 rfl
  · rw [kept]
    exact .refl inside

inductive Based (set : CandidateSet) (seen : Observation)
    (keys : Finset (Owned TransportIdentity L)) : Bool → CandidateSet → Prop where
  | quiet (after : CandidateSet) (advances : (view.ledger set).Advances (view.ledger after) keys)
      (kept : ∀ (peer : TransportIdentity) entry, after.peers[peer]? = some entry →
        set.peers[peer]? = some entry) :
      Based set seen keys false after
  | stored (base : CandidateSet) (advances : (view.ledger set).Advances (view.ledger base) keys)
      (kept : ∀ (peer : TransportIdentity) entry, base.peers[peer]? = some entry →
        set.peers[peer]? = some entry)
      (leaves : (base.taken seen (set.isStale seen.candidate)).entry.addresses.isEmpty = true →
        seen.candidate.peerId ∈ set.peers) :
      Based set seen keys true (base.store seen (set.isStale seen.candidate))

theorem observe (bounded : set.peers.size ≤ maxCandidates)
    (inside : Within (view.ledger set).spilled keys)
    (leaves : view.Leaves set (set.observe seen) keys) (fits : keys.card ≤ maxHighWater) :
    view.Based set seen keys (set.applies seen) (set.observe seen) := by
  have exit : ObserveExit set seen (set.applies seen) (set.observe seen) := observe_exit bounded
  generalize set.observe seen = after at exit leaves ⊢
  generalize set.applies seen = applied at exit ⊢
  cases exit with
  | nothing why new => exact .quiet _ (.refl inside) fun _ _ found => found
  | refused new full unmoved =>
    exact .quiet _ (view.retouch inside ⟨rfl, rfl, fun _ => rfl⟩) fun _ _ found => found
  | stored room =>
    refine .stored _ (.refl inside) (fun _ _ found => found) fun emptied => ?_
    rcases room with held | ⟨useful, -⟩
    · exact held
    · by_contra absent
      rw [taken_new absent useful] at emptied
      cases emptied
  | replaced peer chosen new useful =>
    have left : Departed set ((set.removeEntry peer).countEvicted.store seen
        (set.isStale seen.candidate)) peer := by
      have differs : seen.candidate.peerId ≠ peer := by
        rintro rfl
        exact new chosen.held
      refine ⟨chosen.held, ?_⟩
      rw [notMem_iff_get, store_get, if_neg differs, countEvicted,
        removeEntry_peers, get_erase, if_pos rfl]
    have removed := view.remove inside (leaves peer left) fits
    have counted : (view.ledger set).Advances
        (view.ledger (set.removeEntry peer).countEvicted) keys :=
      removed.trans (view.retouch removed.within ⟨rfl, rfl, fun _ => rfl⟩)
    refine .stored _ counted (fun other entry found => ?_) fun emptied => ?_
    · rw [countEvicted, removeEntry_peers, get_erase] at found
      split at found
      · cases found
      · exact found
    · rw [taken_replaced new useful] at emptied
      cases emptied

theorem store {base : CandidateSet}
    (follows : (view.ledger (base.stored seen stale)).Follows heard keys)
    (leaves : (base.taken seen stale).entry.addresses.isEmpty = true →
      ∀ item ∈ heard, item.1.owner = seen.candidate.peerId → item.1 ∈ keys)
    (fits : keys.card ≤ maxHighWater) :
    (view.ledger (base.store seen stale)).Follows heard keys := by
  rw [store_eq]
  split
  next emptied =>
    refine follows.advance (view.remove follows.spilled (fun label live => ?_) fits)
    obtain ⟨item, listed, same⟩ := follows.spoken _ label live
    rw [← same]
    exact leaves emptied item listed (by rw [same])
  · exact follows

end View

end CandidateSet

end InterWeave.Discovery
