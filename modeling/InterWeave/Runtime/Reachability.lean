import InterWeave.Api.Identities
import InterWeave.Runtime.ReachabilityCore

/-!
What stands behind a verdict: the servers and reports that support every verified address
after any calls, and that the published horizon is the moment the support ends.
-/

namespace InterWeave.Reachability

open Std (ExtTreeMap)
open OrderedMap Saturating

variable {threshold : Nat} {previously : Bool}

section

variable {evidence : EvidenceMap} {address : String} {server : TransportIdentity}
  {entry : Evidence}

theorem mem_voices : (server, entry) ∈ voices evidence address ↔
    evidence[EvidenceKey.mk address server]? = some entry := by
  simp only [voices, List.mem_filterMap]
  constructor
  · rintro ⟨⟨key, held⟩, member, here⟩
    split at here
    next same =>
      cases here
      subst same
      exact ExtTreeMap.mem_toList_iff_getElem?_eq_some.mp member
    · cases here
  · intro found
    exact ⟨(⟨address, server⟩, entry),
      ExtTreeMap.mem_toList_iff_getElem?_eq_some.mpr found, by simp⟩

theorem nodup_voices (evidence : EvidenceMap) (address : String) :
    ((voices evidence address).map Prod.fst).Nodup := by
  rw [voices, List.Nodup, List.pairwise_map, List.pairwise_filterMap]
  refine evidence.distinct_keys_toList.imp ?_
  rintro ⟨first, one⟩ ⟨second, two⟩ distinct voice here other there same
  split at here
  next firstHere =>
    split at there
    next secondHere =>
      cases here
      cases there
      have keys : first = second :=
        EvidenceKey.ext (firstHere.trans secondHere.symm) same
      exact distinct (Std.LawfulEqCmp.compare_eq_iff_eq.mpr keys)
    · cases there
  · cases here

theorem mem_serversWhere :
    server ∈ serversWhere test (voices evidence address) ↔
      ∃ entry, evidence[EvidenceKey.mk address server]? = some entry ∧
        test entry = true := by
  simp only [serversWhere, List.mem_toFinset, List.mem_filterMap, Prod.exists]
  constructor
  · rintro ⟨other, entry, member, here⟩
    split at here
    next passes =>
      cases here
      exact ⟨entry, mem_voices.mp member, passes⟩
    · cases here
  · rintro ⟨entry, found, passes⟩
    exact ⟨server, entry, mem_voices.mpr found, by simp [passes]⟩

theorem card_serversWhere :
    (serversWhere test (voices evidence address)).card =
      (voices evidence address).countP fun voice => test voice.2 := by
  rw [serversWhere, List.toFinset_card_of_nodup, List.length_filterMap_eq_countP]
  · congr 1
    funext voice
    by_cases passes : test voice.2 = true <;> simp [passes]
  · have distinct := List.pairwise_map.mp (nodup_voices evidence address)
    refine List.pairwise_filterMap.mpr (distinct.imp ?_)
    intro first second apart one here two there
    split at here
    · split at there
      · cases here
        cases there
        exact apart
      · cases there
    · cases here

theorem length_quorumExpiries :
    (tally evidence ttl now address).quorumExpiries.length =
      (tally evidence ttl now address).sayingReachable.card +
        (tally evidence ttl now address).reversed.card := by
  have split : ∀ entry : Evidence, (if (entry.expiry ttl now).isSome then 1 else 0) =
      (if entry.saysReachable ttl now then 1 else 0) +
        (if entry.isReversed ttl now then 1 else 0) := by
    intro entry
    unfold Evidence.expiry Evidence.saysReachable Evidence.isReversed
    cases entry.freshSuccess ttl now <;> cases entry.freshFailure ttl now <;> simp
  simp only [tally, card_serversWhere, List.length_filterMap_eq_countP]
  induction voices evidence address with
  | nil => rfl
  | cons voice rest ih =>
    simp only [List.countP_cons, ih, split]
    omega

end

theorem voices_filter {β : Type} {evidence : EvidenceMap} {address : String}
    {keep : Evidence → Bool} {reads : TransportIdentity × Evidence → Option β}
    (dropped : ∀ voice, keep voice.2 = false → reads voice = none) :
    (voices (evidence.filter fun _ entry => keep entry) address).filterMap reads =
      (voices evidence address).filterMap reads := by
  simp only [voices, ExtTreeMap.toList_filter, List.filterMap_filterMap, List.filterMap_filter]
  congr 1
  funext entry
  by_cases kept : keep entry.2 = true
  · simp [kept]
  · simp only [kept, Bool.false_eq_true, if_false]
    split
    · exact (dropped _ (by simpa using kept)).symm
    · rfl

namespace Evidence

variable {entry : Evidence} {ttl now later : Nat}

theorem freshSuccess_later (order : now ≤ later) : entry.freshSuccess ttl later =
    (entry.freshSuccess ttl now).filter fun time => later < add64 time ttl := by
  unfold freshSuccess
  cases entry.successAtMs with
  | none => rfl
  | some time =>
    simp only [Option.filter]
    split <;> split <;> simp_all
    omega

theorem freshFailure_later (order : now ≤ later) : entry.freshFailure ttl later =
    (entry.freshFailure ttl now).filter fun time => later < add64 time ttl := by
  unfold freshFailure
  cases entry.failureAtMs with
  | none => rfl
  | some time =>
    simp only [Option.filter]
    split <;> split <;> simp_all
    omega

theorem expiry_later (order : now ≤ later) :
    entry.expiry ttl later = (entry.expiry ttl now).filter fun expiry => later < expiry := by
  unfold expiry
  rw [freshSuccess_later order]
  cases entry.freshSuccess ttl now with
  | none => rfl
  | some time =>
    simp only [Option.filter, Option.map_some]
    split <;> simp_all

theorem freshFailure_none_later (order : now ≤ later) (absent : entry.freshFailure ttl now = none) :
    entry.freshFailure ttl later = none := by
  rw [freshFailure_later order, absent]
  rfl

theorem stale_later (order : now ≤ later) (stale : entry.isFresh ttl now = false) :
    entry.freshSuccess ttl later = none ∧ entry.freshFailure ttl later = none := by
  simp only [isFresh, Bool.or_eq_false_iff, Option.isSome_eq_false_iff,
    Option.isNone_iff_eq_none] at stale
  refine ⟨?_, freshFailure_none_later order stale.2⟩
  rw [freshSuccess_later order, stale.1]
  rfl

def Ordered (entry : Evidence) : Prop :=
  ∀ success failure, entry.successAtMs = some success → entry.failureAtMs = some failure →
    success ≤ failure

theorem Ordered.saysReachable_iff (ordered : entry.Ordered) :
    entry.saysReachable ttl now = true ↔
      (entry.freshSuccess ttl now).isSome = true ∧ entry.failureAtMs = none := by
  simp only [saysReachable, Bool.and_eq_true, Option.isNone_iff_eq_none]
  refine and_congr_right fun fresh => ?_
  constructor
  · intro noFresh
    cases failed : entry.failureAtMs with
    | none => rfl
    | some failure =>
      obtain ⟨success, found⟩ := Option.isSome_iff_exists.mp fresh
      have held := Option.eq_some_of_filter_eq_some found
      have before := ordered success failure held failed
      have counts : now < add64 success ttl := by
        simpa [freshSuccess, held, Option.filter] using found
      have still := lt_of_lt_of_le counts (add64_le_add64 before ttl)
      simp [freshFailure, failed, Option.filter, still] at noFresh
  · intro none
    simp [freshFailure, none]

theorem Ordered.saysReachable_later (ordered : entry.Ordered) (order : now ≤ later) :
    (if entry.saysReachable ttl later then entry.expiry ttl later else none) =
      (if entry.saysReachable ttl now then entry.expiry ttl now else none).filter
        fun expiry => later < expiry := by
  have same : entry.failureAtMs = none →
      (entry.saysReachable ttl later = (entry.freshSuccess ttl later).isSome ∧
        entry.saysReachable ttl now = (entry.freshSuccess ttl now).isSome) := by
    intro none
    constructor
    · simp [saysReachable, freshFailure, none]
    · simp [saysReachable, freshFailure, none]
  cases failed : entry.failureAtMs with
  | none =>
    obtain ⟨atLater, atNow⟩ := same failed
    rw [atLater, atNow, expiry_later order]
    cases success : entry.freshSuccess ttl now with
    | none => simp [expiry, success]
    | some time =>
      rw [freshSuccess_later order, success]
      simp only [Option.filter, expiry, success, Option.map_some]
      split <;> simp_all
  | some failure =>
    have never : ∀ time, entry.saysReachable ttl time = false := by
      intro time
      by_contra reachable
      have unfailed := ordered.saysReachable_iff.mp (Bool.not_eq_false _ ▸ reachable)
      rw [failed] at unfailed
      cases unfailed.2
    simp [never]

end Evidence

section

variable {evidence : EvidenceMap} {ttl now later : Nat}

theorem tally_filter_fresh (order : now ≤ later) :
    tally (evidence.filter fun _ entry => entry.isFresh ttl now) ttl later address =
      tally evidence ttl later address := by
  have kept : ∀ {β : Type} (reads : TransportIdentity × Evidence → Option β),
      (∀ voice, voice.2.freshSuccess ttl later = none → voice.2.freshFailure ttl later = none →
        reads voice = none) →
      (voices (evidence.filter fun _ entry => entry.isFresh ttl now) address).filterMap reads =
        (voices evidence address).filterMap reads := by
    intro β reads silent
    refine voices_filter fun voice stale => ?_
    obtain ⟨noSuccess, noFailure⟩ := Evidence.stale_later order stale
    exact silent voice noSuccess noFailure
  unfold tally serversWhere
  congr 1
  · rw [kept]
    intro voice noSuccess _
    simp [Evidence.saysReachable, noSuccess]
  · rw [kept]
    intro voice noSuccess _
    simp [Evidence.isReversed, noSuccess]
  · rw [kept]
    intro voice _ noFailure
    simp [Evidence.saysUnreachable, noFailure]
  · rw [kept]
    intro voice noSuccess _
    simp [Evidence.saysReachable, noSuccess]
  · rw [kept]
    intro voice noSuccess _
    simp [Evidence.expiry, noSuccess]

theorem quorumExpiries_later (order : now ≤ later) :
    (tally evidence ttl later address).quorumExpiries =
      (tally evidence ttl now address).quorumExpiries.filter fun expiry => later < expiry := by
  simp only [tally, List.filter_filterMap]
  congr 1
  funext voice
  exact Evidence.expiry_later order

theorem sayingUnreachable_later (order : now ≤ later) :
    (tally evidence ttl later address).sayingUnreachable ⊆
      (tally evidence ttl now address).sayingUnreachable := by
  intro server member
  simp only [tally, mem_serversWhere, Evidence.saysUnreachable] at member ⊢
  obtain ⟨entry, found, fresh⟩ := member
  refine ⟨entry, found, ?_⟩
  by_contra absent
  rw [Option.not_isSome_iff_eq_none] at absent
  rw [Evidence.freshFailure_none_later order absent] at fresh
  cases fresh

def Sound (evidence : EvidenceMap) : Prop :=
  ∀ (key : EvidenceKey) entry, evidence[key]? = some entry → entry.Ordered

theorem sayingReachable_later (sound : Sound evidence) (order : now ≤ later) :
    (tally evidence ttl later address).sayingReachable ≠ ∅ ↔
      later < (tally evidence ttl now address).lastUncontradicted := by
  have expiries : (voices evidence address).filterMap (fun voice =>
      if voice.2.saysReachable ttl later then voice.2.expiry ttl later else none) =
      ((voices evidence address).filterMap fun voice =>
        if voice.2.saysReachable ttl now then voice.2.expiry ttl now else none).filter
          fun expiry => later < expiry := by
    rw [List.filter_filterMap]
    refine List.filterMap_congr fun voice member => ?_
    exact (sound _ _ (mem_voices.mp member)).saysReachable_later order
  have some : (tally evidence ttl later address).sayingReachable ≠ ∅ ↔
      (voices evidence address).filterMap (fun voice =>
        if voice.2.saysReachable ttl later then voice.2.expiry ttl later else none) ≠ [] := by
    rw [← Finset.nonempty_iff_ne_empty, ← List.length_pos_iff, ← Finset.card_pos]
    simp only [tally, card_serversWhere, List.length_filterMap_eq_countP]
    have same : ∀ entry : Evidence,
        (if entry.saysReachable ttl later then entry.expiry ttl later else none).isSome =
          entry.saysReachable ttl later := by
      intro entry
      unfold Evidence.expiry Evidence.saysReachable
      cases entry.freshSuccess ttl later <;> cases entry.freshFailure ttl later <;> simp
    simp only [same]
  rw [some, expiries, tally, OrderStat.lt_foldl_max_iff]
  simp only [ne_eq, List.filter_eq_nil_iff, decide_eq_true_eq, not_forall, not_not,
    Nat.not_lt_zero, false_or, exists_prop]

end

theorem Tally.isVerified_iff (tally : Tally) (threshold : Nat) (previously : Bool) :
    tally.isVerified threshold previously = true ↔
      (threshold ≤ tally.sayingReachable.card ∨
        previously = true ∧ tally.sayingReachable ≠ ∅ ∧
          threshold ≤ tally.sayingReachable.card + tally.reversed.card) ∧
      tally.sayingUnreachable.card < 2 := by
  simp [Tally.isVerified]

theorem Tally.isVerified_quorum {tally : Tally} (positive : 0 < threshold)
    (verified : tally.isVerified threshold previously = true) :
    tally.sayingReachable ≠ ∅ ∧
      threshold ≤ tally.sayingReachable.card + tally.reversed.card ∧
      tally.sayingUnreachable.card < 2 := by
  obtain ⟨meets | ⟨-, some, quorum⟩, few⟩ := (tally.isVerified_iff threshold previously).mp verified
  · refine ⟨?_, by omega, few⟩
    intro none
    rw [none, Finset.card_empty] at meets
    omega
  · exact ⟨some, quorum, few⟩

theorem Tally.isVerified_previously {tally : Tally} (positive : 0 < threshold)
    (verified : tally.isVerified threshold previously = true) :
    tally.isVerified threshold true = true := by
  obtain ⟨some, enough, few⟩ := Tally.isVerified_quorum positive verified
  exact (Tally.isVerified_iff _ _ _).mpr ⟨.inr ⟨rfl, some, enough⟩, few⟩

theorem verified_later_iff (sound : Sound evidence) (positive : 0 < threshold) (order : now ≤ later)
    (verified : (tally evidence ttl now address).isVerified threshold previously = true) :
    (tally evidence ttl later address).isVerified threshold true = true ↔
      later < (tally evidence ttl now address).horizon threshold := by
  obtain ⟨-, quorum, few⟩ := Tally.isVerified_quorum positive verified
  rw [← length_quorumExpiries] at quorum
  have count : later < OrderStat.nthLargest (tally evidence ttl now address).quorumExpiries
      (min threshold (tally evidence ttl now address).quorumExpiries.length) ↔
      threshold ≤ (tally evidence ttl later address).sayingReachable.card +
        (tally evidence ttl later address).reversed.card := by
    rw [min_eq_left quorum, OrderStat.lt_nthLargest_iff positive quorum, ← length_quorumExpiries,
      quorumExpiries_later order, OrderStat.countAbove, List.countP_eq_length_filter]
  have spoken : (tally evidence ttl later address).sayingReachable ≠ ∅ ↔ _ :=
    sayingReachable_later sound order
  have fewer : (tally evidence ttl later address).sayingUnreachable.card < 2 :=
    lt_of_le_of_lt (Finset.card_le_card (sayingUnreachable_later order)) few
  rw [Tally.horizon, lt_min_iff, count, ← spoken]
  constructor
  · intro still
    obtain ⟨some, enough, -⟩ := Tally.isVerified_quorum positive still
    exact ⟨enough, some⟩
  · rintro ⟨enough, some⟩
    exact (Tally.isVerified_iff _ _ _).mpr ⟨.inr ⟨rfl, some, enough⟩, fewer⟩

namespace Manager

variable {manager : Manager} {now : Nat} {address : String}

variable {verified : List String}

theorem mem_derive : address ∈ (manager.derive now).verifiedAddresses ↔
    address ∈ manager.candidates ∧ manager.isVerifiedAt now address = true := by
  rw [← List.mem_filter (p := fun address => manager.isVerifiedAt now address)]
  unfold derive
  simp only
  split
  · rfl
  next none =>
    rw [not_not.mp none]
    split <;> rfl

theorem mem_rederived : address ∈ (manager.rederived now).state.verifiedAddresses ↔
    address ∈ manager.candidates ∧
      ((manager.rederived now).tallyOf now address).isVerified
        manager.config.requiredDistinctSuccesses
        (address ∈ manager.state.verifiedAddresses) = true :=
  mem_derive

def expireAll (manager : Manager) (times : List Nat) : Manager :=
  times.foldl (fun state time => (state.expireEvidence time).1) manager

structure Aged (start : Manager) (now : Nat) (manager : Manager) : Prop where
  config : manager.config = start.config
  candidates : manager.candidates = start.candidates
  counts : ∀ later, now ≤ later → ∀ address, manager.tallyOf later address =
    start.tallyOf later address

theorem Aged.refl (manager : Manager) (now : Nat) : Aged manager now manager :=
  ⟨rfl, rfl, fun _ _ _ => rfl⟩

theorem Aged.rederived (aged : Aged start before manager) (order : before ≤ now) :
    Aged start now (manager.rederived now) := by
  refine ⟨aged.config, aged.candidates, fun later after address => ?_⟩
  rw [← aged.counts later (le_trans order after) address]
  exact tally_filter_fresh after

theorem horizon_le_u64Max : (manager.tallyOf now address).horizon threshold ≤ u64Max := by
  refine le_trans (Nat.min_le_right _ _) ?_
  by_contra above
  obtain impossible | ⟨expiry, member, large⟩ :=
    (OrderStat.lt_foldl_max_iff _ _ _).mp (not_le.mp above)
  · exact absurd impossible (Nat.not_lt_zero _)
  · simp only [List.mem_filterMap, Evidence.expiry] at member
    obtain ⟨voice, -, here⟩ := member
    split at here
    · obtain ⟨time, -, rfl⟩ := Option.map_eq_some_iff.mp here
      exact absurd large (not_lt.mpr (Nat.min_le_right _ _))
    · cases here

theorem derive_verified (verdict : manager.derive now = .verifiedPublic verified horizonMs) :
    (∀ address ∈ verified,
      (manager.tallyOf now address).isVerified manager.config.requiredDistinctSuccesses
        (address ∈ manager.state.verifiedAddresses) = true ∧
      horizonMs ≤ (manager.tallyOf now address).horizon manager.config.requiredDistinctSuccesses) ∧
    ∃ address ∈ verified,
      (manager.tallyOf now address).horizon manager.config.requiredDistinctSuccesses =
        horizonMs := by
  unfold derive at verdict
  simp only at verdict
  split at verdict
  next nonempty =>
    injection verdict with sameList sameUntil
    subst sameList sameUntil
    refine ⟨fun address member => ⟨(List.mem_filter.mp member).2, ?_⟩, ?_⟩
    · by_contra later
      have least := ((OrderStat.lt_foldl_min_iff _ _ _).mp (not_le.mp later)).2 _
        (List.mem_map_of_mem member)
      exact lt_irrefl _ least
    · refine List.mem_map.mp (OrderStat.foldl_min_mem (mt List.map_eq_nil_iff.mp nonempty) ?_)
      intro expiry member
      obtain ⟨address, -, rfl⟩ := List.mem_map.mp member
      exact horizon_le_u64Max
  · split at verdict <;> cases verdict

theorem expireAll_keeps (known : ∀ address ∈ verified, address ∈ start.candidates)
    (holds : ∀ address ∈ verified, ∀ time, now ≤ time → time < bound →
      (start.tallyOf time address).isVerified start.config.requiredDistinctSuccesses true = true)
    (times : List Nat) (state : Manager) (before : Nat) (aged : Aged start before state)
    (kept : ∀ address ∈ verified, address ∈ state.state.verifiedAddresses) (started : now ≤ before)
    (ended : before ≤ bound) (ordered : times.Pairwise (· ≤ ·))
    (between : ∀ time ∈ times, before ≤ time ∧ time < bound) :
    ∃ latest, latest ≤ bound ∧ Aged start latest (state.expireAll times) ∧
      ∀ address ∈ verified, address ∈ (state.expireAll times).state.verifiedAddresses := by
  induction times generalizing state before with
  | nil => exact ⟨before, ended, aged, kept⟩
  | cons time rest ih =>
    have here := between time List.mem_cons_self
    have next := aged.rederived here.1
    have later := List.pairwise_cons.mp ordered
    refine ih (state.rederived time) time next (fun address member => ?_)
      (le_trans started here.1) here.2.le later.2 fun other otherIn =>
        ⟨later.1 other otherIn, (between other (List.mem_cons_of_mem time otherIn)).2⟩
    refine mem_rederived.mpr ⟨?_, ?_⟩
    · rw [aged.candidates]
      exact known address member
    · rw [next.counts time le_rfl, aged.config, decide_eq_true (kept address member)]
      exact holds address member time (le_trans started here.1) here.2

theorem rederived_horizon (sound : Sound manager.evidence)
    (positive : 0 < manager.config.requiredDistinctSuccesses)
    (verdict : (manager.rederived now).state = .verifiedPublic verified horizonMs)
    {times : List Nat} (ordered : times.Pairwise (· ≤ ·)) (later : ∀ time ∈ times, now ≤ time)
    (early : ∀ time ∈ times, time < horizonMs) :
    (∀ address ∈ verified,
      address ∈ ((manager.rederived now).expireAll times).state.verifiedAddresses) ∧
    ∃ address ∈ verified, address ∉
      (((manager.rederived now).expireAll times).expireEvidence
        horizonMs).1.state.verifiedAddresses := by
  have pruned : Sound (manager.rederived now).evidence := by
    intro key entry found
    simp only [rederived, prune, ExtTreeMap.getElem?_filter'] at found
    exact sound key entry (Option.eq_some_of_filter_eq_some found)
  obtain ⟨judged, last, lastIn, lastHorizon⟩ := derive_verified verdict
  have candidate : ∀ address ∈ verified, address ∈ (manager.rederived now).candidates := by
    intro address member
    have listed : address ∈ (manager.rederived now).state.verifiedAddresses := by
      rw [verdict]
      exact member
    exact (mem_rederived.mp listed).1
  have holds : ∀ address ∈ verified, ∀ time, now ≤ time →
      (((manager.rederived now).tallyOf time address).isVerified
        manager.config.requiredDistinctSuccesses true = true ↔
      time < ((manager.rederived now).tallyOf now address).horizon
        manager.config.requiredDistinctSuccesses) :=
    fun address member time after =>
      verified_later_iff pruned positive after (judged address member).1
  have future : now < horizonMs := by
    rw [← lastHorizon]
    exact (holds last lastIn now le_rfl).mp
      (Tally.isVerified_previously positive (judged last lastIn).1)
  have listed : ∀ address ∈ verified,
      address ∈ (manager.rederived now).state.verifiedAddresses := by
    intro address member
    rw [verdict]
    exact member
  obtain ⟨latest, ended, aged, kept⟩ := expireAll_keeps candidate
    (fun address member time after before => (holds address member time after).mpr
      (lt_of_lt_of_le before (judged address member).2))
    times (manager.rederived now) now (.refl _ now) listed le_rfl future.le ordered
    fun time member => ⟨later time member, early time member⟩
  refine ⟨kept, last, lastIn, fun still => ?_⟩
  have verdictThen := (mem_rederived.mp still).2
  rw [(aged.rederived ended).counts horizonMs le_rfl, aged.config] at verdictThen
  have beyond := (holds last lastIn horizonMs future.le).mp
    (Tally.isVerified_previously positive verdictThen)
  exact lt_irrefl _ (lt_of_lt_of_eq beyond lastHorizon)

end Manager

structure Grounded (run : Run) : Prop where
  positive : 0 < run.manager.config.requiredDistinctSuccesses
  sound : Sound run.manager.evidence
  pairs : ∀ (key : EvidenceKey) entry, run.manager.evidence[key]? = some entry →
    key.address ∈ run.manager.candidates ∧ key.server ∈ run.manager.servers
  words : ∀ (key : EvidenceKey) entry, run.manager.evidence[key]? = some entry →
    ∃ report, run.lastWord key.address key.server = some report ∧
      (entry.failureAtMs = none → report.outcome = .reachable ∧
        entry.successAtMs = some report.time)
  successes : ∀ (key : EvidenceKey) entry time, run.manager.evidence[key]? = some entry →
    entry.successAtMs = some time → ⟨key.address, key.server, .reachable, time⟩ ∈ run.reports
  failures : ∀ (key : EvidenceKey) report, run.lastWord key.address key.server = some report →
    report.outcome = .unreachable →
    run.clock < add64 report.time run.manager.config.successEvidenceTtlMs →
      ∃ entry failure, run.manager.evidence[key]? = some entry ∧
        entry.failureAtMs = some failure ∧ report.time ≤ failure

theorem lastWord_filter {run : Run} {only : EvidenceKey → Bool} {key : EvidenceKey}
    (kept : only key = true) :
    { run with reports := run.reports.filter fun report => only ⟨report.address, report.server⟩
      }.lastWord key.address key.server = run.lastWord key.address key.server := by
  simp only [Run.lastWord, List.find?_filter]
  congr 1
  funext report
  by_cases same : report.address = key.address ∧ report.server = key.server
  · simp [same, kept]
  · simp [same]

/-- Evidence and reports of some pairs are withdrawn together. -/
theorem Grounded.restrict (grounded : Grounded run) (only : EvidenceKey → Bool)
    (config : manager.config = run.manager.config)
    (kept : ∀ key : EvidenceKey, manager.evidence[key]? =
      if only key then run.manager.evidence[key]? else none)
    (pairs : ∀ (key : EvidenceKey) entry, manager.evidence[key]? = some entry →
      key.address ∈ manager.candidates ∧ key.server ∈ manager.servers)
    (standing : reports = run.reports.filter fun report => only ⟨report.address, report.server⟩) :
    Grounded ⟨manager, reports, run.clock⟩ := by
  subst standing
  have before : ∀ {key : EvidenceKey} {entry : Evidence}, manager.evidence[key]? = some entry →
      only key = true ∧ run.manager.evidence[key]? = some entry := by
    intro key entry held
    rw [kept] at held
    split at held
    next passes => exact ⟨passes, held⟩
    · cases held
  refine ⟨config ▸ grounded.positive,
    fun key entry held => grounded.sound key entry (before held).2,
    pairs, fun key entry held => ?_, fun key entry time held success => ?_,
    fun key report last said fresh => ?_⟩
  · obtain ⟨report, last, standing⟩ := grounded.words key entry (before held).2
    exact ⟨report, (lastWord_filter (before held).1).trans last, standing⟩
  · exact List.mem_filter.mpr
      ⟨grounded.successes key entry time (before held).2 success, (before held).1⟩
  · have passes : only key = true := by
      have here := List.find?_some last
      have among := (List.mem_filter.mp (List.mem_of_find?_eq_some last)).2
      simp only [decide_eq_true_eq] at here
      rwa [here.1, here.2] at among
    rw [config] at fresh
    rw [kept, if_pos passes]
    exact grounded.failures key report ((lastWord_filter passes).symm.trans last) said fresh

theorem Grounded.rederived (grounded : Grounded run) (now : Nat) :
    Grounded ⟨run.manager.rederived now, run.reports, max run.clock now⟩ := by
  have before : ∀ {key : EvidenceKey} {entry : Evidence},
      (run.manager.rederived now).evidence[key]? = some entry →
        run.manager.evidence[key]? = some entry := by
    intro key entry held
    simp only [Manager.rederived, Manager.prune, ExtTreeMap.getElem?_filter'] at held
    exact Option.eq_some_of_filter_eq_some held
  refine ⟨grounded.positive, fun key entry held => grounded.sound key entry (before held),
    fun key entry held => grounded.pairs key entry (before held),
    fun key entry held => grounded.words key entry (before held),
    fun key entry time held => grounded.successes key entry time (before held),
    fun key report last said fresh => ?_⟩
  obtain ⟨early, present⟩ := max_lt_iff.mp fresh
  obtain ⟨entry, failure, found, failed, after⟩ := grounded.failures key report last said early
  have still : now < add64 failure run.manager.config.successEvidenceTtlMs :=
    lt_of_lt_of_le present (add64_le_add64 after _)
  refine ⟨entry, failure, ?_, failed, after⟩
  simp only [Manager.rederived, Manager.prune, ExtTreeMap.getElem?_filter', found,
    Option.filter_eq_some_iff, Evidence.isFresh, Evidence.freshFailure, failed, true_and]
  simp [still]

theorem Grounded.withCandidates (grounded : Grounded run) (intake : Manager.Intake) :
    Grounded ⟨run.manager.withCandidates intake,
      run.reports.filter fun report => report.address ∈ intake.accepted, run.clock⟩ := by
  have kept : ∀ key : EvidenceKey, (run.manager.withCandidates intake).evidence[key]? =
      if decide (key.address ∈ intake.accepted) then run.manager.evidence[key]? else none := by
    intro key
    simp only [Manager.withCandidates, ExtTreeMap.getElem?_filter']
    cases run.manager.evidence[key]? <;> simp [Option.filter]
  refine grounded.restrict (fun key => decide (key.address ∈ intake.accepted)) rfl kept ?_ rfl
  intro key entry held
  rw [kept] at held
  split at held
  next passes => exact ⟨of_decide_eq_true passes, (grounded.pairs key entry held).2⟩
  · cases held

theorem Grounded.withoutServer (grounded : Grounded run) (server : TransportIdentity) :
    Grounded ⟨run.manager.withoutServer server,
      run.reports.filter fun report => report.server ≠ server, run.clock⟩ := by
  have kept : ∀ key : EvidenceKey, (run.manager.withoutServer server).evidence[key]? =
      if decide (key.server ≠ server) then run.manager.evidence[key]? else none := by
    intro key
    simp only [Manager.withoutServer, ExtTreeMap.getElem?_filter']
    cases run.manager.evidence[key]? <;> simp [Option.filter]
  refine grounded.restrict (fun key => decide (key.server ≠ server)) rfl kept ?_ rfl
  intro key entry held
  rw [kept] at held
  split at held
  next passes =>
    have pair := grounded.pairs key entry held
    exact ⟨pair.1, (mem_erase _ _ _).mpr ⟨of_decide_eq_true passes, pair.2⟩⟩
  · cases held

theorem Evidence.heard_ordered {entry : Evidence} {now : Nat} :
    (entry.heard outcome now).Ordered := by
  intro success failure hasSuccess hasFailure
  cases outcome with
  | reachable => cases hasFailure
  | unreachable =>
    simp only [Evidence.heard] at hasSuccess hasFailure
    rw [hasSuccess] at hasFailure
    cases hasFailure
    exact le_max_left _ _

theorem Grounded.hear (grounded : Grounded run) (tracked : address ∈ run.manager.candidates)
    (offered : server ∈ run.manager.servers) (outcome : ProbeOutcome) (now : Nat) :
    Grounded ⟨run.manager.hear address server outcome now,
      ⟨address, server, outcome, now⟩ :: run.reports, run.clock⟩ := by
  have others : ∀ {key : EvidenceKey}, EvidenceKey.mk address server ≠ key →
      Run.lastWord ⟨run.manager.hear address server outcome now,
        ⟨address, server, outcome, now⟩ :: run.reports, run.clock⟩ key.address key.server =
      run.lastWord key.address key.server := by
    intro key other
    have apart : ¬(address = key.address ∧ server = key.server) :=
      fun same => other (EvidenceKey.ext same.1 same.2)
    simp only [Run.lastWord, List.find?_cons, apart, decide_false]
  refine ⟨grounded.positive, fun key entry held => ?_, fun key entry held => ?_,
    fun key entry held => ?_, fun key entry time held success => ?_,
    fun key report last said fresh => ?_⟩
  · simp only [Manager.hear, get_insert] at held
    split at held
    · cases held
      exact Evidence.heard_ordered
    · exact grounded.sound key entry held
  · simp only [Manager.hear, get_insert] at held
    split at held
    next same =>
      subst same
      exact ⟨tracked, offered⟩
    · exact grounded.pairs key entry held
  · simp only [Manager.hear, get_insert] at held
    split at held
    next same =>
      subst same
      cases held
      refine ⟨⟨address, server, outcome, now⟩, by simp [Run.lastWord], fun unfailed => ?_⟩
      cases outcome with
      | reachable => exact ⟨rfl, rfl⟩
      | unreachable => cases unfailed
    next other =>
      obtain ⟨report, last, standing⟩ := grounded.words key entry held
      exact ⟨report, (others other).trans last, standing⟩
  · simp only [Manager.hear, get_insert] at held
    split at held
    next same =>
      subst same
      cases held
      cases outcome with
      | reachable =>
        cases success
        exact List.mem_cons_self
      | unreachable =>
        cases found : run.manager.evidence[EvidenceKey.mk address server]? with
        | none => simp [Evidence.heard, found] at success
        | some earlier =>
          simp only [Evidence.heard, found, Option.getD_some] at success
          exact List.mem_cons_of_mem _ (grounded.successes _ earlier time found success)
    · exact List.mem_cons_of_mem _ (grounded.successes key entry time held success)
  · by_cases same : EvidenceKey.mk address server = key
    · subst same
      simp only [Run.lastWord, List.find?_cons, and_self, decide_true] at last
      cases last
      cases said
      refine ⟨_, _, (get_insert _ _ _ _).trans (if_pos rfl), rfl, ?_⟩
      split
      · exact le_max_right _ _
      · exact le_rfl
    · rw [others same] at last
      simp only [Manager.hear, get_insert, if_neg same]
      exact grounded.failures key report last said fresh

theorem step_derives (grounded : Grounded run) (derives : call.derivesAt run.manager = some now) :
    ∃ edited reports, run.step text call =
        ⟨Manager.rederived edited now, reports, max run.clock now⟩ ∧
      edited.state = run.manager.state ∧ edited.config = run.manager.config ∧
      Grounded ⟨edited, reports, run.clock⟩ := by
  cases call with
  | setCandidates addresses time =>
    cases derives
    exact ⟨_, _, rfl, rfl, rfl, grounded.withCandidates _⟩
  | removeServer server time =>
    cases derives
    exact ⟨_, _, rfl, rfl, rfl, grounded.withoutServer server⟩
  | expireEvidence time =>
    cases derives
    exact ⟨_, _, rfl, rfl, rfl, grounded⟩
  | recordOutcome address server outcome time =>
    simp only [Call.derivesAt] at derives
    split at derives
    next known =>
      cases derives
      refine ⟨run.manager.hear address server outcome now, _, ?_, rfl, rfl,
        grounded.hear known.2 known.1 outcome now⟩
      simp [Run.step, Manager.recordOutcome, known, Manager.rederive]
    · cases derives
  | addServer | networkChanged => cases derives

theorem Grounded.step (grounded : Grounded run) (text : Ip.Text) (call : Call) :
    Grounded (run.step text call) := by
  cases derives : call.derivesAt run.manager with
  | some now =>
    obtain ⟨edited, reports, after, -, -, edit⟩ := step_derives grounded derives
    rw [after]
    exact edit.rederived now
  | none =>
    cases call with
    | setCandidates | removeServer | expireEvidence => cases derives
    | recordOutcome address server outcome time =>
      simp only [Call.derivesAt] at derives
      split at derives
      · cases derives
      next unknown =>
        rw [not_and_or] at unknown
        by_cases offered : server ∈ run.manager.servers
        · simpa [Run.step, Manager.recordOutcome, offered,
            unknown.resolve_left (not_not.mpr offered)] using grounded
        · simpa [Run.step, Manager.recordOutcome, offered] using grounded
    | addServer server source =>
      simp only [Run.step, Manager.addServer]
      split
      · exact grounded
      · refine grounded.restrict (fun _ => true) rfl (fun _ => rfl) (fun key entry held => ?_)
          (by simp)
        have pair := grounded.pairs key entry held
        exact ⟨pair.1, (mem_insert _ _ _ _).mpr (.inr pair.2)⟩
    | networkChanged =>
      have nothing : ∀ key : EvidenceKey, (∅ : EvidenceMap)[key]? = none := fun _ =>
        ExtTreeMap.getElem?_empty
      refine grounded.restrict (fun _ => false) rfl nothing (fun key entry held => ?_) (by simp)
      cases (nothing key).symm.trans held

theorem Grounded.new (built : Manager.new config = .ok manager) :
    Grounded { manager := manager } := by
  unfold Manager.new at built
  split at built
  · cases built
  next positive =>
    split at built
    · cases built
    · cases built
      have nothing : ∀ (key : EvidenceKey) entry,
          (∅ : EvidenceMap)[key]? = some entry → False := by
        intro key entry held
        cases (ExtTreeMap.getElem?_empty (a := key)).symm.trans held
      exact ⟨Nat.pos_of_ne_zero positive, fun key entry held => (nothing key entry held).elim,
        fun key entry held => (nothing key entry held).elim,
        fun key entry held => (nothing key entry held).elim,
        fun key entry _ held => (nothing key entry held).elim, nofun⟩

theorem runCalls_grounded (text : Ip.Text) (built : Manager.new config = .ok manager)
    (calls : List Call) :
    Grounded (Run.runCalls text manager calls) :=
  List.foldlRecOn calls (motive := Grounded) (Run.step text) (.new built)
    fun _ grounded call _ => grounded.step text call

namespace Run

variable (run : Run) (now : Nat) (address : String)

def heardReachable : Finset TransportIdentity :=
  run.manager.servers.keys.toFinset.filter fun server =>
    run.reports.any fun report => report.address = address ∧ report.server = server ∧
      report.outcome = .reachable ∧
        now < add64 report.time run.manager.config.successEvidenceTtlMs

def stillReachable : Finset TransportIdentity :=
  run.manager.servers.keys.toFinset.filter fun server =>
    (run.lastWord address server).any fun report => report.outcome = .reachable ∧
      now < add64 report.time run.manager.config.successEvidenceTtlMs

def stillUnreachable : Finset TransportIdentity :=
  run.manager.servers.keys.toFinset.filter fun server =>
    (run.lastWord address server).any fun report => report.outcome = .unreachable ∧
      run.clock < add64 report.time run.manager.config.successEvidenceTtlMs

end Run

/-- What the standing reports of offered servers say for a verified address. -/
structure Supported (run : Run) (now : Nat) (address : String) : Prop where
  candidate : address ∈ run.manager.candidates
  quorum : run.manager.config.requiredDistinctSuccesses ≤ (run.heardReachable now address).card
  spoken : ∃ server ∈ run.heardReachable now address, server ∈ run.stillReachable now address
  dissent : (run.stillUnreachable address).card < 2

section

variable {run : Run} {now : Nat} {address : String}

theorem Grounded.heardReachable (grounded : Grounded run)
    (found : run.manager.evidence[EvidenceKey.mk address server]? = some entry)
    (fresh : (entry.freshSuccess run.manager.config.successEvidenceTtlMs now).isSome = true) :
    server ∈ run.heardReachable now address := by
  cases success : entry.successAtMs with
  | none => simp [Evidence.freshSuccess, success] at fresh
  | some time =>
    have later : now < add64 time run.manager.config.successEvidenceTtlMs := by
      simpa [Evidence.freshSuccess, success, Option.isSome_filter] using fresh
    have reported := grounded.successes _ entry time found success
    simp only [Run.heardReachable, Finset.mem_filter, List.mem_toFinset, ExtTreeMap.mem_keys,
      List.any_eq_true, decide_eq_true_eq]
    exact ⟨(grounded.pairs _ _ found).2, _, reported, rfl, rfl, rfl, later⟩

theorem Grounded.stillReachable (grounded : Grounded run) :
    (run.manager.tallyOf now address).sayingReachable ⊆ run.stillReachable now address := by
  intro server member
  obtain ⟨entry, found, reachable⟩ := mem_serversWhere.mp member
  obtain ⟨fresh, unfailed⟩ := (grounded.sound _ _ found).saysReachable_iff.mp reachable
  obtain ⟨report, last, standing⟩ := grounded.words _ _ found
  obtain ⟨said, time⟩ := standing unfailed
  simp only [Run.stillReachable, Finset.mem_filter, List.mem_toFinset, ExtTreeMap.mem_keys,
    Option.any_eq_true, decide_eq_true_eq]
  refine ⟨(grounded.pairs _ _ found).2, report, last, said, ?_⟩
  simp only [Evidence.freshSuccess, time, Option.isSome_filter, Option.any_some,
    decide_eq_true_eq] at fresh
  exact fresh

theorem Grounded.stillUnreachable (grounded : Grounded run) (told : now ≤ run.clock) :
    run.stillUnreachable address ⊆ (run.manager.tallyOf now address).sayingUnreachable := by
  intro server member
  simp only [Run.stillUnreachable, Finset.mem_filter, Option.any_eq_true,
    decide_eq_true_eq] at member
  obtain ⟨-, report, last, said, fresh⟩ := member
  obtain ⟨entry, failure, found, failed, after⟩ :=
    grounded.failures ⟨address, server⟩ report last said fresh
  have later : now < add64 failure run.manager.config.successEvidenceTtlMs :=
    lt_of_le_of_lt told (lt_of_lt_of_le fresh (add64_le_add64 after _))
  refine mem_serversWhere.mpr ⟨entry, found, ?_⟩
  simp [Evidence.saysUnreachable, Evidence.freshFailure, failed, Option.isSome_filter, later]

theorem Grounded.supported (grounded : Grounded run) (told : now ≤ run.clock)
    (candidate : address ∈ run.manager.candidates)
    (verified : (run.manager.tallyOf now address).isVerified
      run.manager.config.requiredDistinctSuccesses previously = true) :
    Supported run now address := by
  obtain ⟨some, quorum, few⟩ := Tally.isVerified_quorum grounded.positive verified
  have successes : (run.manager.tallyOf now address).sayingReachable ∪
      (run.manager.tallyOf now address).reversed ⊆ run.heardReachable now address := by
    intro server member
    rcases Finset.mem_union.mp member with here | here <;>
      obtain ⟨entry, found, passes⟩ := mem_serversWhere.mp here
    · exact grounded.heardReachable found (Bool.and_eq_true_iff.mp passes).1
    · exact grounded.heardReachable found (Bool.and_eq_true_iff.mp passes).1
  have apart : Disjoint (run.manager.tallyOf now address).sayingReachable
      (run.manager.tallyOf now address).reversed := by
    refine Finset.disjoint_left.mpr fun server reachable reversed => ?_
    obtain ⟨entry, found, passes⟩ := mem_serversWhere.mp reachable
    obtain ⟨other, foundToo, alsoPasses⟩ := mem_serversWhere.mp reversed
    cases found.symm.trans foundToo
    have unfailed := (Bool.and_eq_true_iff.mp passes).2
    have failed := (Bool.and_eq_true_iff.mp alsoPasses).2
    rw [Option.isNone_iff_eq_none] at unfailed
    rw [unfailed] at failed
    cases failed
  refine ⟨candidate, ?_, ?_, ?_⟩
  · refine le_trans quorum (le_trans (le_of_eq ?_) (Finset.card_le_card successes))
    exact (Finset.card_union_of_disjoint apart).symm
  · obtain ⟨server, member⟩ := Finset.nonempty_iff_ne_empty.mpr some
    exact ⟨server, successes (Finset.mem_union_left _ member), grounded.stillReachable member⟩
  · exact lt_of_le_of_lt (Finset.card_le_card (grounded.stillUnreachable told)) few

end

/-- After any calls evidence is about present candidates and servers, and whatever a call
verifies has its support, full support if it was not verified before. -/
theorem verified_supported (text : Ip.Text) (config : Config) (manager : Manager)
    (built : Manager.new config = .ok manager) (calls : List Call) :
    let run := Run.runCalls text manager calls
    (∀ (key : EvidenceKey) entry, run.manager.evidence[key]? = some entry →
      key.address ∈ run.manager.candidates ∧ key.server ∈ run.manager.servers) ∧
    ∀ (call : Call) (now : Nat), call.derivesAt run.manager = some now →
      ∀ address ∈ (run.step text call).manager.state.verifiedAddresses,
        Supported (run.step text call) now address ∧
        (address ∉ run.manager.state.verifiedAddresses →
          (run.step text call).manager.config.requiredDistinctSuccesses ≤
            ((run.step text call).stillReachable now address).card) := by
  intro run
  have grounded : Grounded run := runCalls_grounded text built calls
  refine ⟨grounded.pairs, fun call now derives address verified => ?_⟩
  obtain ⟨edited, reports, after, state, -, edit⟩ := step_derives grounded derives
  rw [after] at verified ⊢
  obtain ⟨candidate, judged⟩ := Manager.mem_rederived.mp verified
  have next := edit.rederived now
  refine ⟨next.supported (le_max_right _ _) candidate judged, fun entered => ?_⟩
  rw [state, decide_eq_false entered] at judged
  obtain ⟨meets | ⟨impossible, -⟩, -⟩ := (Tally.isVerified_iff _ _ _).mp judged
  · exact le_trans meets (Finset.card_le_card next.stillReachable)
  · cases impossible

def sampleText : Ip.Text :=
  ⟨fun source => if source = "8.8.8.8" then some 0x08080808#32 else none, fun _ => none,
    fun _ => none, fun _ => "", fun _ => ""⟩

/-- Two servers confirm an address. -/
def sampleCalls : List Call :=
  [.setCandidates ["/ip4/8.8.8.8/tcp/4001"] 0, .addServer (.numbered 0) .static,
    .addServer (.numbered 1) .identify,
    .recordOutcome "/ip4/8.8.8.8/tcp/4001" (.numbered 0) .reachable 5,
    .recordOutcome "/ip4/8.8.8.8/tcp/4001" (.numbered 1) .reachable 6]

/-- The first of them then takes it back. -/
def sampleReversal : Call :=
  .recordOutcome "/ip4/8.8.8.8/tcp/4001" (.numbered 0) .unreachable 7

def sampleConfig : Config := ⟨2, 10⟩

theorem verified_supported_sample : Manager.new sampleConfig = .ok { config := sampleConfig } ∧
    Supported ((Run.runCalls sampleText { config := sampleConfig } sampleCalls).step sampleText
      sampleReversal) 7 "/ip4/8.8.8.8/tcp/4001" :=
  ⟨rfl, ((verified_supported sampleText sampleConfig { config := sampleConfig } rfl
    sampleCalls).2 sampleReversal 7 (by decide +kernel) _ (by decide +kernel)).1⟩

/-- The published horizon is exact: no expiry pass before it drops an address of the verdict,
and the first pass at it does. -/
theorem evidence_horizon_exact (text : Ip.Text) (config : Config) (manager : Manager)
    (built : Manager.new config = .ok manager) (calls : List Call) (call : Call) (now : Nat)
    (derives : call.derivesAt (Run.runCalls text manager calls).manager = some now)
    (verified : List String) (horizonMs : Nat)
    (verdict : ((Run.runCalls text manager calls).step text call).manager.state =
      .verifiedPublic verified horizonMs)
    (times : List Nat) (ordered : times.Pairwise (· ≤ ·)) (later : ∀ time ∈ times, now ≤ time)
    (early : ∀ time ∈ times, time < horizonMs) :
    (∀ address ∈ verified, address ∈
      (((Run.runCalls text manager calls).step text call).manager.expireAll
        times).state.verifiedAddresses) ∧
    ∃ address ∈ verified, address ∉
      ((((Run.runCalls text manager calls).step text call).manager.expireAll
        times).expireEvidence horizonMs).1.state.verifiedAddresses := by
  have grounded := runCalls_grounded text built calls
  obtain ⟨edited, reports, after, -, -, edit⟩ := step_derives grounded derives
  rw [after] at verdict ⊢
  exact Manager.rederived_horizon edit.sound edit.positive verdict ordered later early

theorem evidence_horizon_exact_sample :
    ((Run.runCalls sampleText { config := sampleConfig } sampleCalls).step sampleText
      sampleReversal).manager.state = .verifiedPublic ["/ip4/8.8.8.8/tcp/4001"] 15 ∧
    ∃ address ∈ ["/ip4/8.8.8.8/tcp/4001"], address ∉
      ((((Run.runCalls sampleText { config := sampleConfig } sampleCalls).step sampleText
        sampleReversal).manager.expireAll [9, 14]).expireEvidence
          15).1.state.verifiedAddresses := by
  have verdict : ((Run.runCalls sampleText { config := sampleConfig } sampleCalls).step sampleText
      sampleReversal).manager.state = .verifiedPublic ["/ip4/8.8.8.8/tcp/4001"] 15 := by
    decide +kernel
  exact ⟨verdict, (evidence_horizon_exact sampleText sampleConfig { config := sampleConfig } rfl
    sampleCalls sampleReversal 7 (by decide +kernel) _ 15 verdict [9, 14] (by decide)
    (by decide) (by decide)).2⟩

end InterWeave.Reachability
