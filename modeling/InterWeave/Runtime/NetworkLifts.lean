import InterWeave.Runtime.ManagerRuns

/-!
A network that is added makes waiting peers dialable at once. The manager remembers when it
lifted a peer, so that a network that comes and goes does not defeat the floor under retries.
-/

namespace InterWeave

open Std (ExtTreeMap)
open Concurrent OrderedMap

namespace ConnectionManager

variable {manager : ConnectionManager} {nowMs : Nat}

def liftedBackoff (nowMs : Nat) (backoff : PeerBackoff) : PeerBackoff :=
  if backoff.isPunitiveAt nowMs then { backoff with untilMs := none } else backoff

def liftsRetry (cls : ConnectionClass) (nowMs : Nat) (entry : Retry) : Bool :=
  decide (cls = .dataPlaneTrusted) && !entry.claimed && decide (entry.dueAtMs > nowMs)

def liftedRetry (cls : ConnectionClass) (nowMs : Nat) (entry : Retry) : Retry :=
  if liftsRetry cls nowMs entry then { entry with dueAtMs := nowMs } else entry

def liftable (manager : ConnectionManager) (nowMs : Nat) (peer : TransportIdentity) : Bool :=
  (manager.policy.peers[peer]?.any fun backoff => backoff.isPunitiveAt nowMs) ||
    manager.retries[peer]?.any (liftsRetry (manager.classify peer) nowMs)

structure LiftedAll (nowMs : Nat) (peers : List TransportIdentity)
    (before after : ConnectionManager) : Prop where
  trust : after.trust = before.trust
  addresses : after.policy.addresses = before.policy.addresses
  book : after.policy.book = before.policy.book
  backoffs : ∀ peer, after.policy.peers[peer]? =
    if peer ∈ peers then before.policy.peers[peer]?.map (liftedBackoff nowMs)
    else before.policy.peers[peer]?
  retries : ∀ peer, after.retries[peer]? =
    if peer ∈ peers then before.retries[peer]?.map (liftedRetry (before.classify peer) nowMs)
    else before.retries[peer]?
  lifts : ∀ peer, after.networkLifts[peer]? =
    if peer ∈ peers ∧ before.liftable nowMs peer = true then some nowMs
    else before.networkLifts[peer]?

theorem liftPeerBackoff_get (policy : ConnectionPolicy) (peer other : TransportIdentity)
    (nowMs : Nat) :
    (policy.liftPeerBackoff peer nowMs).1.peers[other]? =
      if other = peer then policy.peers[other]?.map (liftedBackoff nowMs)
      else policy.peers[other]? := by
  unfold ConnectionPolicy.liftPeerBackoff
  cases found : policy.peers[peer]? with
  | none =>
    by_cases same : other = peer
    · subst same
      simp [found]
    · simp [same]
  | some backoff =>
    by_cases same : other = peer
    · subst same
      cases punitive : backoff.isPunitiveAt nowMs <;>
        simp [found, punitive, liftedBackoff]
    · cases punitive : backoff.isPunitiveAt nowMs <;>
        simp [punitive, get_insert, same, Ne.symm same]

theorem liftPeerBackoff_frame {policy : ConnectionPolicy} :
    (policy.liftPeerBackoff peer nowMs).1.addresses = policy.addresses ∧
      (policy.liftPeerBackoff peer nowMs).1.book = policy.book ∧
      (policy.liftPeerBackoff peer nowMs).2 =
        policy.peers[peer]?.any fun backoff => backoff.isPunitiveAt nowMs := by
  unfold ConnectionPolicy.liftPeerBackoff
  cases found : policy.peers[peer]? with
  | none => exact ⟨rfl, rfl, rfl⟩
  | some backoff =>
    cases punitive : backoff.isPunitiveAt nowMs <;> simp [punitive]

theorem hastened {policy : ConnectionPolicy} (peer : TransportIdentity) (isNext : next =
      if manager.retries[peer]?.any (liftsRetry (manager.classify peer) nowMs) = true then
        { manager with policy := policy }.changeRetry peer
          fun entry => { entry with dueAtMs := nowMs }
      else { manager with policy := policy }) :
    next.policy = policy ∧ ∀ other, next.retries[other]? =
      if other = peer then
        manager.retries[other]?.map (liftedRetry (manager.classify other) nowMs)
      else manager.retries[other]? := by
  by_cases lifts : manager.retries[peer]?.any (liftsRetry (manager.classify peer) nowMs) = true
  · rw [if_pos lifts] at isNext
    refine ⟨by rw [isNext, changeRetry_policy], fun other => ?_⟩
    rw [isNext, changeRetry_get]
    by_cases same : other = peer
    · subst same
      obtain ⟨entry, found, allowed⟩ := (Option.any_eq_true _ _).mp lifts
      simp [found, liftedRetry, allowed]
    · rw [if_neg same, if_neg same]
  · rw [if_neg lifts] at isNext
    refine ⟨by rw [isNext], fun other => ?_⟩
    rw [isNext]
    by_cases same : other = peer
    · subst same
      cases found : manager.retries[other]? with
      | none => simp
      | some entry =>
        rw [found, Option.any_some] at lifts
        simp [liftedRetry, lifts]
    · rw [if_neg same]

theorem liftPeer_lifts (nowMs : Nat) (lifts : ConnectionManager × Nat) (peer : TransportIdentity) :
    LiftedAll nowMs [peer] lifts.1 (liftPeer nowMs lifts peer).1 ∧
      (liftPeer nowMs lifts peer).2 = lifts.2 + (lifts.1.liftable nowMs peer).toNat := by
  obtain ⟨manager, lifted⟩ := lifts
  obtain ⟨addresses, book, answer⟩ := liftPeerBackoff_frame
  have backoffs := fun other => liftPeerBackoff_get manager.policy peer other nowMs
  have retry : (manager.retries[peer]?.any fun entry =>
      decide (manager.classify peer = .dataPlaneTrusted) && !entry.claimed &&
        decide (entry.dueAtMs > nowMs)) =
      manager.retries[peer]?.any (liftsRetry (manager.classify peer) nowMs) := rfl
  have isLiftable : ((manager.policy.peers[peer]?.any fun backoff => backoff.isPunitiveAt nowMs) ||
      manager.retries[peer]?.any (liftsRetry (manager.classify peer) nowMs)) =
      manager.liftable nowMs peer := rfl
  unfold liftPeer
  dsimp only
  rw [retry, answer, isLiftable]
  generalize (manager.policy.liftPeerBackoff peer nowMs).1 = policy at addresses book backoffs ⊢
  obtain ⟨next, isNext⟩ : ∃ next, next =
    if manager.retries[peer]?.any (liftsRetry (manager.classify peer) nowMs) = true then
      { manager with policy := policy }.changeRetry peer fun entry =>
        { entry with dueAtMs := nowMs }
    else { manager with policy := policy } := ⟨_, rfl⟩
  rw [← isNext]
  obtain ⟨samePolicy, retries⟩ := hastened peer isNext
  have frame : next.trust = manager.trust ∧ next.networkLifts = manager.networkLifts := by
    rw [isNext]
    split
    · have ordinary := (changeRetry_aside { manager with policy := policy } peer
        fun entry => { entry with dueAtMs := nowMs }).ordinary
      exact ⟨ordinary.trust, ordinary.networkLifts⟩
    · exact ⟨rfl, rfl⟩
  cases liftable : manager.liftable nowMs peer <;>
    refine ⟨⟨frame.1, (congrArg _ samePolicy).trans addresses, (congrArg _ samePolicy).trans book,
      by simpa [samePolicy] using backoffs, by simpa using retries, fun other => ?_⟩, rfl⟩
  · simp only [Bool.false_eq_true, if_false, frame.2, List.mem_singleton]
    rw [if_neg]
    rintro ⟨rfl, lifts⟩
    exact Bool.false_ne_true (liftable.symm.trans lifts)
  · simp only [if_true, get_insert, List.mem_singleton, frame.2]
    by_cases same : peer = other
    · subst same
      simp [liftable]
    · simp [same, Ne.symm same]

theorem LiftedAll.liftable (lifted : LiftedAll nowMs peers before after) (apart : other ∉ peers) :
    after.liftable nowMs other = before.liftable nowMs other := by
  have classes : after.classify other = before.classify other :=
    congrArg (TrustSources.classify · other) lifted.trust
  rw [ConnectionManager.liftable, lifted.backoffs, lifted.retries, if_neg apart, if_neg apart,
    classes]
  rfl

theorem LiftedAll.cons {peer : TransportIdentity} {rest : List TransportIdentity}
    {before middle after : ConnectionManager} (first : LiftedAll nowMs [peer] before middle)
    (later : LiftedAll nowMs rest middle after) (fresh : peer ∉ rest) :
    LiftedAll nowMs (peer :: rest) before after := by
  have apart : ∀ other ∈ rest, other ∉ [peer] := by
    intro other member isPeer
    exact fresh (List.mem_singleton.mp isPeer ▸ member)
  have classes : ∀ other, middle.classify other = before.classify other := fun other =>
    congrArg (TrustSources.classify · other) first.trust
  refine ⟨later.trust.trans first.trust, later.addresses.trans first.addresses,
    later.book.trans first.book, fun other => ?_, fun other => ?_, fun other => ?_⟩
  · rw [later.backoffs, first.backoffs]
    by_cases member : other ∈ rest
    · simp [member, apart other member]
    · simp [member]
  · rw [later.retries, first.retries, classes]
    by_cases member : other ∈ rest
    · simp [member, apart other member]
    · simp [member]
  · rw [later.lifts, first.lifts]
    by_cases member : other ∈ rest
    · simp [member, apart other member, first.liftable (apart other member)]
    · simp [member]

theorem liftPeers_lifts {nowMs : Nat} (distinct : peers.Nodup) (lifts : ConnectionManager × Nat) :
    LiftedAll nowMs peers lifts.1 (peers.foldl (liftPeer nowMs) lifts).1 ∧
      (peers.foldl (liftPeer nowMs) lifts).2 =
        lifts.2 + (peers.filter (lifts.1.liftable nowMs)).length := by
  induction peers generalizing lifts with
  | nil => exact ⟨⟨rfl, rfl, rfl, by simp, by simp, by simp⟩, rfl⟩
  | cons peer rest ih =>
    obtain ⟨fresh, distinct⟩ := List.nodup_cons.mp distinct
    obtain ⟨first, counted⟩ := liftPeer_lifts nowMs lifts peer
    obtain ⟨later, total⟩ := ih distinct (liftPeer nowMs lifts peer)
    refine ⟨first.cons later fresh, ?_⟩
    have same : rest.filter ((liftPeer nowMs lifts peer).1.liftable nowMs) =
        rest.filter (lifts.1.liftable nowMs) := by
      refine List.filter_congr fun other member => first.liftable fun isPeer => ?_
      exact fresh (List.mem_singleton.mp isPeer ▸ member)
    rw [List.foldl_cons, total, counted, same, List.filter_cons]
    cases lifts.1.liftable nowMs peer
    · simp
    · simp
      omega

def awaitsLift (manager : ConnectionManager) (nowMs : Nat) (peer : TransportIdentity) : Bool :=
  decide (manager.classify peer ≠ .unauthorized) &&
    !manager.networkLifts[peer]?.any fun atMs => decide (nowMs - atMs < retryBaseMs)

structure NetworkAdded (manager : ConnectionManager) (nowMs : Nat)
    (result : ConnectionManager × Nat) : Prop where
  trust : result.1.trust = manager.trust
  addresses : result.1.policy.addresses = manager.policy.addresses
  book : result.1.policy.book = manager.policy.book
  backoffs : ∀ peer, result.1.policy.peers[peer]? =
    if manager.awaitsLift nowMs peer = true then
      manager.policy.peers[peer]?.map (liftedBackoff nowMs)
    else manager.policy.peers[peer]?
  retries : ∀ peer, result.1.retries[peer]? =
    if manager.awaitsLift nowMs peer = true then
      manager.retries[peer]?.map (liftedRetry (manager.classify peer) nowMs)
    else manager.retries[peer]?
  lifts : ∀ peer, result.1.networkLifts[peer]? =
    if manager.awaitsLift nowMs peer = true ∧ manager.liftable nowMs peer = true then some nowMs
    else manager.networkLifts[peer]?.filter fun atMs =>
      decide (nowMs - atMs < retryBaseMs) && decide (manager.classify peer ≠ .unauthorized)
  count : ∃ lifted : List TransportIdentity, lifted.Nodup ∧ lifted.length = result.2 ∧
    ∀ peer, peer ∈ lifted ↔
      manager.awaitsLift nowMs peer = true ∧ manager.liftable nowMs peer = true

def remembering (manager : ConnectionManager) (nowMs : Nat) : ConnectionManager :=
  { manager.observe nowMs with
    networkLifts := manager.networkLifts.filter fun peer atMs =>
      decide (nowMs - atMs < retryBaseMs) && decide (manager.classify peer ≠ .unauthorized) }

def considered (manager : ConnectionManager) (nowMs : Nat) : List TransportIdentity :=
  ((manager.retries.keys ++ manager.policy.peers.keys).filter fun peer =>
    decide (manager.classify peer ≠ .unauthorized) &&
      decide (peer ∉ (manager.remembering nowMs).networkLifts)).toFinset.sort (· ≤ ·)

theorem networkAdded_eq :
    manager.networkAdded nowMs =
      let lifted := (manager.considered nowMs).foldl (liftPeer nowMs) (manager.remembering nowMs, 0)
      if lifted.2 > 0 then lifted.1.publish.bind fun published => .ret (published, lifted.2)
      else .ret lifted := rfl

theorem mem_considered :
    peer ∈ manager.considered nowMs ↔
      (peer ∈ manager.retries ∨ peer ∈ manager.policy.peers) ∧
        manager.awaitsLift nowMs peer = true := by
  have forgotten : manager.classify peer ≠ .unauthorized →
      (peer ∉ (manager.remembering nowMs).networkLifts ↔
        (manager.networkLifts[peer]?.any fun atMs => decide (nowMs - atMs < retryBaseMs)) =
          false) := by
    intro classified
    rw [notMem_iff_get, remembering, ExtTreeMap.getElem?_filter']
    cases manager.networkLifts[peer]? with
    | none => simp
    | some atMs => simp [Option.filter, classified]
  rw [considered, Finset.mem_sort, List.mem_toFinset, List.mem_filter, List.mem_append,
    ExtTreeMap.mem_keys, ExtTreeMap.mem_keys, awaitsLift]
  simp only [Bool.and_eq_true, decide_eq_true_eq, Bool.not_eq_true']
  exact and_congr_right fun _ => and_congr_right forgotten

theorem considered_get {α : Type} {table : ExtTreeMap TransportIdentity α}
    (change : TransportIdentity → α → α)
    (known : ∀ peer ∈ table, peer ∈ manager.retries ∨ peer ∈ manager.policy.peers)
    (peer : TransportIdentity) :
    (if peer ∈ manager.considered nowMs then table[peer]?.map (change peer) else table[peer]?) =
      if manager.awaitsLift nowMs peer = true then table[peer]?.map (change peer)
      else table[peer]? := by
  by_cases member : peer ∈ table
  · simp [mem_considered, known peer member]
  · simp [(notMem_iff_get _ _).mp member]

theorem liftable_known (liftable : manager.liftable nowMs peer = true) :
    peer ∈ manager.retries ∨ peer ∈ manager.policy.peers := by
  rw [ConnectionManager.liftable, Bool.or_eq_true] at liftable
  rcases liftable with backoff | retry
  · obtain ⟨backoff, found, -⟩ := (Option.any_eq_true _ _).mp backoff
    exact .inr ((mem_iff_get _ _).mpr ⟨backoff, found⟩)
  · obtain ⟨entry, found, -⟩ := (Option.any_eq_true _ _).mp retry
    exact .inl ((mem_iff_get _ _).mpr ⟨entry, found⟩)

theorem considered_liftable :
    peer ∈ manager.considered nowMs ∧ (manager.remembering nowMs).liftable nowMs peer = true ↔
      manager.awaitsLift nowMs peer = true ∧ manager.liftable nowMs peer = true := by
  have same : (manager.remembering nowMs).liftable nowMs peer = manager.liftable nowMs peer := rfl
  rw [mem_considered, same]
  exact ⟨fun ⟨⟨_, waits⟩, liftable⟩ => ⟨waits, liftable⟩,
    fun ⟨waits, liftable⟩ => ⟨⟨liftable_known liftable, waits⟩, liftable⟩⟩

theorem networkAdded_gives : (manager.networkAdded nowMs).Gives (NetworkAdded manager nowMs) := by
  have distinct : (manager.considered nowMs).Nodup := Finset.sort_nodup _ _
  obtain ⟨lifted, counted⟩ := liftPeers_lifts distinct (manager.remembering nowMs, 0)
  rw [networkAdded_eq]
  generalize (manager.considered nowMs).foldl (liftPeer nowMs) (manager.remembering nowMs, 0) =
    result at lifted counted
  have added : NetworkAdded manager nowMs result := by
    refine ⟨lifted.trust, lifted.addresses, lifted.book, fun peer => ?_, fun peer => ?_,
      fun peer => ?_, _, distinct.filter _, (counted.trans (Nat.zero_add _)).symm, fun peer => ?_⟩
    · exact (lifted.backoffs peer).trans
        (considered_get (fun _ => liftedBackoff nowMs) (fun _ => .inr) peer)
    · exact (lifted.retries peer).trans
        (considered_get (fun peer => liftedRetry (manager.classify peer) nowMs)
          (fun _ => .inl) peer)
    · rw [lifted.lifts]
      simp only [considered_liftable]
      rw [remembering, ExtTreeMap.getElem?_filter']
    · rw [List.mem_filter]
      exact considered_liftable
  dsimp only
  split
  · refine .bind (publish_republishes _) ?_
    rintro _ ⟨revision, owed⟩
    exact .ret ⟨added.trust, added.addresses, added.book, added.backoffs, added.retries,
      added.lifts, added.count⟩
  · exact .ret added

theorem NetworkAdded.changes (added : NetworkAdded manager nowMs result)
    (peer : TransportIdentity) :
    ¬(result.1.policy.peers[peer]? = manager.policy.peers[peer]? ∧
        result.1.retries[peer]? = manager.retries[peer]?) ↔
      manager.awaitsLift nowMs peer = true ∧ manager.liftable nowMs peer = true := by
  have backoff : manager.policy.peers[peer]?.map (liftedBackoff nowMs) =
      manager.policy.peers[peer]? ↔
      (manager.policy.peers[peer]?.any fun backoff => backoff.isPunitiveAt nowMs) = false := by
    cases manager.policy.peers[peer]? with
    | none => simp
    | some backoff =>
      cases punitive : backoff.isPunitiveAt nowMs with
      | false => simp [liftedBackoff, punitive]
      | true =>
        have waiting : backoff.untilMs ≠ none := by
          intro isNone
          simp [PeerBackoff.isPunitiveAt, PeerBackoff.isClearAt, isNone] at punitive
        simp only [Option.map_some, liftedBackoff, punitive, if_true, Option.some.injEq,
          Option.any_some, reduceCtorEq, iff_false]
        exact fun same => waiting (congrArg PeerBackoff.untilMs same).symm
  have retry : manager.retries[peer]?.map (liftedRetry (manager.classify peer) nowMs) =
      manager.retries[peer]? ↔
      manager.retries[peer]?.any (liftsRetry (manager.classify peer) nowMs) = false := by
    cases manager.retries[peer]? with
    | none => simp
    | some entry =>
      cases lifts : liftsRetry (manager.classify peer) nowMs entry with
      | false => simp [liftedRetry, lifts]
      | true =>
        have later : entry.dueAtMs > nowMs := by
          simp only [liftsRetry, Bool.and_eq_true, decide_eq_true_eq] at lifts
          exact lifts.2
        simp only [Option.map_some, liftedRetry, lifts, if_true, Option.some.injEq,
          Option.any_some, reduceCtorEq, iff_false]
        exact fun same => absurd (congrArg Retry.dueAtMs same) (Nat.ne_of_lt later)
  rw [added.backoffs, added.retries, ConnectionManager.liftable, Bool.or_eq_true]
  by_cases waits : manager.awaitsLift nowMs peer = true
  · simp only [waits, if_true, backoff, retry, true_and]
    cases (manager.policy.peers[peer]?.any fun backoff => backoff.isPunitiveAt nowMs) <;> simp
  · simp [waits]

end ConnectionManager

open ConnectionManager

deriving instance DecidableEq for Retry

def Turn.lift (peer : TransportIdentity) (turn : Turn) : Option Nat :=
  match turn.call with
  | .networkAdded nowMs =>
    if turn.after.policy.peers[peer]? = turn.before.policy.peers[peer]? ∧
        turn.after.retries[peer]? = turn.before.retries[peer]? then none
    else some nowMs
  | _ => none

structure LiftsApart (peer : TransportIdentity) (turns : List Turn)
    (manager : ConnectionManager) : Prop where
  apart : (turns.filterMap (Turn.lift peer)).Pairwise fun first second =>
    first + retryBaseMs ≤ second
  remembered : ∀ atMs, (turns.filterMap (Turn.lift peer)).getLast? = some atMs →
    manager.networkLifts[peer]? = some atMs ∨
      ∃ told ∈ turns.filterMap fun turn => turn.call.nowMs, atMs + retryBaseMs ≤ told

theorem answer_networkAdded {manager : ConnectionManager} {nowMs : Nat} :
    (manager.answer (.networkAdded nowMs)).Gives fun result =>
      ∃ lifted, NetworkAdded manager nowMs (result.1, lifted) :=
  .map (networkAdded_gives.mono fun result added => ⟨result.2, added⟩)

section

variable {peer : TransportIdentity} {turns : List Turn} {turn : Turn}

theorem LiftsApart.ago (lifts : LiftsApart peer turns turn.before)
    (told : ∀ atMs ∈ turns.filterMap fun turn => turn.call.nowMs, atMs ≤ nowMs)
    (waits : turn.before.awaitsLift nowMs peer = true) :
    ∀ atMs ∈ turns.filterMap (Turn.lift peer), atMs + retryBaseMs ≤ nowMs := by
  have lastAgo : ∀ atMs, (turns.filterMap (Turn.lift peer)).getLast? = some atMs →
      atMs + retryBaseMs ≤ nowMs := by
    intro atMs isLast
    rcases lifts.remembered atMs isLast with remembered | ⟨toldMs, member, ago⟩
    · simp only [awaitsLift, remembered, Option.any_some, Bool.and_eq_true, Bool.not_eq_true',
        decide_eq_false_iff_not] at waits
      unfold retryBaseMs at waits ⊢
      omega
    · exact ago.trans (told toldMs member)
  intro atMs member
  rcases List.eq_nil_or_concat (turns.filterMap (Turn.lift peer)) with none | ⟨init, last, split⟩
  · rw [none] at member
    cases member
  · have ago := lastAgo last (by rw [split, List.concat_eq_append, List.getLast?_concat])
    have apart := lifts.apart
    rw [split, List.concat_eq_append] at member apart
    rcases List.mem_append.mp member with earlier | isLast
    · have order := (List.pairwise_append.mp apart).2.2 atMs earlier last List.mem_cons_self
      omega
    · rw [List.mem_singleton.mp isLast]
      exact ago

theorem LiftsApart.unlifted (lifts : LiftsApart peer turns turn.before)
    (lift : turn.lift peer = none)
    (kept : ∀ atMs, turn.before.networkLifts[peer]? = some atMs →
      turn.after.networkLifts[peer]? = some atMs ∨ ∃ told ∈ (turns ++ [turn]).filterMap
        fun turn => turn.call.nowMs, atMs + retryBaseMs ≤ told) :
    LiftsApart peer (turns ++ [turn]) turn.after := by
  have log : (turns ++ [turn]).filterMap (Turn.lift peer) =
      turns.filterMap (Turn.lift peer) := by
    simp [List.filterMap_append, lift]
  refine ⟨log ▸ lifts.apart, fun atMs isLast => ?_⟩
  rw [log] at isLast
  rcases lifts.remembered atMs isLast with remembered | ⟨toldMs, member, ago⟩
  · exact kept atMs remembered
  · exact .inr ⟨toldMs, by rw [List.filterMap_append]; exact List.mem_append_left _ member, ago⟩

theorem LiftsApart.networkAdded (lifts : LiftsApart peer turns turn.before)
    (called : turn.call = .networkAdded nowMs)
    (added : NetworkAdded turn.before nowMs (turn.after, lifted))
    (classified : turn.before.classify peer ≠ .unauthorized)
    (told : ∀ atMs ∈ turns.filterMap fun turn => turn.call.nowMs, atMs ≤ nowMs) :
    LiftsApart peer (turns ++ [turn]) turn.after := by
  have tells : nowMs ∈ (turns ++ [turn]).filterMap fun turn => turn.call.nowMs :=
    List.mem_filterMap.mpr ⟨turn, by simp, by rw [called]; rfl⟩
  by_cases dialable : turn.before.awaitsLift nowMs peer = true ∧
      turn.before.liftable nowMs peer = true
  · have lift : turn.lift peer = some nowMs := by
      rw [Turn.lift, called]
      exact if_neg ((added.changes peer).mpr dialable)
    have log : (turns ++ [turn]).filterMap (Turn.lift peer) =
        turns.filterMap (Turn.lift peer) ++ [nowMs] := by
      simp [List.filterMap_append, lift]
    constructor
    · rw [log, List.pairwise_append]
      refine ⟨lifts.apart, List.pairwise_singleton _ _, fun atMs member next isNext => ?_⟩
      rw [List.mem_singleton.mp isNext]
      exact lifts.ago told dialable.1 atMs member
    · intro atMs isLast
      rw [log, List.getLast?_concat] at isLast
      obtain rfl := Option.some.inj isLast
      exact .inl ((added.lifts peer).trans (if_pos dialable))
  · have lift : turn.lift peer = none := by
      rw [Turn.lift, called]
      exact if_pos (not_not.mp fun changed => dialable ((added.changes peer).mp changed))
    refine lifts.unlifted lift fun atMs remembered => ?_
    have kept := added.lifts peer
    rw [if_neg dialable, remembered] at kept
    by_cases recent : nowMs - atMs < retryBaseMs
    · exact .inl (by simpa [Option.filter, recent, classified] using kept)
    · exact .inr ⟨nowMs, tells, by unfold retryBaseMs at recent ⊢; omega⟩

theorem LiftsApart.other (lifts : LiftsApart peer turns turn.before)
    (other : ∀ nowMs, turn.call ≠ .networkAdded nowMs)
    (same : turn.after.networkLifts = turn.before.networkLifts) :
    LiftsApart peer (turns ++ [turn]) turn.after := by
  have lift : turn.lift peer = none := by
    unfold Turn.lift
    split
    next nowMs called => exact absurd called (other nowMs)
    · rfl
  exact lifts.unlifted lift fun atMs remembered => .inl (same ▸ remembered)

theorem run_liftsApart (run : ManagerRun start (before ++ during) manager)
    (classified : ∀ turn ∈ during, turn.before.classify peer ≠ .unauthorized)
    (ordered : (during.filterMap fun turn => turn.call.nowMs).Pairwise (· ≤ ·)) :
    LiftsApart peer during manager := by
  induction during using List.reverseRecOn generalizing manager with
  | nil => exact ⟨.nil, fun _ isLast => nomatch isLast⟩
  | append_singleton during turn ih =>
    rw [← List.append_assoc] at run
    obtain ⟨earlier, rfl, events, path⟩ := run.last
    rw [List.filterMap_append, List.pairwise_append] at ordered
    have lifts := ih earlier (fun turn member => classified turn (List.mem_append_left _ member))
      ordered.1
    by_cases network : ∃ nowMs, turn.call = .networkAdded nowMs
    · obtain ⟨nowMs, called⟩ := network
      rw [called] at path
      obtain ⟨lifted, added⟩ := answer_networkAdded _ _ path
      refine lifts.networkAdded called added (classified turn (by simp)) fun atMs member => ?_
      exact ordered.2.2 atMs member nowMs (List.mem_filterMap.mpr ⟨turn, by simp, by
        rw [called]; rfl⟩)
    · have other : ∀ nowMs, turn.call ≠ .networkAdded nowMs :=
        fun nowMs called => network ⟨nowMs, called⟩
      exact lifts.other other ((answer_framed _ _ _ path).networkLifts other)

end

theorem liftedBackoff_failures :
    (liftedBackoff nowMs backoff).consecutiveFailures = backoff.consecutiveFailures := by
  unfold liftedBackoff
  split <;> rfl

theorem liftedRetry_attempts :
    (liftedRetry cls nowMs entry).attempts = entry.attempts := by
  unfold liftedRetry
  split <;> rfl

theorem liftedRetry_of_kept (kept : cls ≠ .dataPlaneTrusted ∨ entry.claimed = true) :
    liftedRetry cls nowMs entry = entry := by
  refine if_neg fun lifts => ?_
  simp only [liftsRetry, Bool.and_eq_true, Bool.not_eq_true', decide_eq_true_eq] at lifts
  rcases kept with other | claimed
  · exact other lifts.1.1
  · exact Bool.false_ne_true (lifts.1.2.symm.trans claimed)

namespace ConnectionManager.NetworkAdded

variable {manager : ConnectionManager} {nowMs : Nat} {result : ConnectionManager × Nat}
  (added : NetworkAdded manager nowMs result)

variable {peer : TransportIdentity}

include added

theorem attempts (peer : TransportIdentity) :
    result.1.retries[peer]?.map Retry.attempts = manager.retries[peer]?.map Retry.attempts ∧
      result.1.policy.peers[peer]?.map PeerBackoff.consecutiveFailures =
        manager.policy.peers[peer]?.map PeerBackoff.consecutiveFailures := by
  rw [added.retries, added.backoffs]
  by_cases waits : manager.awaitsLift nowMs peer = true
  · simp only [waits, if_true, Option.map_map]
    constructor
    · exact congrArg (Option.map · _) (funext fun entry => liftedRetry_attempts)
    · exact congrArg (Option.map · _) (funext fun backoff => liftedBackoff_failures)
  · simp [waits]

theorem claimed (found : manager.retries[peer]? = some entry) (claimed : entry.claimed = true) :
    result.1.retries[peer]? = some entry := by
  rw [added.retries, found, Option.map_some, liftedRetry_of_kept (.inr claimed), ite_self]

theorem unauthorized (unknown : manager.classify peer = .unauthorized) :
    result.1.policy.peers[peer]? = manager.policy.peers[peer]? ∧
      result.1.retries[peer]? = manager.retries[peer]? := by
  by_contra changed
  have waits := ((added.changes peer).mp changed).1
  simp [awaitsLift, unknown] at waits

theorem trusted (changed : result.1.retries[peer]? ≠ manager.retries[peer]?) :
    manager.classify peer = .dataPlaneTrusted := by
  by_contra other
  refine changed ?_
  rw [added.retries]
  cases manager.retries[peer]? with
  | none => simp
  | some entry => rw [Option.map_some, liftedRetry_of_kept (.inl other), ite_self]

theorem classified (member : peer ∈ result.1.networkLifts) :
    result.1.classify peer ≠ .unauthorized := by
  have same : result.1.classify peer = manager.classify peer :=
    congrArg (TrustSources.classify · peer) added.trust
  obtain ⟨atMs, found⟩ := (mem_iff_get _ _).mp member
  rw [added.lifts] at found
  rw [same]
  intro unknown
  split at found
  next lifted => simp [awaitsLift, unknown] at lifted
  · simp [unknown] at found

end ConnectionManager.NetworkAdded

/-- A network addition lifts each peer once per floor: while a peer keeps its class, the times
it is made dialable are a floor apart. It leaves attempts, address records, claimed retries and
peers without a class as they are, hastens retries of data-plane peers only, counts the peers
it lifted, and remembers lifts only of peers with a class. -/
theorem network_addition_lifts_once (setup : Setup) (id : ManagerId) (turns : List Turn)
    (manager : ConnectionManager) (run : ManagerRun (setup.manager id) turns manager)
    (ordered : (turns.filterMap fun turn => turn.call.nowMs).Pairwise (· ≤ ·)) :
    (∀ before during peer, turns = before ++ during →
      (∀ turn ∈ during, turn.before.classify peer ≠ .unauthorized) →
      (during.filterMap (Turn.lift peer)).Pairwise fun first second =>
        first + retryBaseMs ≤ second) ∧
    ∀ nowMs, (manager.networkAdded nowMs).Gives fun result =>
      (∀ peer : TransportIdentity,
        result.1.retries[peer]?.map Retry.attempts = manager.retries[peer]?.map Retry.attempts ∧
        result.1.policy.peers[peer]?.map PeerBackoff.consecutiveFailures =
          manager.policy.peers[peer]?.map PeerBackoff.consecutiveFailures) ∧
      result.1.policy.addresses = manager.policy.addresses ∧
      (∀ (peer : TransportIdentity) entry, manager.retries[peer]? = some entry →
        entry.claimed = true → result.1.retries[peer]? = some entry) ∧
      (∀ peer, manager.classify peer = .unauthorized →
        result.1.policy.peers[peer]? = manager.policy.peers[peer]? ∧
        result.1.retries[peer]? = manager.retries[peer]? ∧
        result.1.policy.book[peer]? = manager.policy.book[peer]?) ∧
      (∀ peer, result.1.retries[peer]? ≠ manager.retries[peer]? →
        manager.classify peer = .dataPlaneTrusted) ∧
      (∃ lifted : List TransportIdentity, lifted.Nodup ∧ lifted.length = result.2 ∧
        ∀ peer, peer ∈ lifted ↔
          ¬(result.1.policy.peers[peer]? = manager.policy.peers[peer]? ∧
            result.1.retries[peer]? = manager.retries[peer]?)) ∧
      ∀ peer ∈ result.1.networkLifts, result.1.classify peer ≠ .unauthorized := by
  constructor
  · rintro before during peer rfl classified
    rw [List.filterMap_append, List.pairwise_append] at ordered
    exact (run_liftsApart run classified ordered.2.1).apart
  · intro nowMs
    refine networkAdded_gives.mono fun result added => ?_
    refine ⟨added.attempts, added.addresses, fun _ _ => added.claimed, fun peer unknown => ?_,
      fun _ => added.trusted, ?_, fun _ => added.classified⟩
    · obtain ⟨backoff, retry⟩ := added.unauthorized unknown
      exact ⟨backoff, retry, by rw [added.book]⟩
    · obtain ⟨lifted, distinct, counted, member⟩ := added.count
      exact ⟨lifted, distinct, counted, fun peer => (member peer).trans (added.changes peer).symm⟩

open DialSample

namespace DialSample

def failing : DialTicket :=
  trusting.snapshot.ticket ⟨some remote, "a", .manual⟩ 0

/-- Dials of a peer fail and networks are added, the second time within a floor of the first and
the third time a floor after it. -/
@[irreducible]
def lifting : List Turn × ConnectionManager :=
  (setup.manager 0).play setup.shared
    [.setTrust trust [], .recordFailure failing 0, .networkAdded 10, .recordFailure failing 20,
      .networkAdded 30, .networkAdded (10 + retryBaseMs), .recordFailure failing (20 + retryBaseMs)]

end DialSample

/-- The peer is lifted by the first and the third addition. It waits again, and an addition within
the floor lifts nobody. -/
theorem network_addition_lifts_once_sample :
    ManagerRun (setup.manager 0) lifting.1 lifting.2 ∧
    (lifting.1.drop 1).filterMap (Turn.lift remote) = [10, 10 + retryBaseMs] ∧
    ((lifting.1.drop 1).filterMap (Turn.lift remote)).Pairwise
      (fun first second => first + retryBaseMs ≤ second) ∧
    ∃ after events, (lifting.2.networkAdded (30 + retryBaseMs)).Path events (.ret (after, 0)) ∧
      lifting.2.retries[remote]?.isSome = true ∧
      after.policy.addresses = lifting.2.policy.addresses ∧
      ∀ peer : TransportIdentity, after.policy.peers[peer]? = lifting.2.policy.peers[peer]? ∧
        after.retries[peer]? = lifting.2.retries[peer]? := by
  have run : ManagerRun (setup.manager 0) lifting.1 lifting.2 := by
    unfold lifting
    exact (setup.manager 0).play_run setup.shared _
  obtain ⟨apart, adds⟩ :=
    network_addition_lifts_once setup 0 lifting.1 lifting.2 run (by decide +kernel)
  have classified : ∀ turn ∈ lifting.1.drop 1, turn.before.classify remote ≠ .unauthorized := by
    decide +kernel
  obtain ⟨⟨⟨after, count⟩, world⟩, ended⟩ : ∃ last,
      (lifting.2.networkAdded (30 + retryBaseMs)).alone World.perform setup.shared = some last :=
    Option.isSome_iff_exists.mp (by decide +kernel)
  have none : ((lifting.2.networkAdded (30 + retryBaseMs)).alone World.perform setup.shared).all
      (fun last => decide (last.1.2 = 0)) = true := by decide +kernel
  rw [ended, Option.all_some, decide_eq_true_eq] at none
  obtain rfl : count = 0 := none
  obtain ⟨events, alone⟩ := Prog.alone_ends World.perform_exec ended
  obtain ⟨-, addresses, -, -, -, ⟨lifted, -, counted, changes⟩, -⟩ := adds _ _ _ alone.path
  refine ⟨run, by decide +kernel, apart _ _ remote (List.take_append_drop 1 _).symm classified,
    after, events, alone.path, by decide +kernel, addresses, fun peer => ?_⟩
  by_contra changed
  have member := (changes peer).mpr changed
  rw [List.length_eq_zero_iff.mp counted] at member
  cases member

end InterWeave
