import InterWeave.Runtime.BookRetirement

/-!
Retirement over whole runs. The queue of retired peers is in the order of their withdrawal, so
a pass over its front takes whom trust dropped longest ago, and a peer withdrawn among the last
few is not reached before it is trusted again.
-/

namespace InterWeave

open Std (ExtTreeMap)
open Concurrent OrderedMap ConnectionManager

variable {start : ConnectionManager} {call : Call} {first : List Turn} {turn : Turn}
    {last : List Turn} {others : Finset TransportIdentity}

theorem ManagerRun.upTo (run : ManagerRun start (first ++ turn :: last) manager) :
    ManagerRun start (first ++ [turn]) turn.after := by
  induction last using List.reverseRecOn generalizing manager with
  | nil =>
    have same := run.last.2.1
    exact same ▸ run
  | append_singleton last final ih =>
    rw [← List.cons_append, ← List.append_assoc] at run
    exact ih run.last.1

namespace ConnectionManager

variable {manager after : ConnectionManager} {peer : TransportIdentity}

theorem mem_retiring : peer ∈ manager.retiring ↔
    manager.classify peer = .unauthorized ∧
      (peer ∈ manager.retired ∨ peer ∈ manager.policy.book) := by
  simp only [retiring, List.mem_append, List.mem_filter, ExtTreeMap.mem_keys, decide_eq_true_eq,
    Bool.and_eq_true]
  tauto

theorem retiring_nodup (distinct : manager.retired.Nodup) : manager.retiring.Nodup := by
  refine (distinct.filter _).append (ExtTreeMap.nodup_keys.filter _) fun peer retired newly => ?_
  have fresh := (List.mem_filter.mp newly).2
  rw [Bool.and_eq_true, decide_eq_true_eq, decide_eq_true_eq] at fresh
  exact fresh.2 retired

section

variable (retires : Retires manager after)

include retires

theorem Retires.sublist : after.retired.Sublist manager.retiring := by
  obtain ⟨stuck, order, -, same⟩ := retires.queue
  rw [same]
  calc (stuck ++ manager.retiring.drop manager.excess).Sublist
        (manager.retiring.take manager.excess ++ manager.retiring.drop manager.excess) :=
        order.append_right _
    _ = manager.retiring := List.take_append_drop _ _

theorem Retires.classify (peer : TransportIdentity) : after.classify peer = manager.classify peer :=
  congrArg (TrustSources.classify · peer) retires.trust

theorem Retires.queued (unknown : after.classify peer = .unauthorized)
    (held : peer ∈ after.policy.book) : peer ∈ after.retired := by
  obtain ⟨stuck, -, among, same⟩ := retires.queue
  have queued : peer ∈ manager.retiring := mem_retiring.mpr
    ⟨(retires.classify peer).symm.trans unknown, .inr (retires.struck.kept peer held)⟩
  rw [← List.take_append_drop manager.excess manager.retiring] at queued
  rw [same]
  rcases List.mem_append.mp queued with tried | waiting
  · exact List.mem_append_left _ (among peer tried held)
  · exact List.mem_append_right _ waiting

theorem Retires.bounded (tidy : manager.policy.Tidy) :
    ∃ stuck : List TransportIdentity,
      (∀ peer ∈ stuck, peer ∈ manager.retiring.take manager.excess ∧
        ∃ address, after.Stuck manager.clockMs peer address) ∧
      (after.policy.book.keys.filter fun peer =>
        decide (after.classify peer = .unauthorized ∧ peer ∉ stuck)).length ≤
          maxRetiredBookPeers := by
  refine ⟨(manager.retiring.take manager.excess).filter (· ∈ after.policy.book), ?_, ?_⟩
  · intro peer member
    obtain ⟨tried, held⟩ := List.mem_filter.mp member
    rw [decide_eq_true_eq] at held
    obtain ⟨address, entered⟩ :=
      Finset.nonempty_iff_ne_empty.mpr (retires.struck.tidy tidy peer held)
    exact ⟨tried, address, retires.left peer tried address entered⟩
  · have waiting : (after.policy.book.keys.filter fun peer =>
        decide (after.classify peer = .unauthorized ∧
          peer ∉ (manager.retiring.take manager.excess).filter (· ∈ after.policy.book))) ⊆
        manager.retiring.drop manager.excess := by
      intro peer member
      obtain ⟨held, unknown⟩ := List.mem_filter.mp member
      rw [ExtTreeMap.mem_keys] at held
      obtain ⟨unknown, free⟩ := decide_eq_true_eq.mp unknown
      have queued : peer ∈ manager.retiring := mem_retiring.mpr
        ⟨(retires.classify peer).symm.trans unknown, .inr (retires.struck.kept peer held)⟩
      rw [← List.take_append_drop manager.excess manager.retiring] at queued
      rcases List.mem_append.mp queued with tried | waiting
      · exact absurd (List.mem_filter.mpr ⟨tried, decide_eq_true held⟩) free
      · exact waiting
    have short : (manager.retiring.drop manager.excess).length ≤ maxRetiredBookPeers := by
      rw [List.length_drop, excess]
      omega
    exact ((ExtTreeMap.nodup_keys.filter _).subperm waiting).length_le.trans short

end

end ConnectionManager

structure Retirement (manager : ConnectionManager) : Prop where
  tidy : manager.policy.Tidy
  distinct : manager.retired.Nodup

theorem answer_setTrust {manager : ConnectionManager} {trust : TrustSources} :
    (manager.answer (.setTrust trust live)).Gives fun result =>
      Retires (manager.withTrust trust) result.1 :=
  .map setTrust_gives

theorem Setup.retirement (setup : Setup) (id : ManagerId) : Retirement (setup.manager id) := by
  refine ⟨fun peer member => ?_, List.nodup_nil⟩
  have empty : (setup.manager id).policy.book = ∅ := (setup.fresh id).2.1
  rw [empty] at member
  exact absurd member ExtTreeMap.not_mem_empty

theorem ManagerRun.retirement (run : ManagerRun start turns manager) (fresh : Retirement start) :
    Retirement manager := by
  refine run.always fresh fun manager call inv => ?_
  by_cases trusting : ∃ trust live, call = .setTrust trust live
  · obtain ⟨trust, live, rfl⟩ := trusting
    refine answer_setTrust.mono fun result retires => ?_
    have queue : (manager.withTrust trust).retiring.Nodup := retiring_nodup inv.distinct
    exact ⟨retires.struck.tidy inv.tidy, queue.sublist retires.sublist⟩
  · have other : ∀ trust live, call ≠ .setTrust trust live :=
      fun trust live called => trusting ⟨trust, live, called⟩
    intro events result path
    refine ⟨(answer_bookKept other _ _ path).tidy inv.tidy, ?_⟩
    rw [(answer_framed _ _ _ path).retired other]
    exact inv.distinct

def Turn.withdraws (turn : Turn) (peer : TransportIdentity) : Prop :=
  ∃ trust live, turn.call = .setTrust trust live ∧ peer ∈ turn.before.policy.book ∧
    (turn.before.withTrust trust).classify peer = .unauthorized ∧ peer ∉ turn.before.retired

structure Dated (turns : List Turn) (older newer queue : List TransportIdentity) : Prop where
  queue : queue = older ++ newer
  older : ∀ peer ∈ older, ∀ turn ∈ turns, ¬turn.withdraws peer
  newer : ∀ peer ∈ newer, ∃ turn ∈ turns, turn.withdraws peer

section

variable {turns : List Turn} {older newer queue : List TransportIdentity}

theorem Dated.sublist (dated : Dated turns older newer queue) (order : kept.Sublist queue) :
    ∃ older newer, Dated turns older newer kept := by
  rw [dated.queue, List.sublist_append_iff] at order
  obtain ⟨front, back, rfl, fromOlder, fromNewer⟩ := order
  exact ⟨front, back, rfl, fun peer member => dated.older peer (fromOlder.subset member),
    fun peer member => dated.newer peer (fromNewer.subset member)⟩

theorem Dated.retiring {trust : TrustSources} (dated : Dated turns older newer turn.before.retired)
    (called : turn.call = .setTrust trust live) :
    ∃ older newer, Dated (turns ++ [turn]) older newer (turn.before.withTrust trust).retiring := by
  refine ⟨older.filter fun peer =>
      decide ((turn.before.withTrust trust).classify peer = .unauthorized),
    (newer.filter fun peer =>
      decide ((turn.before.withTrust trust).classify peer = .unauthorized)) ++
    turn.before.policy.book.keys.filter fun peer =>
      decide ((turn.before.withTrust trust).classify peer = .unauthorized) &&
        decide (peer ∉ turn.before.retired.filter fun peer =>
          decide ((turn.before.withTrust trust).classify peer = .unauthorized)),
    ?_, fun peer member => ?_, fun peer member => ?_⟩
  · rw [← List.append_assoc, ← List.filter_append, ← dated.queue]
    rfl
  · have waiting := (List.mem_filter.mp member).1
    rw [List.forall_mem_append]
    refine ⟨dated.older peer waiting, List.forall_mem_singleton.mpr ?_⟩
    rintro ⟨-, -, -, -, -, fresh⟩
    exact fresh (dated.queue ▸ List.mem_append_left _ waiting)
  · rcases List.mem_append.mp member with waiting | newly
    · obtain ⟨earlier, among, withdrawn⟩ := dated.newer peer (List.mem_filter.mp waiting).1
      exact ⟨earlier, List.mem_append_left _ among, withdrawn⟩
    · obtain ⟨held, fresh⟩ := List.mem_filter.mp newly
      rw [Bool.and_eq_true, decide_eq_true_eq, decide_eq_true_eq, List.mem_filter] at fresh
      refine ⟨turn, by simp, trust, live, called, ExtTreeMap.mem_keys.mp held, fresh.1, ?_⟩
      exact fun retired => fresh.2 ⟨retired, decide_eq_true fresh.1⟩

end

theorem ManagerRun.dated (run : ManagerRun start (first ++ last) manager) :
    ∃ older newer, Dated last older newer manager.retired := by
  induction last using List.reverseRecOn generalizing manager with
  | nil => exact ⟨manager.retired, [], (List.append_nil _).symm, (fun _ _ _ none => nomatch none),
      fun _ none => nomatch none⟩
  | append_singleton last turn ih =>
    rw [← List.append_assoc] at run
    obtain ⟨earlier, rfl, events, path⟩ := run.last
    obtain ⟨older, newer, dated⟩ := ih earlier
    by_cases trusting : ∃ trust live, turn.call = .setTrust trust live
    · obtain ⟨trust, live, called⟩ := trusting
      obtain ⟨front, back, later⟩ := dated.retiring called
      rw [called] at path
      exact later.sublist (answer_setTrust _ _ path).sublist
    · have other : ∀ trust live, turn.call ≠ .setTrust trust live :=
        fun trust live called => trusting ⟨trust, live, called⟩
      have idle : ∀ peer, ¬turn.withdraws peer :=
        fun peer ⟨trust, live, called, _⟩ => other trust live called
      have same := (answer_framed _ _ _ path).retired other
      refine ⟨older, newer, same.trans dated.queue, fun peer member => ?_, fun peer member => ?_⟩
      · rw [List.forall_mem_append]
        exact ⟨dated.older peer member, List.forall_mem_singleton.mpr (idle peer)⟩
      · obtain ⟨joined, among, withdrawn⟩ := dated.newer peer member
        exact ⟨joined, List.mem_append_left _ among, withdrawn⟩

theorem Dated.spared {older newer : List TransportIdentity} {manager : ConnectionManager}
    (dated : Dated turns older newer manager.retiring) (distinct : manager.retiring.Nodup)
    (withdrawn : ∃ turn ∈ turns, turn.withdraws peer) (few : others.card < maxRetiredBookPeers)
    (counted : ∀ other ≠ peer, (∃ turn ∈ turns, turn.withdraws other) → other ∈ others) :
    peer ∉ manager.retiring.take manager.excess := by
  have apart : newer.Nodup := (List.nodup_append.mp (dated.queue ▸ distinct)).2.1
  have subset : newer.toFinset ⊆ insert peer others := by
    intro other member
    by_cases same : other = peer
    · exact same ▸ Finset.mem_insert_self _ _
    · exact Finset.mem_insert_of_mem
        (counted other same (dated.newer other (List.mem_toFinset.mp member)))
  have short : newer.length ≤ maxRetiredBookPeers := by
    rw [← List.toFinset_card_of_nodup apart]
    exact (Finset.card_le_card subset).trans ((Finset.card_insert_le _ _).trans few)
  have front : manager.excess ≤ older.length := by
    rw [excess, dated.queue, List.length_append]
    omega
  intro tried
  rw [dated.queue, List.take_append_of_le_length front] at tried
  obtain ⟨turn, among, here⟩ := withdrawn
  exact dated.older peer (List.mem_of_mem_take tried) turn among here

theorem Dated.oldestFirst {older newer : List TransportIdentity} {manager : ConnectionManager}
    (dated : Dated turns older newer manager.retiring) (waiting : earlier ∈ manager.retiring)
    (before : ∀ turn ∈ turns, ¬turn.withdraws earlier)
    (since : ∃ turn ∈ turns, turn.withdraws later)
    (reached : later ∈ manager.retiring.take manager.excess) :
    earlier ∈ manager.retiring.take manager.excess := by
  rw [dated.queue] at waiting reached ⊢
  rcases Nat.le_total manager.excess older.length with front | back
  · rw [List.take_append_of_le_length front] at reached
    obtain ⟨turn, among, here⟩ := since
    exact absurd here (dated.older later (List.mem_of_mem_take reached) turn among)
  · rw [List.take_append, List.take_of_length_le back]
    rcases List.mem_append.mp waiting with inOlder | inNewer
    · exact List.mem_append_left _ inOlder
    · obtain ⟨turn, among, here⟩ := dated.newer earlier inNewer
      exact absurd here (before turn among)

def Turn.removes (turn : Turn) (peer : TransportIdentity) (address : String) : Prop :=
  turn.call.strikes peer address ∧ address ∈ turn.before.policy.known peer ∧
    address ∉ turn.after.policy.known peer

theorem ConnectionManager.BookKept.known (kept : BookKept turn.before turn.after turn.call.strikes)
    (unknown : turn.before.classify peer = .unauthorized) (address : String) :
    address ∈ turn.after.policy.known peer ↔
      address ∈ turn.before.policy.known peer ∧ ¬turn.removes peer address := by
  constructor
  · exact fun stays => ⟨kept.sub peer unknown stays, fun removed => removed.2.2 stays⟩
  · rintro ⟨held, free⟩
    by_contra gone
    by_cases struck : turn.call.strikes peer address
    · exact free ⟨struck, held, gone⟩
    · exact gone (kept.kept peer unknown address held struck)

theorem ManagerRun.spares {trust : TrustSources}
    (run : ManagerRun start (first ++ last) turn.before) (fresh : Retirement start)
    (called : turn.call = .setTrust trust live)
    (retires : Retires (turn.before.withTrust trust) turn.after)
    (withdrawn : ∃ earlier ∈ last ++ [turn], earlier.withdraws peer)
    (few : others.card < maxRetiredBookPeers)
    (counted : ∀ other ≠ peer, (∃ earlier ∈ last ++ [turn], earlier.withdraws other) →
      other ∈ others) : turn.after.policy.known peer = turn.before.policy.known peer := by
  obtain ⟨older, newer, dated⟩ := run.dated
  obtain ⟨front, back, later⟩ := dated.retiring called
  have queue : (turn.before.withTrust trust).retiring.Nodup :=
    retiring_nodup (run.retirement fresh).distinct
  have apart := later.spared queue withdrawn few counted
  exact ConnectionPolicy.known_congr (retires.struck.others peer apart)

theorem run_keepsEntries (run : ManagerRun start (first ++ withdrawal :: during) manager)
    (fresh : Retirement start) (withdrawn : withdrawal.withdraws peer)
    (unknown : ∀ turn ∈ during, turn.before.classify peer = .unauthorized)
    (few : others.card < maxRetiredBookPeers)
    (counted : ∀ other ≠ peer, (∃ turn ∈ withdrawal :: during, turn.withdraws other) →
      other ∈ others) (address : String) :
    address ∈ manager.policy.known peer ↔
      address ∈ withdrawal.before.policy.known peer ∧
        ¬∃ turn ∈ during, turn.removes peer address := by
  induction during using List.reverseRecOn generalizing manager with
  | nil =>
    obtain ⟨earlier, rfl, events, path⟩ := run.last
    rw [← List.append_nil first] at earlier
    obtain ⟨trust, live, called, -⟩ := id withdrawn
    rw [called] at path
    have same := earlier.spares fresh called (answer_setTrust _ _ path)
      ⟨withdrawal, List.mem_singleton_self _, withdrawn⟩ few counted
    simp [same]
  | append_singleton during turn ih =>
    rw [← List.cons_append] at counted
    rw [← List.cons_append, ← List.append_assoc] at run
    obtain ⟨earlier, rfl, events, path⟩ := run.last
    have held : address ∈ turn.before.policy.known peer ↔
        address ∈ withdrawal.before.policy.known peer ∧
          ¬∃ turn ∈ during, turn.removes peer address :=
      ih earlier (fun turn member => unknown turn (List.mem_append_left _ member))
        fun other distinct ⟨joined, member, here⟩ =>
          counted other distinct ⟨joined, List.mem_append_left _ member, here⟩
    have here : address ∈ turn.after.policy.known peer ↔
        address ∈ turn.before.policy.known peer ∧ ¬turn.removes peer address := by
      by_cases trusting : ∃ trust live, turn.call = .setTrust trust live
      · obtain ⟨trust, live, called⟩ := trusting
        have idle : ¬turn.removes peer address := by
          rintro ⟨struck, -⟩
          rw [called] at struck
          exact struck
        rw [called] at path
        rw [earlier.spares fresh called (answer_setTrust _ _ path)
          ⟨withdrawal, by simp, withdrawn⟩ few counted]
        exact (and_iff_left idle).symm
      · have other : ∀ trust live, turn.call ≠ .setTrust trust live :=
          fun trust live called => trusting ⟨trust, live, called⟩
        exact (answer_bookKept other _ _ path).known (unknown turn (by simp)) address
    rw [here, held, and_assoc, ← not_or]
    simp

structure InStep (manager : ConnectionManager) : Prop where
  retired : ∀ peer ∈ manager.retired, manager.classify peer = .unauthorized
  book : ∀ peer ∈ manager.policy.book, manager.classify peer = .unauthorized →
    peer ∈ manager.retired

structure Untrusting (manager : ConnectionManager) : Prop where
  nobody : ∀ localPeer peer,
    { manager.trust with localPeer := localPeer }.classify peer = .unauthorized
  book : ∀ peer, peer ∉ manager.policy.book
  retired : manager.retired = []

def BindsFirst (turns : List Turn) : Prop :=
  turns.Pairwise fun first second => (∃ trust live, first.call = .setTrust trust live) →
    ∀ localPeer, second.call ≠ .bindLocalPeer localPeer

theorem ConnectionManager.BookKept.mem_book (kept : BookKept manager after strikes)
    (tidy : manager.policy.Tidy) (unknown : manager.classify peer = .unauthorized)
    (held : peer ∈ after.policy.book) :
    peer ∈ manager.policy.book := by
  obtain ⟨address, entered⟩ := Finset.nonempty_iff_ne_empty.mpr (kept.tidy tidy peer held)
  exact ConnectionPolicy.mem_book_of_known (kept.sub peer unknown entered)

theorem Untrusting.inStep (untrusting : Untrusting manager) : InStep manager :=
  ⟨fun _ member => absurd (untrusting.retired ▸ member) List.not_mem_nil,
    fun peer held => absurd held (untrusting.book peer)⟩

theorem answer_untrusting (untrusting : Untrusting manager)
    (other : ∀ trust live, call ≠ .setTrust trust live) :
    (manager.answer call).Gives fun result => Untrusting result.1 := by
  intro events result path
  have kept := answer_bookKept other _ _ path
  have tidy : manager.policy.Tidy := fun peer held => absurd held (untrusting.book peer)
  refine ⟨?_, fun peer held => untrusting.book peer
    (kept.mem_book tidy (untrusting.nobody manager.trust.localPeer peer) held),
    ((answer_framed _ _ _ path).retired other).trans untrusting.retired⟩
  by_cases binds : ∃ localPeer, call = .bindLocalPeer localPeer
  · obtain ⟨localPeer, rfl⟩ := binds
    have bound : (manager.answer (.bindLocalPeer localPeer)).Gives fun result =>
        result.1.trust = { manager.trust with localPeer := some localPeer } :=
      .map ((publish_republishes _).mono fun _ same => same.ordinary.trust)
    rw [bound _ _ path]
    exact untrusting.nobody
  · rw [(answer_framed _ _ _ path).trust other fun localPeer called => binds ⟨localPeer, called⟩]
    exact untrusting.nobody

theorem answer_inStep (inStep : InStep manager) (tidy : manager.policy.Tidy)
    (free : ∀ localPeer, call ≠ .bindLocalPeer localPeer) :
    (manager.answer call).Gives fun result => InStep result.1 := by
  intro events result path
  by_cases trusting : ∃ trust live, call = .setTrust trust live
  · obtain ⟨trust, live, rfl⟩ := trusting
    have retires := answer_setTrust _ _ path
    refine ⟨fun peer member => ?_, fun peer held unknown => retires.queued unknown held⟩
    rw [retires.classify]
    exact (mem_retiring.mp (retires.sublist.subset member)).1
  · have other : ∀ trust live, call ≠ .setTrust trust live :=
      fun trust live called => trusting ⟨trust, live, called⟩
    have kept := answer_bookKept other _ _ path
    have classes : ∀ peer, result.1.classify peer = manager.classify peer := fun peer =>
      congrArg (TrustSources.classify · peer) ((answer_framed _ _ _ path).trust other free)
    refine ⟨fun peer member => ?_, fun peer held unknown => ?_⟩
    · rw [(answer_framed _ _ _ path).retired other] at member
      exact (classes peer).trans (inStep.retired peer member)
    · rw [(answer_framed _ _ _ path).retired other]
      rw [classes] at unknown
      exact inStep.book peer (kept.mem_book tidy unknown held) unknown

theorem Setup.untrusting (setup : Setup) (id : ManagerId) : Untrusting (setup.manager id) := by
  refine ⟨fun localPeer peer => ?_, fun peer member => ?_, rfl⟩
  · simp [manager, new, TrustSources.default, TrustSources.new, TrustSources.classify,
      PeerTrustPolicy.default, PeerTrustPolicy.decide, TrustDecision.isAllowed,
      InfrastructureSet.default, InfrastructureSet.permitsControlConnection]
  · have empty : (setup.manager id).policy.book = ∅ := (setup.fresh id).2.1
    rw [empty] at member
    exact absurd member ExtTreeMap.not_mem_empty

theorem ManagerRun.inStep (run : ManagerRun start turns manager) (fresh : Retirement start)
    (untrusting : Untrusting start) (bound : BindsFirst turns) :
    InStep manager ∧
      ((∀ turn ∈ turns, ∀ trust live, turn.call ≠ .setTrust trust live) → Untrusting manager) := by
  induction run with
  | nil => exact ⟨untrusting.inStep, fun _ => untrusting⟩
  | @snoc turns manager after call reply events run path ih =>
    obtain ⟨earlier, -, ordered⟩ := List.pairwise_append.mp bound
    obtain ⟨inStep, opening⟩ := ih earlier
    refine ⟨?_, fun quiet => ?_⟩
    · by_cases binds : ∃ localPeer, call = .bindLocalPeer localPeer
      · obtain ⟨localPeer, rfl⟩ := binds
        have quiet : ∀ turn ∈ turns, ∀ trust live, turn.call ≠ .setTrust trust live :=
          fun turn member trust live called =>
            ordered turn member _ (List.mem_singleton_self _) ⟨trust, live, called⟩ localPeer rfl
        exact (answer_untrusting (opening quiet) (by simp) _ _ path).inStep
      · exact answer_inStep inStep (run.retirement fresh).tidy
          (fun localPeer called => binds ⟨localPeer, called⟩) _ _ path
    · rw [List.forall_mem_append, List.forall_mem_singleton] at quiet
      exact answer_untrusting (opening quiet.1) quiet.2 _ _ path

theorem book_follows_trust (setup : Setup) (id : ManagerId) (turns : List Turn)
    (manager : ConnectionManager) (run : ManagerRun (setup.manager id) turns manager) :
    (∀ first turn last trust live, turns = first ++ turn :: last →
      turn.call = .setTrust trust live →
      (∃ stuck : List TransportIdentity,
        (∀ peer ∈ stuck,
          peer ∈ (turn.before.withTrust trust).retiring.take (turn.before.withTrust trust).excess ∧
          ∃ address, turn.after.Stuck turn.before.clockMs peer address) ∧
        (turn.after.policy.book.keys.filter fun peer =>
          decide (turn.after.classify peer = .unauthorized ∧ peer ∉ stuck)).length ≤
            maxRetiredBookPeers) ∧
      (∀ before since earlier later, first = before ++ since →
        earlier ∈ turn.before.policy.book → turn.after.classify earlier = .unauthorized →
        (∀ other ∈ since ++ [turn], ¬other.withdraws earlier) →
        (∃ other ∈ since ++ [turn], other.withdraws later) →
        turn.after.policy.known later ≠ turn.before.policy.known later →
        ∀ address ∈ turn.after.policy.known earlier,
          turn.after.Stuck turn.before.clockMs earlier address) ∧
      ∀ peer address state, turn.before.policy.address peer address = some state →
        state.isPunitiveAt turn.before.clockMs = true →
        turn.after.policy.address peer address = some state) ∧
    (∀ first withdrawal during peer (others : Finset TransportIdentity),
      turns = first ++ withdrawal :: during → withdrawal.withdraws peer →
      (∀ turn ∈ during, turn.before.classify peer = .unauthorized) →
      others.card < maxRetiredBookPeers →
      (∀ other ≠ peer, (∃ turn ∈ withdrawal :: during, turn.withdraws other) → other ∈ others) →
      ∀ address, address ∈ manager.policy.known peer ↔
        address ∈ withdrawal.before.policy.known peer ∧
          ¬∃ turn ∈ during, turn.removes peer address) ∧
    (BindsFirst turns → ∀ turn ∈ turns, ∀ peer, turn.withdraws peer ↔
      (∃ trust live, turn.call = .setTrust trust live) ∧ peer ∈ turn.before.policy.book ∧
        turn.before.classify peer ≠ .unauthorized ∧
        turn.after.classify peer = .unauthorized) := by
  have fresh := setup.retirement id
  refine ⟨?_, ?_, ?_⟩
  · rintro first turn last trust live rfl called
    obtain ⟨earlierRun, -, events, path⟩ := run.upTo.last
    have kept := earlierRun.retirement fresh
    rw [called] at path
    have retires := answer_setTrust _ _ path
    refine ⟨retires.bounded kept.tidy, ?_, fun peer address => retires.struck.sheds.inForce _⟩
    rintro before since earlier later rfl held unknown waited joined changed
    obtain ⟨older, newer, dated⟩ := earlierRun.dated
    obtain ⟨front, back, queue⟩ := dated.retiring called
    have waiting : earlier ∈ (turn.before.withTrust trust).retiring :=
      mem_retiring.mpr ⟨(retires.classify earlier).symm.trans unknown, .inr held⟩
    have reached : later ∈
        (turn.before.withTrust trust).retiring.take (turn.before.withTrust trust).excess := by
      by_contra apart
      exact changed (ConnectionPolicy.known_congr (retires.struck.others later apart))
    exact retires.left earlier (queue.oldestFirst waiting waited joined reached)
  · rintro first withdrawal during peer others rfl withdrawn unknown few counted
    exact run_keepsEntries run fresh withdrawn unknown few counted
  · intro bound turn member peer
    obtain ⟨first, last, rfl⟩ := List.append_of_mem member
    obtain ⟨earlier, -, events, path⟩ := run.upTo.last
    obtain ⟨inStep, -⟩ := earlier.inStep fresh (setup.untrusting id)
      (List.pairwise_append.mp bound).1
    have classes : ∀ trust live, turn.call = .setTrust trust live →
        turn.after.classify peer = (turn.before.withTrust trust).classify peer := by
      intro trust live called
      rw [called] at path
      exact (answer_setTrust _ _ path).classify peer
    constructor
    · rintro ⟨trust, live, called, held, unknown, apart⟩
      exact ⟨⟨trust, live, called⟩, held, fun before => apart (inStep.book peer held before),
        (classes trust live called).trans unknown⟩
    · rintro ⟨⟨trust, live, called⟩, held, before, unknown⟩
      exact ⟨trust, live, called, held, (classes trust live called).symm.trans unknown,
        fun retired => before (inStep.retired peer retired)⟩

def Call.trust : Call → Option TrustSources
  | .setTrust trust _ => some trust
  | _ => none

theorem Turn.withdraws_iff (turn : Turn) (peer : TransportIdentity) : turn.withdraws peer ↔
    ∃ trust ∈ turn.call.trust, peer ∈ turn.before.policy.book ∧
      (turn.before.withTrust trust).classify peer = .unauthorized ∧ peer ∉ turn.before.retired := by
  obtain ⟨before, call, after, reply⟩ := turn
  cases call <;> simp [withdraws, Call.trust]

instance Turn.withdrawsDecides (turn : Turn) (peer : TransportIdentity) :
    Decidable (turn.withdraws peer) :=
  decidable_of_iff' _ (turn.withdraws_iff peer)

open DialSample

@[irreducible]
def DialSample.regaining : List Turn × ConnectionManager :=
  (setup.manager 0).play setup.shared
    [.setTrust trust [], .learnAddress remote "a" 0, .setTrust .default [], .setTrust trust []]

/-- A peer is learned, withdrawn and trusted again, and has the address it had. -/
theorem book_follows_trust_sample : (∃ withdrawal ∈ regaining.1, withdrawal.withdraws remote) ∧
    regaining.2.classify remote ≠ .unauthorized ∧ "a" ∈ regaining.2.policy.known remote := by
  have run : ManagerRun (setup.manager 0) regaining.1 regaining.2 := by
    unfold regaining
    exact (setup.manager 0).play_run setup.shared _
  obtain ⟨withdrawal, third⟩ : ∃ withdrawal, regaining.1[2]? = some withdrawal :=
    Option.isSome_iff_exists.mp (by decide +kernel)
  have split : regaining.1 = regaining.1.take 2 ++ withdrawal :: regaining.1.drop 3 := by
    obtain ⟨within, rfl⟩ := List.getElem?_eq_some_iff.mp third
    simp
  have withdrawn : ∀ turn ∈ regaining.1[2]?, turn.withdraws remote ∧
      "a" ∈ turn.before.policy.known remote := by decide +kernel
  obtain ⟨withdraws, held⟩ := withdrawn withdrawal third
  have alone : ∀ turn ∈ regaining.1, ∀ peer ∈ turn.before.policy.book.keys, peer = remote := by
    decide +kernel
  have stays : ∀ turn ∈ regaining.1.drop 3, "a" ∈ turn.after.policy.known remote := by
    decide +kernel
  have kept := (book_follows_trust setup 0 regaining.1 regaining.2 run).2.1 _ withdrawal _ remote ∅
    split withdraws (by decide +kernel) (by decide)
  refine ⟨⟨withdrawal, List.mem_of_getElem? third, withdraws⟩, by decide +kernel,
    (kept ?_ "a").mpr ⟨held, ?_⟩⟩
  · rintro other distinct ⟨turn, member, -, -, -, inBook, -⟩
    have among : turn ∈ regaining.1 := split ▸ List.mem_append_right _ member
    exact absurd (alone turn among other (ExtTreeMap.mem_keys.mpr inBook)) distinct
  · rintro ⟨turn, member, -, -, gone⟩
    exact gone (stays turn member)

end InterWeave
