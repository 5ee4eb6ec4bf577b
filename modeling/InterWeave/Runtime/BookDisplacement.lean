import InterWeave.Runtime.ManagerRuns

/-!
What learning an address can do to the book. A full book gives up one entry at most, and only
one that cannot be dialled, or that failed and is not the route proven last.
-/

namespace InterWeave

open Std (ExtTreeMap)
open Concurrent OrderedMap Extremum

namespace ConnectionPolicy

variable {policy : ConnectionPolicy} {peer other : TransportIdentity} {address : String}
  {nowMs : Nat}

structure ProvenLast (policy : ConnectionPolicy) (peer : TransportIdentity) (address : String) :
    Prop where
  held : address ∈ policy.known peer
  proven : ConnectionManager.lastSuccess policy peer address ≠ ⊥
  last : ∀ other ∈ policy.known peer, ConnectionManager.lastSuccess policy peer other ≤
    ConnectionManager.lastSuccess policy peer address
  smallest : ∀ other ∈ policy.known peer, ConnectionManager.lastSuccess policy peer other =
    ConnectionManager.lastSuccess policy peer address → address ≤ other

end ConnectionPolicy

namespace ConnectionManager

variable {manager : ConnectionManager} {peer : TransportIdentity} {address : String} {nowMs : Nat}

theorem mem_bookAddresses : address ∈ manager.bookAddresses peer ↔
    address ∈ manager.policy.known peer :=
  Finset.mem_sort _

theorem newestProven_eq (proven : manager.policy.ProvenLast peer address) :
    newestProven manager.policy peer (manager.bookAddresses peer) = some address := by
  refine maxByKey_eq_some ?_ ?_ ?_
  · intro one two same
    exact OrderDual.toDual.injective (congrArg (fun key => (ofLex key).2) same)
  · exact List.mem_filter.mpr
      ⟨mem_bookAddresses.mpr proven.held, decide_eq_true proven.proven⟩
  · intro other member
    have held := mem_bookAddresses.mp (List.mem_filter.mp member).1
    rcases (proven.last other held).lt_or_eq with earlier | same
    · exact (Prod.Lex.le_iff).mpr (.inl earlier)
    · exact (Prod.Lex.le_iff).mpr (.inr ⟨same, proven.smallest other held same⟩)

theorem bookVictim_sound
    (chosen : bookVictim manager.policy peer (manager.bookAddresses peer) nowMs = some address) :
    address ∈ manager.policy.known peer ∧
      (manager.policy.isAddressDialable peer address nowMs = true →
        0 < failures manager.policy peer address ∧ ¬manager.policy.ProvenLast peer address) := by
  obtain ⟨member, allowed⟩ := List.mem_filter.mp (maxByKey_mem chosen)
  refine ⟨mem_bookAddresses.mp member, fun dialable => ?_⟩
  rw [dialable] at allowed
  simp only [Bool.not_true, Bool.false_or, Bool.and_eq_true, decide_eq_true_eq] at allowed
  exact ⟨allowed.1, fun proven => allowed.2 (newestProven_eq proven)⟩

theorem HandedOver.freed (handed : HandedOver manager peer address nowMs (after, true))
    (held : address ∈ manager.policy.known peer) :
    after.policy.known peer = (manager.policy.known peer).erase address ∧
      (∀ other ≠ peer, after.policy.book[other]? = manager.policy.book[other]?) ∧
      ConnectionPolicy.Sheds nowMs manager.policy.addresses after.policy.addresses := by
  cases handed with
  | released exit same =>
    obtain ⟨revision, owed⟩ := same
    cases exit with
    | outside absent => exact nomatch absent.symm.trans (ConnectionPolicy.mem_known.mp held)
    | removed _ sheds _ =>
      refine ⟨ConnectionPolicy.removeFromBook_known, fun other distinct => ?_, ?_⟩
      · dsimp only
        rw [ConnectionPolicy.removeFromBook_get, if_neg (Ne.symm distinct)]
      · dsimp only
        rw [ConnectionPolicy.removeFromBook_addresses]
        exact sheds

theorem enterBook_policy :
    (manager.enterBook peer address nowMs).policy = manager.policy.addToBook peer address := by
  unfold enterBook
  rw [changeRetry_policy]

structure Displaces (manager : ConnectionManager) (peer : TransportIdentity) (address : String)
    (nowMs : Nat) (result : ConnectionManager × Bool) : Prop where
  bounded : (result.1.policy.known peer).card ≤
    max (manager.policy.known peer).card manager.maxAddressesPerPeer
  classified : result.1.policy.known peer ⊆ manager.policy.known peer ∨
    manager.classify peer ≠ .unauthorized ∧
      result.1.policy.known peer ⊆ insert address (manager.policy.known peer)
  others : ∀ other ≠ peer, result.1.policy.book[other]? = manager.policy.book[other]?
  once : (manager.policy.known peer \ result.1.policy.known peer).card ≤ 1
  spared : ∀ stale ∈ manager.policy.known peer \ result.1.policy.known peer,
    manager.policy.isAddressDialable peer stale nowMs = true →
      0 < failures manager.policy peer stale ∧ ¬manager.policy.ProvenLast peer stale
  quarantined : ∀ stale ∈ manager.policy.known peer \ result.1.policy.known peer,
    ∀ state, manager.policy.address peer stale = some state → state.isPunitiveAt nowMs = true →
      result.1.policy.address peer stale = some state
  refused : result.2 = false → result.1.policy.book = manager.policy.book ∧
    result.1.policy.addresses = manager.policy.addresses

theorem Displaces.unchanged (same : result.1.policy = manager.policy) :
    Displaces manager peer address nowMs result where
  bounded := by
    rw [same]
    exact le_max_left _ _
  classified := .inl (by rw [same])
  others := fun _ _ => by rw [same]
  once := by simp [same]
  spared := by simp [same]
  quarantined := by simp [same]
  refused := fun _ => by rw [same]; exact ⟨rfl, rfl⟩

theorem Learned.displaces (learned : Learned manager peer address nowMs result)
    (limit : 1 ≤ manager.maxAddressesPerPeer) :
    Displaces manager peer address nowMs result := by
  cases learned with
  | unclassified | already | full => exact .unchanged rfl
  | @displaced stale after classified outside crowded victim handed =>
    obtain ⟨held, spared⟩ := bookVictim_sound victim
    obtain ⟨fewer, others, sheds⟩ :=
      handed.freed (show stale ∈ (manager.observe nowMs).policy.known peer from held)
    have same : ((after.enterBook peer address nowMs).policy.known peer) =
        insert address ((manager.policy.known peer).erase stale) := by
      rw [enterBook_policy, ConnectionPolicy.addToBook_known, fewer]
      rfl
    have fresh : address ∉ manager.policy.known peer := fun member =>
      nomatch outside.symm.trans (ConnectionPolicy.mem_known.mp member)
    have gone : ∀ other ∈ manager.policy.known peer \
        (after.enterBook peer address nowMs).policy.known peer, other = stale := by
      intro other member
      rw [same] at member
      simp only [Finset.mem_sdiff, Finset.mem_insert, Finset.mem_erase, not_or, not_and] at member
      by_contra distinct
      exact member.2.2 distinct member.1
    refine ⟨?_, .inr ⟨classified, ?_⟩, ?_, ?_, ?_, ?_, fun none => nomatch none⟩
    · rw [same, Finset.card_insert_of_notMem (fun member => fresh (Finset.mem_of_mem_erase member)),
        Finset.card_erase_of_mem held]
      have some := Finset.card_pos.mpr ⟨stale, held⟩
      omega
    · rw [same]
      exact Finset.insert_subset_insert _ (Finset.erase_subset _ _)
    · intro other distinct
      rw [enterBook_policy, ConnectionPolicy.addToBook_get distinct, others other distinct]
      rfl
    · refine Finset.card_le_one.mpr fun one first two second => ?_
      rw [gone one first, gone two second]
    · intro other member
      rw [gone other member]
      exact spared
    · intro other member state found punitive
      rw [gone other member] at found ⊢
      rw [ConnectionPolicy.address, enterBook_policy]
      exact sheds.inForce _ state found punitive
  | entered classified outside room =>
    have same : (((manager.observe nowMs).enterBook peer address nowMs).policy.known peer) =
        insert address (manager.policy.known peer) := by
      rw [enterBook_policy, ConnectionPolicy.addToBook_known]
      rfl
    have none : manager.policy.known peer \
        ((manager.observe nowMs).enterBook peer address nowMs).policy.known peer = ∅ := by
      rw [same]
      exact Finset.sdiff_eq_empty_iff_subset.mpr (Finset.subset_insert _ _)
    refine ⟨?_, .inr ⟨classified, same.subset⟩, ?_, ?_, ?_, ?_, fun none => nomatch none⟩
    · rw [same]
      refine (Finset.card_insert_le _ _).trans (le_max_of_le_right ?_)
      cases found : manager.policy.book[peer]? with
      | none => simpa [ConnectionPolicy.known, found] using limit
      | some addresses => simpa [ConnectionPolicy.known, found] using room addresses found
    · intro other distinct
      rw [enterBook_policy, ConnectionPolicy.addToBook_get distinct]
      rfl
    · simp [none]
    · simp [none]
    · simp [none]

end ConnectionManager

open ConnectionManager

/-- Displacing an address is safe. Learning makes a book no longer than it was or the limit
allows, adds nothing for a peer without a class and takes out one entry at most; none that can
be dialled and has not failed, and none that can be dialled and is proven last. A quarantine in
force outlives its entry, and a refusal changes neither book nor records. -/
theorem learning_displaces_safely (setup : Setup) (id : ManagerId) (turns : List Turn)
    (manager : ConnectionManager) (run : ManagerRun (setup.manager id) turns manager)
    (peer : TransportIdentity) (address : String) (nowMs : Nat) :
    (manager.learnAddress peer address nowMs).Gives fun result =>
      (result.1.policy.known peer).card ≤
        max (manager.policy.known peer).card manager.maxAddressesPerPeer ∧
      (manager.classify peer = .unauthorized →
        result.1.policy.known peer ⊆ manager.policy.known peer) ∧
      (∀ other ≠ peer, result.1.policy.book[other]? = manager.policy.book[other]?) ∧
      (manager.policy.known peer \ result.1.policy.known peer).card ≤ 1 ∧
      (∀ stale ∈ manager.policy.known peer \ result.1.policy.known peer,
        ¬(manager.policy.isAddressDialable peer stale nowMs = true ∧
          (failures manager.policy peer stale = 0 ∨ manager.policy.ProvenLast peer stale)) ∧
        ∀ state, manager.policy.address peer stale = some state →
          state.isPunitiveAt nowMs = true →
          result.1.policy.address peer stale = some state) ∧
      (result.2 = false → result.1.policy.book = manager.policy.book ∧
        result.1.policy.addresses = manager.policy.addresses) := by
  have limit : 1 ≤ manager.maxAddressesPerPeer :=
    run.always (show 1 ≤ defaultMaxAddressesPerPeer by decide) fun manager _ limit =>
      (answer_framed manager).mono fun _ framed => framed.limit limit
  refine (learnAddress_gives manager).mono fun result learned => ?_
  have displaces := learned.displaces limit
  refine ⟨displaces.bounded, fun unknown => ?_, displaces.others, displaces.once,
    fun stale member => ⟨?_, displaces.quarantined stale member⟩, displaces.refused⟩
  · exact displaces.classified.resolve_right fun classified => classified.1 unknown
  · rintro ⟨dialable, kept⟩
    obtain ⟨failed, superseded⟩ := displaces.spared stale member dialable
    rcases kept with sound | proven
    · omega
    · exact superseded proven

open DialSample

@[irreducible]
def DialSample.crowded : List Turn × ConnectionManager :=
  (setup.manager 0).play setup.shared
    [.setTrust trust [], .setMaxAddressesPerPeer 1, .learnAddress remote "a" 0,
      .recordIdentityMismatch (trusting.snapshot.ticket ⟨some remote, "a", .manual⟩ 0) 1]

/-- A book that holds one address learns another: the quarantined entry leaves, its record and
its quarantine stay. -/
theorem learning_displaces_safely_sample : ∃ after state events,
    ManagerRun (setup.manager 0) crowded.1 crowded.2 ∧
    (crowded.2.learnAddress remote "b" 2).Path events (.ret (after, true)) ∧
    "a" ∈ crowded.2.policy.known remote ∧ "a" ∉ after.policy.known remote ∧
    (after.policy.known remote).card ≤ 1 ∧
    ¬(crowded.2.policy.isAddressDialable remote "a" 2 = true ∧
      (failures crowded.2.policy remote "a" = 0 ∨ crowded.2.policy.ProvenLast remote "a")) ∧
    state.isPunitiveAt 2 = true ∧ after.policy.address remote "a" = some state := by
  have run : ManagerRun (setup.manager 0) crowded.1 crowded.2 := by
    unfold crowded
    exact (setup.manager 0).play_run setup.shared _
  obtain ⟨state, found, punitive⟩ : ∃ state ∈ crowded.2.policy.address remote "a",
      state.isPunitiveAt 2 = true := by decide +kernel
  obtain ⟨⟨⟨after, answer⟩, world⟩, ended⟩ : ∃ last,
      (crowded.2.learnAddress remote "b" 2).alone World.perform setup.shared = some last :=
    Option.isSome_iff_exists.mp (by decide +kernel)
  have displaced : ((crowded.2.learnAddress remote "b" 2).alone World.perform setup.shared).all
      (fun last => decide (last.1.2 = true ∧
        "a" ∈ crowded.2.policy.known remote ∧ "a" ∉ last.1.1.policy.known remote)) = true := by
    decide +kernel
  rw [ended, Option.all_some, decide_eq_true_eq] at displaced
  obtain ⟨rfl, held, gone⟩ := displaced
  obtain ⟨events, alone⟩ := Prog.alone_ends World.perform_exec ended
  obtain ⟨bounded, -, -, -, stale, -⟩ :=
    learning_displaces_safely setup 0 crowded.1 crowded.2 run remote "b" 2 _ _ alone.path
  obtain ⟨spared, kept⟩ := stale "a" (Finset.mem_sdiff.mpr ⟨held, gone⟩)
  exact ⟨after, state, events, run, alone.path, held, gone, bounded.trans (by decide +kernel),
    spared, punitive, kept state found punitive⟩

end InterWeave
