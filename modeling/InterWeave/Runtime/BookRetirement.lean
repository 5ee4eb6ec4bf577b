import InterWeave.Runtime.BookDisplacement
import InterWeave.Runtime.NetworkLifts
import InterWeave.Runtime.Settlement

/-!
The book follows trust with a bounded memory. Peers that lose their class queue up; past the
bound the longest in the queue lose their entries, all but those whose quarantine in force has
nowhere else to go.
-/

namespace InterWeave

open Std (ExtTreeMap)
open Concurrent OrderedMap

namespace ConnectionPolicy

def Tidy (policy : ConnectionPolicy) : Prop :=
  ∀ peer ∈ policy.book, policy.known peer ≠ ∅

variable {policy : ConnectionPolicy} {peer : TransportIdentity} {address : String} {nowMs : Nat}

theorem mem_book_of_known (member : address ∈ policy.known peer) : peer ∈ policy.book := by
  rw [mem_iff_get]
  cases found : policy.book[peer]? with
  | none => simp [known, found] at member
  | some addresses => exact ⟨addresses, rfl⟩

theorem mem_book_congr {before after : ConnectionPolicy}
    (same : after.book[peer]? = before.book[peer]?) : peer ∈ after.book ↔ peer ∈ before.book := by
  rw [mem_iff_get, mem_iff_get, same]

theorem scoreAddressFailure_book (policy : ConnectionPolicy) (peer : TransportIdentity)
    (address : String) (nowMs : Nat) :
    (policy.scoreAddressFailure peer address nowMs).book = policy.book := by
  have roomy := (roomAfterPrune_same policy peer address nowMs).2.2
  unfold scoreAddressFailure
  dsimp only
  split
  · exact roomy
  · exact roomy

theorem makeRoomForPeer_book (policy : ConnectionPolicy) (nowMs : Nat) :
    (policy.makeRoomForPeer nowMs).1.book = policy.book := by
  unfold makeRoomForPeer
  split
  · rfl
  · dsimp only
    split <;> rfl

theorem recordAddressFailure_book (policy : ConnectionPolicy) (peer : TransportIdentity)
    (address : String) (nowMs backoffMs : Nat) :
    (policy.recordAddressFailure peer address nowMs backoffMs).1.book = policy.book := by
  have scored := scoreAddressFailure_book policy peer address nowMs
  unfold recordAddressFailure
  dsimp only
  split
  · exact scored
  · by_cases held : peer ∈ (policy.scoreAddressFailure peer address nowMs).peers
    · simp only [held, ↓reduceIte, Bool.not_true, Bool.false_eq_true]
      exact scored
    · simp only [held, ↓reduceIte]
      have roomy := (makeRoomForPeer_book (policy.scoreAddressFailure peer address nowMs)
        nowMs).trans scored
      split
      · exact roomy
      · exact roomy

theorem recordSuccess_book : (policy.recordSuccess peer address nowMs).book = policy.book := by
  obtain ⟨addresses, room, -⟩ := makeRoomForAddress_sheds
  unfold recordSuccess
  by_cases hasPlace : policy.placed peer address = true
  · simp only [hasPlace, ↓reduceIte, Bool.not_true, Bool.false_eq_true]
    rfl
  · simp only [hasPlace, Bool.false_eq_true, ↓reduceIte]
    have roomy : (policy.makeRoomForAddress nowMs).1.book = policy.book := by rw [room]
    split
    · exact roomy
    · exact roomy

theorem Tidy.addToBook (tidy : policy.Tidy) : (policy.addToBook peer address).Tidy := by
  intro other member
  by_cases same : other = peer
  · subst same
    rw [addToBook_known]
    exact Finset.insert_ne_empty _ _
  · rw [known_congr (addToBook_get same)]
    exact tidy other ((mem_book_congr (addToBook_get same)).mp member)

theorem Tidy.removeFromBook (tidy : policy.Tidy) : (policy.removeFromBook peer address).Tidy := by
  intro other member
  have get := removeFromBook_get policy peer other address
  by_cases same : peer = other
  · subst same
    rw [if_pos rfl] at get
    obtain ⟨addresses, found⟩ := (mem_iff_get _ _).mp member
    rw [get, Option.filter_eq_some_iff] at found
    rw [known, get, found.1, Option.filter, if_pos found.2]
    exact of_decide_eq_true found.2
  · rw [if_neg same] at get
    rw [known_congr get]
    exact tidy other ((mem_book_congr get).mp member)

end ConnectionPolicy

namespace ConnectionManager

variable {manager after : ConnectionManager} {peer : TransportIdentity} {address : String}
  {nowMs : Nat}

variable {peers : List TransportIdentity} {result : ConnectionManager × Bool}

def Stuck (manager : ConnectionManager) (nowMs : Nat) (peer : TransportIdentity)
    (address : String) : Prop :=
  address ∈ manager.policy.known peer ∧ ∃ state,
    manager.policy.address peer address = some state ∧ state.isPunitiveAt nowMs = true

theorem liveInBook_iff :
    manager.liveInBook peer address nowMs = true ↔ manager.Stuck nowMs peer address := by
  unfold liveInBook Stuck
  rw [Bool.and_eq_true, ConnectionPolicy.mem_known]
  cases manager.policy.address peer address <;> simp

structure Struck (peers : List TransportIdentity) (nowMs : Nat)
    (manager after : ConnectionManager) : Prop where
  frame : Republished { manager with policy := after.policy } after
  others : ∀ other ∉ peers, after.policy.book[other]? = manager.policy.book[other]?
  kept : ∀ peer ∈ after.policy.book, peer ∈ manager.policy.book
  sub : ∀ peer, after.policy.known peer ⊆ manager.policy.known peer
  sheds : ConnectionPolicy.Sheds nowMs manager.policy.addresses after.policy.addresses
  tidy : manager.policy.Tidy → after.policy.Tidy
  room : after.policy.maxAddresses = manager.policy.maxAddresses

theorem Struck.refl (peers : List TransportIdentity) (nowMs : Nat) (manager : ConnectionManager) :
    Struck peers nowMs manager manager :=
  ⟨.refl _, fun _ _ => rfl, fun _ member => member, fun _ => Finset.Subset.refl _, .refl _,
    fun tidy => tidy, rfl⟩

theorem Struck.trans (first : Struck peers nowMs manager after)
    (second : Struck peers nowMs after last) : Struck peers nowMs manager last := by
  refine ⟨?_, fun other apart => (second.others other apart).trans (first.others other apart),
    fun peer member => first.kept peer (second.kept peer member),
    fun peer => (second.sub peer).trans (first.sub peer), first.sheds.trans second.sheds,
    fun tidy => second.tidy (first.tidy tidy), second.room.trans first.room⟩
  have frame := first.frame
  generalize policyIs : after.policy = policy at frame
  obtain ⟨revision, owed⟩ := frame
  have later := second.frame
  generalize last.policy = final at later ⊢
  obtain ⟨revision, owed⟩ := later
  exact .intro revision owed

theorem Struck.mono (struck : Struck peers nowMs manager after) (subset : peers ⊆ more) :
    Struck more nowMs manager after :=
  ⟨struck.frame, fun other apart => struck.others other fun member => apart (subset member),
    struck.kept, struck.sub, struck.sheds, struck.tidy, struck.room⟩

theorem Struck.stuck (struck : Struck peers nowMs manager after)
    (held : manager.Stuck nowMs peer address) (stays : address ∈ after.policy.known peer) :
    after.Stuck nowMs peer address := by
  obtain ⟨-, state, found, punitive⟩ := held
  exact ⟨stays, state, struck.sheds.inForce _ state found punitive, punitive⟩

theorem HandedOver.struck (handed : HandedOver manager peer address nowMs result) :
    Struck [peer] nowMs manager result.1 ∧
      (∀ other ∈ manager.policy.known peer, other ≠ address → other ∈ result.1.policy.known peer) ∧
      (address ∈ result.1.policy.known peer → result.1.Stuck nowMs peer address) := by
  cases handed with
  | refused live => exact ⟨.refl _ _ _, fun _ member _ => member, fun _ => liveInBook_iff.mp live⟩
  | released exit same =>
    obtain ⟨revision, owed⟩ := same
    cases exit with
    | outside absent =>
      refine ⟨⟨.intro revision owed, fun _ _ => rfl, fun _ member => member,
        fun _ => Finset.Subset.refl _, .refl _, fun tidy => tidy, rfl⟩, fun _ member _ => member,
        fun member => ?_⟩
      exact nomatch absent.symm.trans (ConnectionPolicy.mem_known.mp member)
    | @removed addresses inside sheds _ =>
      have book := fun other => ConnectionPolicy.removeFromBook_get
        { manager.policy with addresses := addresses } peer other address
      have known : ({ manager.policy with addresses := addresses }.removeFromBook peer
          address).known peer = (manager.policy.known peer).erase address :=
        ConnectionPolicy.removeFromBook_known
      refine ⟨⟨.intro revision owed, fun other apart => ?_, fun other member => ?_,
        fun other => ?_, ?_, fun tidy => ?_, ?_⟩, fun other member distinct => ?_, fun member => ?_⟩
      · exact (book other).trans (if_neg fun same => apart (List.mem_singleton.mpr same.symm))
      · by_cases same : peer = other
        · exact same ▸ ConnectionPolicy.mem_book_of_known (ConnectionPolicy.mem_known.mpr inside)
        · exact (ConnectionPolicy.mem_book_congr ((book other).trans (if_neg same))).mp member
      · by_cases same : peer = other
        · subst same
          exact known.subset.trans (Finset.erase_subset _ _)
        · exact (ConnectionPolicy.known_congr ((book other).trans (if_neg same))).subset
      · dsimp only
        rw [ConnectionPolicy.removeFromBook_addresses]
        exact sheds
      · exact ConnectionPolicy.Tidy.removeFromBook
          (show ConnectionPolicy.Tidy { manager.policy with addresses := addresses } from tidy)
      · dsimp only
        rw [ConnectionPolicy.removeFromBook_framed]
      · exact known ▸ Finset.mem_erase.mpr ⟨distinct, member⟩
      · exact absurd rfl (Finset.mem_erase.mp (known ▸ member)).1

theorem handOverAll_struck (peer : TransportIdentity) (nowMs : Nat) (addresses : List String)
    (manager : ConnectionManager) :
    (handOverAll peer nowMs addresses manager).Gives fun after =>
      Struck [peer] nowMs manager after ∧
        ∀ address ∈ addresses, address ∈ after.policy.known peer →
          after.Stuck nowMs peer address := by
  induction addresses generalizing manager with
  | nil => exact .ret ⟨.refl _ _ _, fun _ none => nomatch none⟩
  | cons address rest ih =>
    refine .bind (handOver_gives manager) fun handed exit => ?_
    obtain ⟨first, -, held⟩ := exit.struck
    refine (ih handed.1).mono fun after ⟨later, left⟩ => ⟨first.trans later, ?_⟩
    intro other member stays
    rcases List.mem_cons.mp member with rfl | inRest
    · exact later.stuck (held (later.sub peer stays)) stays
    · exact left other inRest stays

structure PassedOver (peers : List TransportIdentity) (manager : ConnectionManager)
    (result : ConnectionManager × List TransportIdentity) : Prop where
  struck : Struck peers manager.clockMs manager result.1
  order : result.2.Sublist peers
  left : ∀ peer ∈ peers, ∀ address ∈ result.1.policy.known peer,
    result.1.Stuck manager.clockMs peer address
  stuck : ∀ peer ∈ peers, peer ∈ result.1.policy.book → peer ∈ result.2

theorem Struck.clockMs (struck : Struck peers nowMs manager after) :
    after.clockMs = manager.clockMs := by
  have frame := struck.frame
  generalize after.policy = policy at frame
  obtain ⟨revision, owed⟩ := frame
  rfl

theorem retireOldest_passes (peers : List TransportIdentity) (manager : ConnectionManager) :
    (retireOldest peers manager).Gives (PassedOver peers manager) := by
  induction peers generalizing manager with
  | nil =>
    exact .ret ⟨.refl _ _ _, .slnil, (fun _ none => nomatch none), fun _ none => nomatch none⟩
  | cons oldest rest ih =>
    refine .bind (handOverAll_struck oldest _ _ manager) fun emptied ⟨first, tried⟩ => ?_
    refine .bind (ih emptied) ?_
    rintro ⟨last, stuck⟩ passed
    have later := passed.struck
    rw [first.clockMs] at later
    have whole : Struck (oldest :: rest) manager.clockMs manager last :=
      (first.mono (by simp)).trans (later.mono (List.subset_cons_self _ _))
    refine .ret ⟨whole, ?_, ?_, ?_⟩
    · dsimp only
      split
      · exact passed.order.cons_cons _
      · exact passed.order.cons _
    · intro peer member address stays
      rcases List.mem_cons.mp member with rfl | inRest
      · have held := later.sub peer stays
        exact later.stuck (tried address (mem_bookAddresses.mpr (first.sub peer held)) held) stays
      · have left := passed.left peer inRest address stays
        rwa [first.clockMs] at left
    · intro peer member stays
      dsimp only
      rcases List.mem_cons.mp member with rfl | inRest
      · rw [if_pos (later.kept peer stays)]
        exact List.mem_cons_self
      · have among := passed.stuck peer inRest stays
        split
        · exact List.mem_cons_of_mem _ among
        · exact among

def excess (manager : ConnectionManager) : Nat :=
  manager.retiring.length - maxRetiredBookPeers

structure Retires (manager after : ConnectionManager) : Prop where
  trust : after.trust = manager.trust
  struck : Struck (manager.retiring.take manager.excess) manager.clockMs
    { manager with retired := after.retired } after
  left : ∀ peer ∈ manager.retiring.take manager.excess, ∀ address ∈ after.policy.known peer,
    after.Stuck manager.clockMs peer address
  queue : ∃ stuck : List TransportIdentity,
    stuck.Sublist (manager.retiring.take manager.excess) ∧
    (∀ peer ∈ manager.retiring.take manager.excess, peer ∈ after.policy.book → peer ∈ stuck) ∧
    after.retired = stuck ++ manager.retiring.drop manager.excess

theorem setTrust_gives {manager : ConnectionManager} {trust : TrustSources}
    {live : List TransportIdentity} :
    (manager.setTrust trust live).Gives fun result =>
      Retires (manager.withTrust trust) result.1 := by
  simp only [setTrust, retireUnclassifiedBookPeers, Prog.bind_eq, Prog.bind_assoc, Prog.ret_bind]
  refine .bind (retireOldest_passes _ _) ?_
  rintro ⟨passed, stuck⟩ exit
  refine .bind (publish_republishes _) ?_
  rintro _ ⟨revision, owed⟩
  have frame := exit.struck.frame
  refine .ret ⟨?_, ?_, exit.left, stuck, exit.order, exit.stuck, rfl⟩
  · dsimp only at frame ⊢
    generalize passed.policy = policy at frame
    obtain ⟨_, _⟩ := frame
    rfl
  · have struck := exit.struck
    refine ⟨?_, struck.others, struck.kept, struck.sub, struck.sheds, struck.tidy, struck.room⟩
    dsimp only at frame ⊢
    generalize passed.policy = policy at frame
    obtain ⟨_, _⟩ := frame
    exact .intro revision owed

structure BookKept (manager after : ConnectionManager)
    (strikes : TransportIdentity → String → Prop) : Prop where
  tidy : manager.policy.Tidy → after.policy.Tidy
  sub : ∀ peer, manager.classify peer = .unauthorized →
    after.policy.known peer ⊆ manager.policy.known peer
  kept : ∀ peer, manager.classify peer = .unauthorized → ∀ address ∈ manager.policy.known peer,
    ¬strikes peer address → address ∈ after.policy.known peer

section

variable {strikes : TransportIdentity → String → Prop}

theorem BookKept.of_get (same : ∀ peer, manager.classify peer = .unauthorized →
      after.policy.book[peer]? = manager.policy.book[peer]?)
    (tidy : manager.policy.Tidy → after.policy.Tidy) : BookKept manager after strikes where
  tidy := tidy
  sub := fun peer unknown => (ConnectionPolicy.known_congr (same peer unknown)).subset
  kept := fun peer unknown _ member _ =>
    (ConnectionPolicy.known_congr (same peer unknown)).symm ▸ member

theorem BookKept.of_book (same : after.policy.book = manager.policy.book) :
    BookKept manager after strikes := by
  refine .of_get (fun peer _ => by rw [same]) fun tidy peer member => ?_
  rw [ConnectionPolicy.known, same]
  exact tidy peer (same ▸ member)

theorem BookKept.congr (kept : BookKept first after strikes)
    (before : first.policy.book = manager.policy.book) (trust : first.trust = manager.trust)
    (later : last.policy.book = after.policy.book) :
    BookKept manager last strikes := by
  have classes : ∀ peer, first.classify peer = manager.classify peer := fun peer =>
    congrArg (TrustSources.classify · peer) trust
  have knownFirst : ∀ peer, first.policy.known peer = manager.policy.known peer := fun peer =>
    ConnectionPolicy.known_congr (by rw [before])
  have knownLast : ∀ peer, last.policy.known peer = after.policy.known peer := fun peer =>
    ConnectionPolicy.known_congr (by rw [later])
  refine ⟨fun tidy peer member => ?_, fun peer unknown => ?_, fun peer unknown address member => ?_⟩
  · rw [knownLast]
    refine kept.tidy (fun other held => ?_) peer (later ▸ member)
    rw [knownFirst]
    exact tidy other (before ▸ held)
  · rw [knownLast, ← knownFirst]
    exact kept.sub peer ((classes peer).trans unknown)
  · rw [knownLast]
    exact kept.kept peer ((classes peer).trans unknown) address ((knownFirst peer).symm ▸ member)

theorem Learned.bookKept (learned : Learned manager peer address nowMs result) :
    BookKept manager result.1 strikes := by
  have apart : ∀ other, manager.classify peer ≠ .unauthorized →
      manager.classify other = .unauthorized → other ≠ peer := by
    rintro other classified unknown rfl
    exact classified unknown
  cases learned with
  | unclassified | already | full => exact .of_book rfl
  | @displaced stale after classified outside crowded victim handed =>
    obtain ⟨held, -⟩ := bookVictim_sound victim
    obtain ⟨-, others, -⟩ :=
      handed.freed (show stale ∈ (manager.observe nowMs).policy.known peer from held)
    refine .of_get (fun other unknown => ?_) fun tidy => ?_
    · have distinct := apart other classified unknown
      rw [enterBook_policy, ConnectionPolicy.addToBook_get distinct, others other distinct]
      rfl
    · rw [enterBook_policy]
      exact (handed.struck.1.tidy tidy).addToBook
  | entered classified _ _ =>
    refine .of_get (fun other unknown => ?_) fun tidy => ?_
    · rw [enterBook_policy, ConnectionPolicy.addToBook_get (apart other classified unknown)]
      rfl
    · rw [enterBook_policy]
      exact ConnectionPolicy.Tidy.addToBook
        (show (manager.observe nowMs).policy.Tidy from tidy)

theorem HandedOver.bookKept (handed : HandedOver manager peer address nowMs result) :
    BookKept manager result.1 fun other struck => other = peer ∧ struck = address := by
  obtain ⟨struck, spared, -⟩ := handed.struck
  refine ⟨struck.tidy, fun other _ => struck.sub other, fun other _ entry member free => ?_⟩
  by_cases same : other = peer
  · subst same
    exact spared entry member fun isAddress => free ⟨rfl, isAddress⟩
  · have book := struck.others other fun isPeer => same (List.mem_singleton.mp isPeer)
    exact (ConnectionPolicy.known_congr book).symm ▸ member

end

end ConnectionManager

open ConnectionManager

def Call.strikes : Call → TransportIdentity → String → Prop
  | .recordPermanentFailure ticket _ => fun peer address =>
    ticket.peer = some peer ∧ ticket.address = address
  | .recordPermanentAddressFailureUnadmitted struck entry => fun peer address =>
    peer = struck ∧ address = entry
  | _ => fun _ _ => False

theorem Effect.bookKept (outcome : Effect manager call next) :
    BookKept manager next call.strikes := by
  cases outcome with
  | kept _ _ book => exact .of_book book
  | learned exit => exact exit.bookKept
  | failedUnadmitted exit =>
    exact exit.bookKept.congr (ConnectionPolicy.recordAddressFailure_book _ _ _ _ _) rfl rfl
  | droppedUnadmitted exit => exact exit.bookKept
  | spared _ _ => exact .of_book rfl
  | succeeded _ _ => exact .of_book ConnectionPolicy.recordSuccess_book
  | failed _ _ _ exit =>
    refine exit.bookKept.congr (ConnectionPolicy.recordAddressFailure_book _ _ _ _ _) rfl ?_
    rw [note_keeps.1]
    rfl
  | unreached _ _ exit _ =>
    cases exit with
    | unaddressed =>
      refine .of_book ?_
      rw [note_keeps.1, changeRetry_policy]
      rfl
    | learned exit =>
      refine exit.bookKept.congr (ConnectionPolicy.scoreAddressFailure_book _ _ _ _) rfl ?_
      rw [note_keeps.1, changeRetry_policy]
      rfl
  | @dropped ticket _ peer result _ named exit =>
    have kept : BookKept manager (claimAfter releaseRetryClaim result.1 ticket)
        fun other struck => other = peer ∧ struck = ticket.address :=
      exit.bookKept.congr rfl rfl
        (congrArg ConnectionPolicy.book (claimAfter_aside releaseRetryClaim_aside _ _).policy)
    refine ⟨kept.tidy, kept.sub, fun other unknown address member free => ?_⟩
    refine kept.kept other unknown address member ?_
    rintro ⟨rfl, rfl⟩
    exact free ⟨named, rfl⟩
  | abandoned _ _ =>
    exact .of_book (congrArg ConnectionPolicy.book
      (claimAfter_aside clearRetryClaim_aside _ _).policy)
  | mismatched _ _ quiet =>
    refine .of_book ?_
    rw [(claimAfter_aside releaseRetryClaim_aside _ _).policy, (quiet_untouched quiet).policy]
    exact (ConnectionPolicy.recordIdentityMismatch_same _ _ _ _).2.2

theorem answer_bookKept {manager : ConnectionManager}
    (other : ∀ trust live, call ≠ .setTrust trust live) :
    (manager.answer call).Gives fun result => BookKept manager result.1 call.strikes := by
  by_cases plain : call.Plain
  · refine (answer_comes manager plain).mono ?_
    rintro result ⟨next, outcome, same⟩
    exact outcome.bookKept.congr rfl rfl (congrArg ConnectionPolicy.book same.untouched.policy)
  · cases call <;> try exact absurd trivial plain
    case bindLocalPeer localPeer =>
      exact .map ((publish_republishes _).mono fun _ same =>
        .of_book (congrArg ConnectionPolicy.book same.untouched.policy))
    case setTrust trust live => exact absurd rfl (other trust live)
    case networkAdded nowMs =>
      exact .map (networkAdded_gives.mono fun _ added => .of_book added.book)
    case setMaxAddressesPerPeer limit => exact .ret (.of_book rfl)

end InterWeave
