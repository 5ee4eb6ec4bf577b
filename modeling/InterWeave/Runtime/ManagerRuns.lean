import InterWeave.Runtime.ConnectionPolicy
import InterWeave.Runtime.DialAlone

/-!
The life of one manager: the calls it answers, one after another, each with whatever answers
its atomic operations get. What a call can do to the manager's own state is said here; how its
atomic operations mix with those of other threads does not matter for it.
-/

namespace InterWeave

open Std (ExtTreeMap)
open Concurrent OrderedMap

namespace ConnectionManager

inductive Republished (manager : ConnectionManager) : ConnectionManager → Prop
  | intro (revision owed : Nat) :
      Republished manager { manager with revision := revision, outcomesToReturn := owed }

theorem Republished.refl (manager : ConnectionManager) : Republished manager manager :=
  .intro manager.revision manager.outcomesToReturn

theorem Republished.trans (left : Republished first second) (right : Republished second third) :
    Republished first third := by
  obtain ⟨revision, owed⟩ := left
  obtain ⟨revision, owed⟩ := right
  exact .intro revision owed

inductive Ordinary (manager : ConnectionManager) : ConnectionManager → Prop
  | intro (policy : ConnectionPolicy) (retries : ExtTreeMap TransportIdentity Retry)
      (notes : List GateNote) (revision owed dropped clockMs : Nat) :
      Ordinary manager { manager with
        policy := policy
        retries := retries
        notes := notes
        revision := revision
        outcomesToReturn := owed
        notesDropped := dropped
        clockMs := clockMs }

theorem Ordinary.refl (manager : ConnectionManager) : Ordinary manager manager :=
  .intro manager.policy manager.retries manager.notes manager.revision manager.outcomesToReturn
    manager.notesDropped manager.clockMs

theorem Ordinary.trans (left : Ordinary first second) (right : Ordinary second third) :
    Ordinary first third := by
  obtain ⟨_, _, _, _, _, _, _⟩ := left
  obtain ⟨policy, retries, notes, revision, owed, dropped, clockMs⟩ := right
  exact .intro policy retries notes revision owed dropped clockMs

section

variable {manager after : ConnectionManager} (ordinary : Ordinary manager after)

include ordinary

theorem Ordinary.id : after.id = manager.id := by
  cases ordinary
  rfl

theorem Ordinary.trust : after.trust = manager.trust := by
  cases ordinary
  rfl

theorem Ordinary.networkLifts : after.networkLifts = manager.networkLifts := by
  cases ordinary
  rfl

theorem Ordinary.retired : after.retired = manager.retired := by
  cases ordinary
  rfl

theorem Ordinary.maxAddressesPerPeer : after.maxAddressesPerPeer = manager.maxAddressesPerPeer := by
  cases ordinary
  rfl

end

theorem Republished.ordinary (same : Republished manager after) : Ordinary manager after := by
  obtain ⟨revision, owed⟩ := same
  exact .intro _ _ _ revision owed _ _

variable {manager after : ConnectionManager}

inductive Aside (manager : ConnectionManager) : ConnectionManager → Prop
  | intro (retries : ExtTreeMap TransportIdentity Retry) (notes : List GateNote)
      (notesDropped : Nat) :
      Aside manager { manager with
        retries := retries
        notes := notes
        notesDropped := notesDropped }

theorem Aside.refl (manager : ConnectionManager) : Aside manager manager :=
  .intro manager.retries manager.notes manager.notesDropped

theorem Aside.trans (first : Aside manager after) (second : Aside after last) :
    Aside manager last := by
  obtain ⟨_, _, _⟩ := first
  obtain ⟨retries, notes, dropped⟩ := second
  exact .intro retries notes dropped

theorem Aside.policy (aside : Aside manager after) : after.policy = manager.policy := by
  cases aside
  rfl

theorem Aside.ordinary (aside : Aside manager after) : Ordinary manager after := by
  obtain ⟨retries, notes, dropped⟩ := aside
  exact .intro _ retries notes _ _ dropped _

theorem changeRetry_aside (manager : ConnectionManager) (peer : TransportIdentity)
    (change : Retry → Retry) : Aside manager (manager.changeRetry peer change) := by
  unfold changeRetry
  split <;> exact .intro _ _ _

theorem claimAfter_aside (aside : ∀ manager peer, Aside manager (change manager peer))
    (manager : ConnectionManager) (ticket : DialTicket) :
    Aside manager (claimAfter change manager ticket) := by
  unfold claimAfter
  split
  · split
    · exact .refl manager
    · exact aside manager _
  · exact .refl manager

theorem changeRetry_policy (manager : ConnectionManager) :
    (manager.changeRetry peer change).policy = manager.policy :=
  (changeRetry_aside manager peer change).policy

theorem clearRetryClaim_aside (manager : ConnectionManager) (peer : TransportIdentity) :
    Aside manager (manager.clearRetryClaim peer) :=
  .intro _ _ _

theorem releaseRetryClaim_aside (manager : ConnectionManager) (peer : TransportIdentity) :
    Aside manager (manager.releaseRetryClaim peer) :=
  changeRetry_aside manager peer _

theorem note_aside (manager : ConnectionManager) {note : GateNote} :
    Aside manager (manager.note note) := by
  unfold ConnectionManager.note
  split <;> exact .intro _ _ _

theorem scheduleRetry_aside (manager : ConnectionManager) :
    Aside manager (manager.scheduleRetry peer nowMs delayMs claimed).1 :=
  .intro _ _ _

theorem observe_ordinary (manager : ConnectionManager) (nowMs : Nat) :
    Ordinary manager (manager.observe nowMs) := .intro _ _ _ _ _ _ _

theorem policy_ordinary (manager : ConnectionManager) (policy : ConnectionPolicy) :
    Ordinary manager { manager with policy := policy } := .intro _ _ _ _ _ _ _

theorem changeRetry_get (manager : ConnectionManager) :
    (manager.changeRetry peer change).retries[other]? =
      if other = peer then manager.retries[other]?.map change else manager.retries[other]? := by
  unfold changeRetry
  cases found : manager.retries[peer]? with
  | none =>
    by_cases same : other = peer
    · subst same
      simp [found]
    · simp [same]
  | some entry =>
    by_cases same : other = peer
    · subst same
      simp [found]
    · simp [get_insert, same, Ne.symm same]

theorem returnOutcomes_republishes (manager : ConnectionManager) :
    manager.returnOutcomes.Gives (Republished manager) := by
  unfold returnOutcomes
  split
  · exact .after _ fun _ => .ret (.intro _ _)
  · exact .ret (.refl _)

theorem publish_republishes (manager : ConnectionManager) :
    manager.publish.Gives (Republished manager) := by
  refine .after _ fun _ => (returnOutcomes_republishes _).mono fun after same => ?_
  exact (Republished.intro _ _ : Republished manager manager.nextRevision).trans same

theorem settle_republishes (manager : ConnectionManager) :
    (manager.settle ticket).Gives (Republished manager) :=
  .after _ fun _ => .after _ fun _ => .ret (.intro _ _)

theorem settleAndPublish_republishes (manager : ConnectionManager) :
    (manager.settleAndPublish ticket).Gives (Republished manager) :=
  .bind (settle_republishes manager) fun settled same =>
    (publish_republishes settled).mono fun _ next => same.trans next

theorem keepConnection_republishes (manager : ConnectionManager) :
    (manager.keepConnection ticket).Gives fun kept => Republished manager kept.1 :=
  .bind (settle_republishes manager) fun _ same => .ret same

inductive HandedOver (manager : ConnectionManager) (peer : TransportIdentity) (address : String)
    (nowMs : Nat) : ConnectionManager × Bool → Prop
  | refused (live : manager.liveInBook peer address nowMs = true) :
      HandedOver manager peer address nowMs (manager, false)
  | released {policy : ConnectionPolicy} {after : ConnectionManager}
      (exit : manager.policy.Released peer address nowMs (policy, true))
      (same : Republished { manager with policy := policy } after) :
      HandedOver manager peer address nowMs (after, true)

theorem handOver_gives (manager : ConnectionManager) :
    (manager.handOver peer address nowMs).Gives (HandedOver manager peer address nowMs) := by
  have exit := manager.policy.releaseFromBook_exit peer address nowMs
  simp only [handOver, Prog.bind_eq]
  generalize manager.policy.releaseFromBook peer address nowMs = answer at exit ⊢
  obtain ⟨policy, freed⟩ := answer
  cases live : manager.liveInBook peer address nowMs with
  | false =>
    rw [if_pos (by simp)]
    cases freed with
    | true => exact .ret (.released exit (.refl _))
    | false =>
      cases exit with
      | refused inside found punitive => simp [liveInBook, inside, found, punitive] at live
  | true =>
    rw [if_neg (by simp)]
    refine .after _ fun answer => ?_
    cases answer with
    | error _ => exact .ret (.refused live)
    | ok _ =>
      dsimp only
      cases freed with
      | true =>
        rw [if_neg (by simp)]
        refine .bind (publish_republishes _) fun after same => .ret (.released exit ?_)
        exact (Republished.intro _ _).trans same
      | false =>
        rw [if_pos (by simp)]
        cases exit
        exact .after _ fun _ => .ret (.refused live)

theorem HandedOver.ordinary (handed : HandedOver manager peer address nowMs result) :
    Ordinary manager result.1 := by
  cases handed with
  | refused _ => exact .refl _
  | released _ same => exact (policy_ordinary _ _).trans same.ordinary

theorem handOver_ordinary (manager : ConnectionManager) :
    (manager.handOver peer address nowMs).Gives fun result => Ordinary manager result.1 :=
  (handOver_gives manager).mono fun _ handed => handed.ordinary

theorem enterBook_ordinary (manager : ConnectionManager) :
    Ordinary manager (manager.enterBook peer address nowMs) :=
  (policy_ordinary _ _).trans (changeRetry_aside _ _ _).ordinary

inductive Learned (manager : ConnectionManager) (peer : TransportIdentity) (address : String)
    (nowMs : Nat) : ConnectionManager × Bool → Prop
  | unclassified (unknown : manager.classify peer = .unauthorized) :
      Learned manager peer address nowMs (manager.observe nowMs, false)
  | already (classified : manager.classify peer ≠ .unauthorized)
      (inside : inBook manager.policy.book peer address = true) :
      Learned manager peer address nowMs (manager.observe nowMs, true)
  | full (classified : manager.classify peer ≠ .unauthorized)
      (outside : inBook manager.policy.book peer address = false)
      (crowded : ∃ known, manager.policy.book[peer]? = some known ∧
        manager.maxAddressesPerPeer ≤ known.card) :
      Learned manager peer address nowMs (manager.observe nowMs, false)
  | displaced {stale : String} {after : ConnectionManager}
      (classified : manager.classify peer ≠ .unauthorized)
      (outside : inBook manager.policy.book peer address = false)
      (crowded : ∃ known, manager.policy.book[peer]? = some known ∧
        manager.maxAddressesPerPeer ≤ known.card)
      (victim : bookVictim manager.policy peer (manager.bookAddresses peer) nowMs = some stale)
      (handed : HandedOver (manager.observe nowMs) peer stale nowMs (after, true)) :
      Learned manager peer address nowMs (after.enterBook peer address nowMs, true)
  | entered (classified : manager.classify peer ≠ .unauthorized)
      (outside : inBook manager.policy.book peer address = false)
      (room : ∀ known, manager.policy.book[peer]? = some known →
        known.card < manager.maxAddressesPerPeer) :
      Learned manager peer address nowMs
        ((manager.observe nowMs).enterBook peer address nowMs, true)

theorem learnAddress_gives (manager : ConnectionManager) :
    (manager.learnAddress peer address nowMs).Gives (Learned manager peer address nowMs) := by
  have policy : (manager.observe nowMs).policy = manager.policy := rfl
  have limit : (manager.observe nowMs).maxAddressesPerPeer = manager.maxAddressesPerPeer := rfl
  have classes : (manager.observe nowMs).classify peer = manager.classify peer := rfl
  have kept : (manager.observe nowMs).bookAddresses peer = manager.bookAddresses peer := rfl
  simp only [learnAddress, Prog.bind_eq, policy, limit, classes, kept]
  by_cases unknown : manager.classify peer = .unauthorized
  · rw [if_pos unknown]
    exact .ret (.unclassified unknown)
  rw [if_neg unknown]
  cases inside : inBook manager.policy.book peer address with
  | true =>
    rw [if_pos rfl]
    exact .ret (.already unknown inside)
  | false =>
    rw [if_neg (by simp)]
    cases crowded : manager.policy.book[peer]?.any fun known =>
        decide (known.card ≥ manager.maxAddressesPerPeer) with
    | true =>
      rw [if_pos rfl]
      have full : ∃ known, manager.policy.book[peer]? = some known ∧
          manager.maxAddressesPerPeer ≤ known.card := by
        obtain ⟨known, found, many⟩ := (Option.any_eq_true _ _).mp crowded
        exact ⟨known, found, of_decide_eq_true many⟩
      cases victim : bookVictim manager.policy peer (manager.bookAddresses peer) nowMs with
      | none => exact .ret (.full unknown inside full)
      | some stale =>
        refine .bind (handOver_gives _) ?_
        rintro ⟨after, freed⟩ handed
        cases freed with
        | false =>
          cases handed
          exact .ret (.full unknown inside full)
        | true => exact .ret (.displaced unknown inside full victim handed)
    | false =>
      rw [if_neg (by simp)]
      refine .ret (.entered unknown inside fun known found => ?_)
      rw [found, Option.any_some, decide_eq_false_iff_not] at crowded
      omega

theorem Learned.ordinary (learned : Learned manager peer address nowMs result) :
    Ordinary manager result.1 := by
  have observed := observe_ordinary manager nowMs
  cases learned with
  | unclassified | already | full => exact observed
  | displaced _ _ _ _ handed =>
    exact (observed.trans handed.ordinary).trans (enterBook_ordinary _)
  | entered _ _ _ => exact observed.trans (enterBook_ordinary _)

theorem Ordinary.publish (ordinary : Ordinary manager after) :
    after.publish.Gives (Ordinary manager) :=
  (publish_republishes after).mono fun _ same => ordinary.trans same.ordinary

theorem reclaim_aside {entries : List (TransportIdentity × Retry)} (manager : ConnectionManager) :
    Aside manager (entries.foldl (fun manager entry => manager.reclaimRetry entry.1) manager) := by
  induction entries generalizing manager with
  | nil => exact .refl _
  | cons entry rest ih => exact (changeRetry_aside _ _ _).trans (ih _)

theorem handOverAll_ordinary (manager : ConnectionManager) :
    (handOverAll peer nowMs addresses manager).Gives (Ordinary manager) := by
  induction addresses generalizing manager with
  | nil => exact .ret (.refl _)
  | cons address rest ih =>
    exact .bind (handOver_ordinary manager) fun handed ordinary =>
      (ih handed.1).mono fun _ later => ordinary.trans later

theorem retireOldest_ordinary (manager : ConnectionManager) :
    (retireOldest peers manager).Gives fun result => Ordinary manager result.1 := by
  induction peers generalizing manager with
  | nil => exact .ret (.refl _)
  | cons oldest rest ih =>
    refine .bind (handOverAll_ordinary manager) fun emptied ordinary => ?_
    exact .bind (ih emptied) fun last later => .ret (ordinary.trans later)

theorem retireUnclassifiedBookPeers_ordinary (manager : ConnectionManager) :
    manager.retireUnclassifiedBookPeers.Gives fun retiring =>
      ∃ retired, Ordinary { manager with retired := retired } retiring := by
  refine .bind (retireOldest_ordinary _) ?_
  rintro ⟨last, stuck⟩ ordinary
  obtain ⟨policy, retries, notes, revision, owed, dropped, clockMs⟩ := ordinary
  exact .ret ⟨_, .intro policy retries notes revision owed dropped clockMs⟩

theorem setTrust_ordinary (manager : ConnectionManager) {trust : TrustSources}
    {live : List TransportIdentity} :
    (manager.setTrust trust live).Gives fun result =>
      ∃ retired, Ordinary { manager.withTrust trust with retired := retired } result.1 := by
  refine .bind (retireUnclassifiedBookPeers_ordinary _) ?_
  rintro retiring ⟨retired, ordinary⟩
  exact .bind ordinary.publish fun _ last => .ret ⟨retired, last⟩

theorem liftPeer_ordinary (nowMs : Nat) (lifts : ConnectionManager × Nat)
    (peer : TransportIdentity) :
    ∃ networkLifts, Ordinary { lifts.1 with networkLifts := networkLifts }
      (liftPeer nowMs lifts peer).1 := by
  obtain ⟨manager, lifted⟩ := lifts
  unfold liftPeer
  dsimp only
  generalize Option.any _ manager.retries[peer]? = retry
  have changed : Ordinary manager (if retry = true then
      { manager with policy := (manager.policy.liftPeerBackoff peer nowMs).1 }.changeRetry peer
        fun entry => { entry with dueAtMs := nowMs }
      else { manager with policy := (manager.policy.liftPeerBackoff peer nowMs).1 }) := by
    split
    · exact (policy_ordinary _ _).trans (changeRetry_aside _ _ _).ordinary
    · exact policy_ordinary _ _
  generalize (if retry = true then
      { manager with policy := (manager.policy.liftPeerBackoff peer nowMs).1 }.changeRetry peer
        fun entry => { entry with dueAtMs := nowMs }
      else { manager with policy := (manager.policy.liftPeerBackoff peer nowMs).1 }) = next
    at changed ⊢
  split
  · obtain ⟨policy, retries, notes, revision, owed, dropped, clockMs⟩ := changed
    exact ⟨_, .intro policy retries notes revision owed dropped clockMs⟩
  · exact ⟨manager.networkLifts, changed⟩

theorem networkAdded_ordinary (manager : ConnectionManager) :
    (manager.networkAdded nowMs).Gives fun result =>
      ∃ networkLifts, Ordinary { manager with networkLifts := networkLifts } result.1 := by
  have lifting : ∀ (peers : List TransportIdentity) (lifts : ConnectionManager × Nat),
      ∃ networkLifts, Ordinary { lifts.1 with networkLifts := networkLifts }
        (peers.foldl (liftPeer nowMs) lifts).1 := by
    intro peers
    induction peers with
    | nil => exact fun lifts => ⟨lifts.1.networkLifts, .refl _⟩
    | cons peer rest ih =>
      intro lifts
      obtain ⟨_, first⟩ := liftPeer_ordinary nowMs lifts peer
      obtain ⟨networkLifts, later⟩ := ih (liftPeer nowMs lifts peer)
      refine ⟨networkLifts, Ordinary.trans ?_ later⟩
      generalize (liftPeer nowMs lifts peer).1 = next at first
      obtain ⟨policy, retries, notes, revision, owed, dropped, clockMs⟩ := first
      exact .intro policy retries notes revision owed dropped clockMs
  simp only [networkAdded, Prog.bind_eq]
  generalize ((_ : List TransportIdentity).toFinset.sort (· ≤ ·)) = peers
  obtain ⟨networkLifts, lifted⟩ := lifting peers ({ manager.observe nowMs with
    networkLifts := (manager.observe nowMs).networkLifts.filter fun peer atMs =>
      decide (nowMs - atMs < retryBaseMs) &&
        decide ((manager.observe nowMs).classify peer ≠ .unauthorized) }, 0)
  have whole : Ordinary { manager with networkLifts := networkLifts } _ :=
    Ordinary.trans (.intro _ _ _ _ _ _ _) lifted
  split
  · exact .bind whole.publish fun _ last => .ret ⟨networkLifts, last⟩
  · exact .ret ⟨networkLifts, whole⟩

end ConnectionManager

open ConnectionManager

def Call.Plain : Call → Prop
  | .bindLocalPeer _ | .setTrust _ _ | .networkAdded _ | .setMaxAddressesPerPeer _ => False
  | _ => True

inductive Scored (manager : ConnectionManager) (peer : TransportIdentity) (address : String)
    (nowMs : Nat) : ConnectionManager → Prop
  | unaddressed : Scored manager peer address nowMs manager
  | learned {result : ConnectionManager × Bool}
      (exit : Learned
        { manager with policy := manager.policy.scoreAddressFailure peer address nowMs }
        peer address nowMs result) :
      Scored manager peer address nowMs result.1

theorem scoreAddress_gives (manager : ConnectionManager) :
    (manager.scoreAddress peer address nowMs).Gives (Scored manager peer address nowMs) := by
  simp only [scoreAddress, Prog.bind_eq]
  split
  · exact .ret .unaddressed
  · exact .bind (learnAddress_gives _) fun _ exit => .ret (.learned exit)

/-- What a call makes of the manager, up to the publication that ends it. A ticket whose
settlement scores nothing is `spared`. -/
inductive Effect (manager : ConnectionManager) : Call → ConnectionManager → Prop
  | kept {call : Call} {after : ConnectionManager} (unsettling : call.ticket = none)
      (ordinary : Ordinary manager after) (book : after.policy.book = manager.policy.book) :
      Effect manager call after
  | learned {peer : TransportIdentity} {address : String} {nowMs : Nat}
      {result : ConnectionManager × Bool} (exit : Learned manager peer address nowMs result) :
      Effect manager (.learnAddress peer address nowMs) result.1
  | failedUnadmitted {peer : TransportIdentity} {address : String} {nowMs delayMs : Nat}
      {result : ConnectionManager × Bool}
      (exit : Learned { manager with
        policy := (manager.policy.recordAddressFailure peer address nowMs delayMs).1 }
        peer address nowMs result) :
      Effect manager (.recordAddressFailureUnadmitted peer address nowMs) result.1
  | droppedUnadmitted {peer : TransportIdentity} {address : String}
      {result : ConnectionManager × Bool}
      (exit : HandedOver manager peer address manager.clockMs result) :
      Effect manager (.recordPermanentAddressFailureUnadmitted peer address) result.1
  | spared {call : Call} {ticket : DialTicket} {atMs : Nat} (settles : call.ticket = some ticket)
      (idle : ticket.manager ≠ manager.id ∨ ticket.peer = none ∨
        ticket.address.isEmpty = true ∨ ticket.origin = .dcutrHolePunch) :
      Effect manager call (manager.observe atMs)
  | succeeded {ticket : DialTicket} {nowMs : Nat} {peer : TransportIdentity}
      (own : ticket.manager = manager.id) (named : ticket.peer = some peer) :
      Effect manager (.recordSuccess ticket nowMs) { manager.observe (ticket.settledAt nowMs) with
        policy := manager.policy.recordSuccess peer ticket.address (ticket.settledAt nowMs)
        retries := manager.retries.erase peer }
  | failed {ticket : DialTicket} {nowMs delayMs : Nat} {peer : TransportIdentity}
      {result : ConnectionManager × Bool} {note : GateNote} (own : ticket.manager = manager.id)
      (scored : ¬(ticket.address.isEmpty = true ∨ ticket.origin = .dcutrHolePunch))
      (named : ticket.peer = some peer)
      (exit : Learned { manager.observe (ticket.settledAt nowMs) with
        policy := (manager.policy.recordAddressFailure peer ticket.address
          (ticket.settledAt nowMs) delayMs).1 } peer ticket.address
            (ticket.settledAt nowMs) result) :
      Effect manager (.recordFailure ticket nowMs)
        ((result.1.scheduleRetry peer (ticket.settledAt nowMs) delayMs
          (result.1.heldByAnother ticket peer)).1.note note)
  | unreached {ticket : DialTicket} {relay peer : TransportIdentity} {relayCameUp : Bool}
      {nowMs delayMs : Nat} {scored : ConnectionManager} {note : GateNote} {change : Retry → Retry}
      (own : ticket.manager = manager.id) (named : ticket.peer = some peer)
      (exit : Scored (manager.observe (ticket.settledAt nowMs)) peer ticket.address
        (ticket.settledAt nowMs) scored)
      (claims : ∀ entry, (change entry).claimed = entry.claimed) :
      Effect manager (.recordRelayHopUnreached ticket relay relayCameUp nowMs)
        (((scored.scheduleRetry peer (ticket.settledAt nowMs) delayMs
          (scored.heldByAnother ticket peer)).1.changeRetry peer change).note note)
  | dropped {ticket : DialTicket} {nowMs : Nat} {peer : TransportIdentity}
      {result : ConnectionManager × Bool} (own : ticket.manager = manager.id)
      (named : ticket.peer = some peer)
      (exit : HandedOver (manager.observe (ticket.settledAt nowMs)) peer ticket.address
        (ticket.settledAt nowMs) result) :
      Effect manager (.recordPermanentFailure ticket nowMs)
        (claimAfter releaseRetryClaim result.1 ticket)
  | abandoned {call : Call} {ticket : DialTicket} {nowMs : Nat}
      (withdrawn : call = .recordAuthorizationWithdrawn ticket nowMs ∨
        call = .recordLocallyRefused ticket nowMs) (own : ticket.manager = manager.id) :
      Effect manager call (claimAfter clearRetryClaim (manager.observe nowMs) ticket)
  | mismatched {ticket : DialTicket} {nowMs : Nat} {peer : TransportIdentity}
      {noted : ConnectionManager → ConnectionManager} (own : ticket.manager = manager.id)
      (named : ticket.peer = some peer)
      (quiet : noted = (fun next => next) ∨ ∃ note, noted = (·.note note)) :
      Effect manager (.recordIdentityMismatch ticket nowMs)
        (claimAfter releaseRetryClaim (noted { manager.observe (ticket.settledAt nowMs) with
          policy := (manager.policy.recordIdentityMismatch peer ticket.address
            (ticket.settledAt nowMs)).1 }) ticket)

def Comes (manager : ConnectionManager) (call : Call) (after : ConnectionManager) : Prop :=
  ∃ next, Effect manager call next ∧ Republished next after

section

variable {manager next : ConnectionManager} {call : Call} {ticket : DialTicket} {nowMs : Nat}

theorem foreign_of_elsewhere (elsewhere : (!(manager.observe nowMs).issuedHere ticket) = true) :
    ticket.manager ≠ manager.id := by
  rintro same
  simp [issuedHere, observe, same] at elsewhere

theorem own_of_here (here : ¬(!(manager.observe nowMs).issuedHere ticket) = true) :
    ticket.manager = manager.id := by
  by_contra foreign
  exact here (by simp [issuedHere, observe, foreign])

theorem Effect.aside (unsettling : call.ticket = none) (aside : Aside manager next) :
    Effect manager call next :=
  .kept unsettling aside.ordinary (congrArg ConnectionPolicy.book aside.policy)

section

variable (outcome : Effect manager call next)

include outcome

theorem Effect.comes : Comes manager call next :=
  ⟨next, outcome, .refl next⟩

theorem Effect.publish : next.publish.Gives (Comes manager call) :=
  (publish_republishes next).mono fun _ same => ⟨next, outcome, same⟩

theorem Effect.settle : (next.settleAndPublish ticket).Gives (Comes manager call) :=
  (settleAndPublish_republishes next).mono fun _ same => ⟨next, outcome, same⟩

theorem Effect.settleWith {Answer : Type} {answer : Answer} :
    ((next.settleAndPublish ticket).bind fun after => .ret (after, answer)).Gives
      fun result => Comes manager call result.1 :=
  .bind outcome.settle fun _ comes => .ret comes

end

end

section

variable (manager : ConnectionManager)

theorem recordSuccess_comes :
    (manager.recordSuccess ticket nowMs).Gives fun result =>
      Comes manager (.recordSuccess ticket nowMs) result.1 := by
  simp only [recordSuccess, Prog.bind_eq]
  split
  next elsewhere =>
    exact (keepConnection_republishes _).mono fun _ same =>
      ⟨_, .spared rfl (.inl (foreign_of_elsewhere elsewhere)), same⟩
  next here =>
    refine .bind (keepConnection_republishes _) fun kept first => ?_
    refine .bind (publish_republishes _) fun last second => .ret ⟨_, ?_, first.trans second⟩
    split
    next unnamed => exact .spared rfl (.inr (.inl unnamed))
    next peer named => exact .succeeded (own_of_here here) named

theorem recordFailure_comes :
    (manager.recordFailure ticket nowMs).Gives fun result =>
      Comes manager (.recordFailure ticket nowMs) result.1 := by
  simp only [recordFailure, Prog.bind_eq]
  split
  next elsewhere =>
    exact .after _ fun _ => .ret (Effect.spared rfl (.inl (foreign_of_elsewhere elsewhere))).comes
  next here =>
    split
    next unscored =>
      exact (Effect.spared rfl (.inr (.inr (by simpa using unscored)))).settleWith
    next scored =>
      split
      next unnamed => exact (Effect.spared rfl (.inr (.inl unnamed))).settleWith
      next peer named =>
        refine .bind (learnAddress_gives _) fun learned exit => ?_
        exact (Effect.failed (own_of_here here) (by simpa using scored) named exit).settleWith

theorem recordRelayHopUnreached_comes :
    (manager.recordRelayHopUnreached ticket relay relayCameUp nowMs).Gives fun result =>
      Comes manager (.recordRelayHopUnreached ticket relay relayCameUp nowMs) result.1 := by
  simp only [recordRelayHopUnreached, Prog.bind_eq]
  split
  next elsewhere =>
    exact .after _ fun _ => .ret (Effect.spared rfl (.inl (foreign_of_elsewhere elsewhere))).comes
  next here =>
    split
    next unnamed => exact (Effect.spared rfl (.inr (.inl unnamed))).settleWith
    next peer named =>
      refine .bind (scoreAddress_gives _) fun scored exit => ?_
      refine (Effect.unreached (own_of_here here) named exit fun entry => ?_).settleWith
      split <;> rfl

theorem recordPermanentFailure_comes :
    (manager.recordPermanentFailure ticket nowMs).Gives
      (Comes manager (.recordPermanentFailure ticket nowMs)) := by
  simp only [recordPermanentFailure, Prog.bind_eq]
  split
  next elsewhere =>
    exact .after _ fun _ => .ret (Effect.spared rfl (.inl (foreign_of_elsewhere elsewhere))).comes
  next here =>
    split
    next unnamed => exact (Effect.spared rfl (.inr (.inl unnamed))).settle
    next peer named =>
      refine .bind (handOver_gives _) fun handed exit => ?_
      exact (Effect.dropped (own_of_here here) named exit).settle

theorem recordAbandoned_comes
    (withdrawn : call = .recordAuthorizationWithdrawn ticket nowMs ∨ call =
      .recordLocallyRefused ticket nowMs) :
    (manager.recordAbandoned ticket nowMs).Gives (Comes manager call) := by
  have settles : call.ticket = some ticket := by
    rcases withdrawn with rfl | rfl <;> rfl
  simp only [recordAbandoned, Prog.bind_eq]
  split
  next elsewhere =>
    exact .after _ fun _ =>
      .ret (Effect.spared settles (.inl (foreign_of_elsewhere elsewhere))).comes
  next here => exact (Effect.abandoned withdrawn (own_of_here here)).settle

theorem recordIdentityMismatch_comes :
    (manager.recordIdentityMismatch ticket nowMs).Gives fun result =>
      Comes manager (.recordIdentityMismatch ticket nowMs) result.1 := by
  simp only [recordIdentityMismatch, Prog.bind_eq]
  split
  next elsewhere =>
    exact .after _ fun _ => .ret (Effect.spared rfl (.inl (foreign_of_elsewhere elsewhere))).comes
  next here =>
    split
    next unnamed => exact (Effect.spared rfl (.inr (.inl unnamed))).settleWith
    next peer named =>
      have own := own_of_here here
      split
      · exact (Effect.mismatched own named (.inr ⟨_, rfl⟩)).settleWith
      · exact (Effect.mismatched own named (.inl rfl)).settleWith

theorem answer_comes (plain : call.Plain) :
    (manager.answer call).Gives fun result => Comes manager call result.1 := by
  cases call <;> try exact plain.elim
  case learnAddress peer address nowMs =>
    exact .map ((learnAddress_gives _).mono fun _ exit => (Effect.learned exit).comes)
  case recordSuccess ticket nowMs => exact .map (recordSuccess_comes _)
  case recordFailure ticket nowMs => exact .map (recordFailure_comes _)
  case recordRelayHopUnreached ticket relay relayCameUp nowMs =>
    exact .map (recordRelayHopUnreached_comes _)
  case relayReached relay nowMs =>
    exact .ret (Effect.kept rfl (.intro _ _ _ _ _ _ _) rfl).comes
  case recordAddressFailureUnadmitted peer address nowMs =>
    refine .map ?_
    simp only [recordAddressFailureUnadmitted, Prog.bind_eq]
    split
    · exact .ret (Effect.kept rfl (.refl _) rfl).comes
    · exact .bind (learnAddress_gives _) fun _ exit =>
        (Effect.failedUnadmitted exit).publish
  case recordPermanentAddressFailureUnadmitted peer address =>
    refine .map ?_
    simp only [recordPermanentAddressFailureUnadmitted, Prog.bind_eq]
    split
    · exact .ret (Effect.kept rfl (.refl _) rfl).comes
    · exact .bind (handOver_gives _) fun _ exit => (Effect.droppedUnadmitted exit).publish
  case recordPermanentFailure ticket nowMs => exact .map (recordPermanentFailure_comes _)
  case recordAuthorizationWithdrawn ticket nowMs =>
    exact .map (recordAbandoned_comes manager (.inl rfl))
  case recordLocallyRefused ticket nowMs => exact .map (recordAbandoned_comes manager (.inr rfl))
  case recordIdentityMismatch ticket nowMs => exact .map (recordIdentityMismatch_comes _)
  case admitInbound =>
    have kept : Effect manager .admitInbound manager := .kept rfl (.refl _) rfl
    refine .map (.after _ fun draining => ?_)
    split
    · exact .ret kept.comes
    · refine .after _ fun answer => ?_
      cases answer with
      | error _ => exact .ret kept.comes
      | ok _ => exact .bind kept.publish fun _ comes => .ret comes
  case recordInboundRetained peer nowMs =>
    have cleared : Effect manager (.recordInboundRetained peer nowMs)
      { manager.observe nowMs with
        policy := ((manager.observe nowMs).policy.clearPeerBackoff peer).1
        retries := (manager.observe nowMs).retries.erase peer } :=
      .kept rfl (.intro _ _ _ _ _ _ _) rfl
    refine .map ?_
    simp only [recordInboundRetained, Prog.bind_eq]
    split
    · exact .bind cleared.publish fun _ comes => .ret comes
    · exact .ret cleared.comes
  case recordConnectionClosed slot =>
    exact .map (.after _ fun _ => (Effect.kept rfl (.refl _) rfl).publish)
  case beginShutdown =>
    exact .map (.after _ fun _ =>
      Effect.publish (.kept rfl
        (policy_ordinary manager { manager.policy with shuttingDown := true })
        rfl))
  case takeDueRetries nowMs limit =>
    exact .ret (Effect.kept rfl ((observe_ordinary _ _).trans (reclaim_aside _).ordinary)
      (congrArg ConnectionPolicy.book (reclaim_aside _).policy)).comes
  case clearRetryClaim peer => exact .ret (Effect.aside rfl (clearRetryClaim_aside _ _)).comes
  case reclaimRetry peer => exact .ret (Effect.aside rfl (changeRetry_aside _ _ _)).comes
  case releaseRetryClaim peer => exact .ret (Effect.aside rfl (changeRetry_aside _ _ _)).comes
  case drainNotes => exact .ret (Effect.kept rfl (.intro _ _ _ _ _ _ _) rfl).comes

end

theorem Effect.ordinary (outcome : Effect manager call next) : Ordinary manager next := by
  have observed := observe_ordinary manager
  have released := claimAfter_aside releaseRetryClaim_aside
  cases outcome with
  | kept _ ordinary _ => exact ordinary
  | learned exit => exact exit.ordinary
  | failedUnadmitted exit => exact (policy_ordinary _ _).trans exit.ordinary
  | droppedUnadmitted exit => exact exit.ordinary
  | spared _ _ => exact observed _
  | succeeded _ _ => exact (observed _).trans (.intro _ _ _ _ _ _ _)
  | failed _ _ _ exit =>
    have learned := (observed _).trans ((policy_ordinary _ _).trans exit.ordinary)
    exact learned.trans ((scheduleRetry_aside _).trans (note_aside _)).ordinary
  | unreached _ _ exit _ =>
    refine Ordinary.trans ?_ ((scheduleRetry_aside _).trans
      ((changeRetry_aside _ _ _).trans (note_aside _))).ordinary
    cases exit with
    | unaddressed => exact observed _
    | learned exit => exact (observed _).trans ((policy_ordinary _ _).trans exit.ordinary)
  | dropped _ _ exit => exact ((observed _).trans exit.ordinary).trans (released _ _).ordinary
  | abandoned _ _ =>
    exact (observed _).trans (claimAfter_aside clearRetryClaim_aside _ _).ordinary
  | mismatched _ _ quiet =>
    rcases quiet with rfl | ⟨note, rfl⟩
    · exact ((observed _).trans (policy_ordinary _ _)).trans (released _ _).ordinary
    · exact ((observed _).trans (policy_ordinary _ _)).trans
        ((note_aside _).trans (released _ _)).ordinary

theorem answer_ordinary (manager : ConnectionManager) (plain : call.Plain) :
    (manager.answer call).Gives fun result => Ordinary manager result.1 :=
  (answer_comes manager plain).mono fun _ ⟨_, outcome, same⟩ =>
    outcome.ordinary.trans same.ordinary

structure Turn where
  before : ConnectionManager
  call : Call
  after : ConnectionManager
  reply : Reply

inductive ManagerRun (start : ConnectionManager) : List Turn → ConnectionManager → Prop
  | nil : ManagerRun start [] start
  | snoc {turns : List Turn} {manager after : ConnectionManager} {call : Call} {reply : Reply}
      {events : List (Event Op Op.Ans)} (run : ManagerRun start turns manager)
      (path : (manager.answer call).Path events (.ret (after, reply))) :
      ManagerRun start (turns ++ [⟨manager, call, after, reply⟩]) after

theorem ManagerRun.last (run : ManagerRun start (turns ++ [turn]) manager) :
    ManagerRun start turns turn.before ∧ turn.after = manager ∧
      ∃ events, (turn.before.answer turn.call).Path events (.ret (turn.after, turn.reply)) := by
  generalize same : turns ++ [turn] = all at run
  cases run with
  | nil => simp at same
  | snoc run path =>
    obtain ⟨rfl, isLast⟩ := List.append_inj' same rfl
    cases isLast
    exact ⟨run, rfl, _, path⟩

theorem ManagerRun.always {inv : ConnectionManager → Prop} (run : ManagerRun start turns manager)
    (holds : inv start)
    (step : ∀ manager call, inv manager → (manager.answer call).Gives fun result => inv result.1) :
    inv manager := by
  induction run with
  | nil => exact holds
  | snoc run path ih => exact step _ _ ih _ _ path

/-- What a call leaves alone. Each of these fields is written by one or two calls only. -/
structure Framed (manager : ConnectionManager) (call : Call) (after : ConnectionManager) :
    Prop where
  id : after.id = manager.id
  trust : (∀ trust live, call ≠ .setTrust trust live) →
    (∀ localPeer, call ≠ .bindLocalPeer localPeer) → after.trust = manager.trust
  retired : (∀ trust live, call ≠ .setTrust trust live) → after.retired = manager.retired
  networkLifts : (∀ nowMs, call ≠ .networkAdded nowMs) →
    after.networkLifts = manager.networkLifts
  limit : 1 ≤ manager.maxAddressesPerPeer → 1 ≤ after.maxAddressesPerPeer

theorem ConnectionManager.Ordinary.framed (ordinary : Ordinary manager after) :
    Framed manager call after :=
  ⟨ordinary.id, fun _ _ => ordinary.trust, fun _ => ordinary.retired,
    fun _ => ordinary.networkLifts, fun limit => ordinary.maxAddressesPerPeer ▸ limit⟩

theorem answer_framed (manager : ConnectionManager) :
    (manager.answer call).Gives fun result => Framed manager call result.1 := by
  by_cases plain : call.Plain
  · exact (answer_ordinary manager plain).mono fun _ ordinary => ordinary.framed
  · cases call <;> try exact absurd trivial plain
    case bindLocalPeer localPeer =>
      exact .map ((publish_republishes _).mono fun _ same =>
        { same.ordinary.framed with trust := fun _ free => absurd rfl (free localPeer) })
    case setTrust trust live =>
      exact .map ((setTrust_ordinary manager).mono fun _ ⟨_, last⟩ =>
        { last.framed with
          trust := fun other => absurd rfl (other trust live)
          retired := fun other => absurd rfl (other trust live) })
    case networkAdded nowMs =>
      exact .map ((networkAdded_ordinary manager).mono fun _ ⟨_, last⟩ =>
        { last.framed with networkLifts := fun other => absurd rfl (other nowMs) })
    case setMaxAddressesPerPeer limit =>
      exact .ret { (Ordinary.refl manager).framed with limit := fun _ => le_max_left _ _ }

theorem body_managed : (Dial.body task).Gives fun result =>
    ∀ after reply, result = .managed after reply → ∃ manager call events,
      task = .manage manager call ∧ (manager.answer call).Path events (.ret (after, reply)) := by
  cases task with
  | manage manager call =>
    intro events result path
    obtain ⟨value, before, last, -, toValue, toResult⟩ := path.of_bind
    obtain ⟨-, rfl⟩ := toResult.of_ret
    rintro after reply same
    cases same
    exact ⟨manager, call, before, rfl, toValue⟩
  | admitDial snapshot request nowMs => exact .after _ fun _ => .ret fun _ _ same => nomatch same
  | handleAdmit | dropTicket | dropSlot => exact .after _ fun _ => .ret fun _ _ same => nomatch same
  | rebindAddress ticket address => exact .ret fun _ _ same => nomatch same
  | dropManager manager => exact .after _ fun _ => .ret fun _ _ same => nomatch same

/-- Every manager of a run of the gate, at rest or at work, has come to where it is by a run of
its own. -/
theorem Dial.Reaches.managerRun (reaches : Dial.Reaches setup labels config) :
    (∀ manager ∈ config.rest.managers,
      ∃ turns, ManagerRun (setup.manager manager.id) turns manager) ∧
    ∀ manager call, .manage manager call ∈ config.threads.map Thread.task →
      ∃ turns, ManagerRun (setup.manager manager.id) turns manager := by
  induction reaches with
  | nil =>
    refine ⟨fun manager member => ?_, fun _ _ => nofun⟩
    obtain ⟨id, -, rfl⟩ := Multiset.mem_map.mp member
    exact ⟨[], .nil⟩
  | snoc run step ih =>
    obtain ⟨atRest, working⟩ := ih
    have traced := Run.traced run
    cases step with
    | @start world rest left task threads next taken =>
      have newcomer : ∀ manager ∈ left.managers, manager ∈ rest.managers := by
        cases taken <;> simp +contextual
      refine ⟨fun manager member => atRest manager (newcomer manager member), ?_⟩
      intro manager call member
      rcases List.mem_cons.mp member with rfl | older
      · cases taken
        exact atRest manager (Multiset.mem_cons_self _ _)
      · exact working manager call older
    | act advanced executed => exact ⟨atRest, by simpa using working⟩
    | @finish world rest before after next id task result =>
      refine ⟨fun manager member => ?_, fun manager call member => working manager call ?_⟩
      · obtain older | ⟨reply, rfl⟩ : manager ∈ rest.managers ∨
            ∃ reply, result = .managed manager reply := by
          cases result with
          | admitted answer => cases answer <;> exact .inl member
          | dropped | rebound => exact .inl member
          | managed last reply =>
            rcases Multiset.mem_cons.mp member with rfl | older
            · exact .inr ⟨reply, rfl⟩
            · exact .inl older
        · exact atRest manager older
        · obtain ⟨worked, call, events, rfl, path⟩ :=
            body_managed _ _ (traced.running ⟨id, task, _⟩ (by simp)).2 manager reply rfl
          obtain ⟨turns, earlier⟩ := working worked call (by simp)
          rw [← (answer_framed worked _ _ path).id] at earlier
          exact ⟨_, earlier.snoc path⟩
      · simp only [List.map_append, List.map_cons, List.mem_append, List.mem_cons] at member ⊢
        exact member.imp_right .inr

/-- The calls one after the other, each alone on what the manager shares. -/
def ConnectionManager.play (manager : ConnectionManager) (world : World) :
    List Call → List Turn × ConnectionManager
  | [] => ([], manager)
  | call :: later =>
    match (manager.answer call).alone World.perform world with
    | none => manager.play world later
    | some ((after, reply), changed) =>
      let (turns, last) := after.play changed later
      (⟨manager, call, after, reply⟩ :: turns, last)

theorem ManagerRun.plays (run : ManagerRun start turns manager) (world : World)
    (calls : List Call) :
    ManagerRun start (turns ++ (manager.play world calls).1) (manager.play world calls).2 := by
  induction calls generalizing turns manager world with
  | nil => simpa [ConnectionManager.play] using run
  | cons call later ih =>
    rw [ConnectionManager.play]
    split
    · exact ih run world
    next after reply changed ended =>
      obtain ⟨events, alone⟩ := Prog.alone_ends World.perform_exec ended
      simpa using ih (run.snoc alone.path) changed

theorem ConnectionManager.play_run (manager : ConnectionManager) (world : World)
    (calls : List Call) :
    ManagerRun manager (manager.play world calls).1 (manager.play world calls).2 :=
  ManagerRun.nil.plays world calls

end InterWeave
