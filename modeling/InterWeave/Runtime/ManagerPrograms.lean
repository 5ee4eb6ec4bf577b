import InterWeave.Runtime.DialPrograms
import InterWeave.Runtime.ManagerRuns

/-!
Every call on a manager keeps to the account. A call holds the manager's authority from
its start to its end, turns the outcome of the ticket it settles into a unit to return, and
returns such units only behind a publication.
-/

namespace InterWeave

open Std (ExtTreeMap)
open Concurrent Saturating ConnectionPolicy

namespace ConnectionManager

def view (manager : ConnectionManager) (unpublished : Option AddressKey) : Authority :=
  ⟨manager.policy, manager.revision, manager.clockMs, unpublished, .none⟩

def tokensWith (manager : ConnectionManager) (unpublished : Option AddressKey) : Multiset Token :=
  .authority (manager.view unpublished) ::ₘ Multiset.replicate manager.outcomesToReturn .returning

def tokens (manager : ConnectionManager) : Multiset Token := manager.tokensWith none

def licensed (manager : ConnectionManager) (right : Right) : Multiset Token :=
  .authority { manager.view none with right := right } ::ₘ
    Multiset.replicate manager.outcomesToReturn .returning

end ConnectionManager

structure Setup.Bounds (setup : Setup) (id : ManagerId) (manager : ConnectionManager) : Prop where
  named : manager.id = id
  maxPendingDials : manager.maxPendingDials = setup.ceiling id .pending
  maxConnections : manager.maxConnections = setup.ceiling id .connections
  maxAddresses : manager.policy.maxAddresses = setup.ceiling id .outcomes

structure Setup.Fits (setup : Setup) (id : ManagerId) (manager : ConnectionManager) : Prop extends
    setup.Bounds id manager where
  returned : manager.outcomesToReturn = 0

structure Holding (setup : Setup) (id : ManagerId) (manager : ConnectionManager)
    (state : Ledger) : Prop where
  fits : setup.Fits id manager
  owns : state = owned id manager.tokens

def HoldingFirst {β : Type} (setup : Setup) (id : ManagerId) (answer : ConnectionManager × β) :
    Ledger → Prop :=
  Holding setup id answer.1

namespace ConnectionManager

variable {α β : Type} {ticket : DialTicket} {spare : Ledger} {nowMs : Nat} {right : Right}

section

variable {setup : Setup} {horizon : Nat} {id : ManagerId} {manager next : ConnectionManager}

theorem tokensWith_owned :
    owned id (manager.tokensWith unpublished) =
      owned id {.authority (manager.view unpublished)} +
        owned id (Multiset.replicate manager.outcomesToReturn .returning) :=
  owned_cons id

theorem returnOutcomes_follows (bounds : setup.Bounds id manager) :
    Accounts setup horizon
      (fun after state => after = { manager with outcomesToReturn := 0 } ∧ state = 0)
      manager.returnOutcomes
      (owned id (Multiset.replicate manager.outcomesToReturn .returned)) := by
  obtain ⟨rfl, -, -, -⟩ := bounds
  unfold returnOutcomes
  split
  · refine .of_eq (add_zero _).symm (follows_release ?_ (by simp [Token.back])
      (by simp [Token.rule]) (.ret ⟨rfl, rfl⟩))
    rintro ⟨⟩ <;> simp [Token.weight]
  next none =>
    obtain empty : manager.outcomesToReturn = 0 := by omega
    refine .ret ⟨?_, by simp [empty]⟩
    rw [← empty]

open Prog Dial

theorem publish_follows (bounds : setup.Bounds id manager) (unpublished : Option AddressKey) :
    Accounts setup horizon
      (fun after state => Holding setup id after state ∧ after.policy = manager.policy ∧
        after.clockMs = manager.clockMs)
      manager.publish (owned id (manager.tokensWith unpublished)) := by
  have boundsNext : setup.Bounds id manager.nextRevision :=
    ⟨bounds.named, bounds.maxPendingDials, bounds.maxConnections, bounds.maxAddresses⟩
  obtain ⟨rfl, maxPendingDials, maxConnections, -⟩ := bounds
  simp only [publish, bind_eq, perform_bind]
  refine .of_eq (add_zero _).symm (follows_trade fun _ _ => ⟨_, .publish rfl maxPendingDials
    maxConnections rfl rfl, ?_⟩)
  refine .of_eq (by rw [add_zero, owned_cons, add_comm]; rfl)
    (((returnOutcomes_follows boundsNext).frame (protocol_local setup horizon) _).mono ?_)
  rintro _ _ ⟨_, rfl, rfl, rfl⟩
  refine ⟨⟨⟨⟨rfl, boundsNext.maxPendingDials, boundsNext.maxConnections, boundsNext.maxAddresses⟩,
    rfl⟩, ?_⟩, rfl, rfl⟩
  rw [zero_add]
  rfl

inductive Steady (manager : ConnectionManager) : ConnectionManager → Prop
  | intro {policy : ConnectionPolicy} (retries : ExtTreeMap TransportIdentity Retry)
      (networkLifts : ExtTreeMap TransportIdentity Nat) (notes : List GateNote)
      (notesDropped maxAddressesPerPeer : Nat)
      (gentle : Gentle noPair noPair manager.clockMs manager.policy policy) :
      Steady manager { manager with
        policy := policy
        retries := retries
        networkLifts := networkLifts
        notes := notes
        notesDropped := notesDropped
        maxAddressesPerPeer := maxAddressesPerPeer }

theorem Steady.refl (manager : ConnectionManager) : Steady manager manager :=
  .intro manager.retries manager.networkLifts manager.notes manager.notesDropped
    manager.maxAddressesPerPeer .refl

theorem Steady.trans (first : Steady manager next) (second : Steady next last) :
    Steady manager last := by
  obtain ⟨_, _, _, _, _, gentle⟩ := first
  obtain ⟨retries, networkLifts, notes, dropped, limit, later⟩ := second
  exact .intro retries networkLifts notes dropped limit (gentle.trans later)

theorem Steady.fits (steady : Steady manager next) (fits : setup.Fits id manager) :
    setup.Fits id next := by
  obtain ⟨_, _, _, _, _, gentle⟩ := steady
  exact ⟨⟨fits.named, fits.maxPendingDials, fits.maxConnections,
    gentle.framed.maxAddresses.trans fits.maxAddresses⟩, fits.returned⟩

theorem observe_fits (fits : setup.Fits id manager) (nowMs : Nat) :
    setup.Fits id (manager.observe nowMs) :=
  ⟨⟨fits.named, fits.maxPendingDials, fits.maxConnections, fits.maxAddresses⟩, fits.returned⟩

theorem le_observe (manager : ConnectionManager) (nowMs : Nat) :
    nowMs ≤ (manager.observe nowMs).clockMs :=
  le_max_right _ _

theorem policy_steady {policy : ConnectionPolicy} (order : nowMs ≤ manager.clockMs)
    (gentle : Gentle noPair noPair nowMs manager.policy policy) :
    Steady manager { manager with policy := policy } :=
  .intro _ _ _ _ _ (gentle.later order)

theorem Aside.steady (aside : Aside manager next) : Steady manager next := by
  obtain ⟨retries, notes, dropped⟩ := aside
  exact .intro retries _ notes dropped _ .refl

theorem Aside.tokensWith (aside : Aside manager next) (unpublished : Option AddressKey) :
    next.tokensWith unpublished = manager.tokensWith unpublished := by
  cases aside
  rfl

section

variable (revision : next.revision = manager.revision)
  (outcomesToReturn : next.outcomesToReturn = manager.outcomesToReturn)
  (clock : manager.clockMs ≤ next.clockMs) (told : next.clockMs ≤ max manager.clockMs horizon)

include revision outcomesToReturn clock told

theorem evolve_licensed (gentle : Gentle cleared noPair next.clockMs manager.policy next.policy)
    (allowed : ∀ key, cleared key → right = .clears key)
    (kept : rightAfter = right ∨ rightAfter = .none)
    (follows : Accounts setup horizon post prog (owned id (next.licensed rightAfter) + spare)) :
    Accounts setup horizon post prog
      (owned id (manager.licensed right) + spare) := by
  have quiet : Quiet horizon {.authority { manager.view none with right := right }}
      {.authority { next.view none with right := rightAfter }} :=
    .evolve revision rfl clock told gentle allowed kept
  simp only [licensed, owned_cons, add_assoc] at follows ⊢
  rw [outcomesToReturn] at follows
  exact follows_quiet quiet follows

theorem evolve_follows (gentle : Gentle noPair noPair next.clockMs manager.policy next.policy)
    (follows : Accounts setup horizon post prog (owned id next.tokens + spare)) :
    Accounts setup horizon post prog (owned id manager.tokens + spare) :=
  evolve_licensed revision outcomesToReturn clock told gentle (fun _ => False.elim) (.inl rfl)
    follows

end

theorem relinquish_follows
    (follows : Accounts setup horizon post prog (owned id manager.tokens + spare)) :
    Accounts setup horizon post prog
      (owned id (manager.licensed right) + spare) :=
  evolve_licensed rfl rfl le_rfl (le_max_left _ _) (@Gentle.refl noPair _ _ _)
    (fun _ => False.elim) (.inr rfl) follows

theorem observe_licensed (told : nowMs ≤ horizon) (follows : Accounts setup horizon post prog
      (owned id ((manager.observe nowMs).licensed right) + spare)) :
    Accounts setup horizon post prog
      (owned id (manager.licensed right) + spare) :=
  evolve_licensed (show (manager.observe nowMs).revision = manager.revision from rfl) rfl
    (le_max_left _ _) (max_le_max_left _ told) (@Gentle.refl noPair _ _ _)
    (fun _ => False.elim) (.inl rfl) follows

theorem Steady.quiet (steady : Steady manager next)
    (follows : Accounts setup horizon post prog (owned id next.tokens + spare)) :
    Accounts setup horizon post prog (owned id manager.tokens + spare) := by
  obtain ⟨_, _, _, _, _, gentle⟩ := steady
  refine evolve_follows ?_ ?_ ?_ ?_ ?_ follows
  exacts [rfl, rfl, le_rfl, le_max_left _ _, gentle]

theorem observe_follows (told : nowMs ≤ horizon)
    (follows : Accounts setup horizon post prog (owned id (manager.observe nowMs).tokens + spare)) :
    Accounts setup horizon post prog (owned id manager.tokens + spare) :=
  evolve_follows (show (manager.observe nowMs).revision = manager.revision from rfl) rfl
    (le_max_left _ _) (max_le_max_left _ told) .refl follows

theorem Steady.alone (steady : Steady manager next)
    (follows : Accounts setup horizon post prog (owned id next.tokens)) :
    Accounts setup horizon post prog (owned id manager.tokens) :=
  .of_eq (add_zero _).symm (steady.quiet (.of_eq (add_zero _) follows))

theorem observe_alone (told : nowMs ≤ horizon)
    (follows : Accounts setup horizon post prog (owned id (manager.observe nowMs).tokens)) :
    Accounts setup horizon post prog (owned id manager.tokens) :=
  .of_eq (add_zero _).symm (observe_follows told (.of_eq (add_zero _) follows))

theorem Steady.publish_follows (steady : Steady manager next) (fits : setup.Fits id manager)
    (reply : β) :
    Accounts setup horizon (HoldingFirst setup id)
      (next.publish.bind fun after => .ret (after, reply)) (owned id manager.tokens) := by
  refine steady.alone ((ConnectionManager.publish_follows (steady.fits fits).toBounds none).then ?_)
  rintro after _ ⟨holding, -⟩
  exact .ret holding

theorem Steady.ret_follows (steady : Steady manager next) (fits : setup.Fits id manager)
    (reply : β) :
    Accounts setup horizon (HoldingFirst setup id)
      (.ret (next, reply)) (owned id manager.tokens) :=
  steady.alone (.ret ⟨steady.fits fits, rfl⟩)

theorem handOver_follows (fits : setup.Fits id manager) {peer : TransportIdentity}
    {address : String} (order : nowMs ≤ manager.clockMs) :
    Accounts setup horizon
      (fun answer state => Holding setup id answer.1 state ∧ answer.1.clockMs = manager.clockMs)
      (manager.handOver peer address nowMs) (owned id manager.tokens) := by
  unfold handOver
  cases live : manager.liveInBook peer address nowMs with
  | false =>
    have gentle : Gentle noPair noPair nowMs manager.policy
        (manager.policy.releaseFromBook peer address nowMs).1 := by
      refine releaseFromBook_gentle fun state inside found punitive => ?_
      simp [liveInBook, ConnectionPolicy.address, found, inside, punitive] at live
    have steady := policy_steady order gentle
    exact steady.alone (.ret ⟨⟨steady.fits fits, rfl⟩, rfl⟩)
  | true =>
    have gentle : Gentle noPair (· = AddressKey.mk peer address) nowMs manager.policy
        (manager.policy.releaseFromBook peer address nowMs).1 :=
      releaseFromBook_gentle fun _ _ _ _ => rfl
    obtain ⟨⟨rfl, maxPendingDials, maxConnections, maxAddresses⟩, returned⟩ := fits
    have takes : ∀ current < manager.policy.maxAddresses - manager.policy.liveQuarantines nowMs,
        Trade setup (.compareExchangeWeak manager.id .outcomes current (current + 1)) (.ok ())
          {.authority (manager.view none)}
          {.authority { manager.view none with
            policy := (manager.policy.releaseFromBook peer address nowMs).1 }, .returning} := by
      intro current below
      rw [maxAddresses] at below
      exact .handOver (by simp only [view]; omega) order gentle
    simp only [Bool.not_true, Bool.false_eq_true, ↓reduceIte, bind_eq]
    refine .of_eq tokensWith_owned
      ((reserve_follows takes).share ?_)
    rintro (⟨⟩ | ⟨⟩) state held
    · subst held
      exact .ret ⟨⟨⟨⟨rfl, maxPendingDials, maxConnections, maxAddresses⟩, returned⟩,
        tokensWith_owned.symm⟩, rfl⟩
    · obtain ⟨rfl, someRoom⟩ := held
      have released : (manager.policy.releaseFromBook peer address nowMs).2 = true :=
        releaseFromBook_true_of_room (by omega)
      simp only [released, Bool.not_true, Bool.false_eq_true, ↓reduceIte]
      have boundsNext : setup.Bounds manager.id { manager with
          policy := (manager.policy.releaseFromBook peer address nowMs).1
          outcomesToReturn := manager.outcomesToReturn + 1 } :=
        ⟨rfl, maxPendingDials, maxConnections, gentle.framed.maxAddresses.trans maxAddresses⟩
      refine .of_eq ?_ ((publish_follows boundsNext none).then ?_)
      · simp only [tokensWith, Multiset.replicate_succ, Multiset.insert_eq_cons, owned_cons,
          add_assoc]
        rfl
      · rintro after _ ⟨holding, -, clock⟩
        exact .ret ⟨holding, clock⟩

theorem handOverAll_follows (fits : setup.Fits id manager) (order : nowMs ≤ manager.clockMs)
    {addresses : List String} :
    Accounts setup horizon
      (fun after state => Holding setup id after state ∧ after.clockMs = manager.clockMs)
      (handOverAll peer nowMs addresses manager) (owned id manager.tokens) := by
  induction addresses generalizing manager with
  | nil => exact .ret ⟨⟨fits, rfl⟩, rfl⟩
  | cons address rest ih =>
    simp only [handOverAll, bind_eq]
    refine (handOver_follows fits order).then ?_
    rintro ⟨after, released⟩ _ ⟨⟨fitsAfter, rfl⟩, clock⟩
    simp only at fitsAfter clock
    refine (ih fitsAfter (clock ▸ order)).mono ?_
    rintro last state ⟨holding, lastClock⟩
    exact ⟨holding, lastClock.trans clock⟩

theorem retireOldest_follows (fits : setup.Fits id manager) {peers : List TransportIdentity} :
    Accounts setup horizon (HoldingFirst setup id)
      (retireOldest peers manager) (owned id manager.tokens) := by
  induction peers generalizing manager with
  | nil => exact .ret ⟨fits, rfl⟩
  | cons oldest rest ih =>
    simp only [retireOldest, bind_eq]
    refine (handOverAll_follows fits le_rfl).then ?_
    rintro after _ ⟨⟨fitsAfter, rfl⟩, -⟩
    refine (ih fitsAfter).then ?_
    rintro ⟨last, stuck⟩ _ holding
    exact .ret holding

theorem retireUnclassifiedBookPeers_follows (fits : setup.Fits id manager) :
    Accounts setup horizon (Holding setup id) manager.retireUnclassifiedBookPeers
      (owned id manager.tokens) := by
  simp only [retireUnclassifiedBookPeers, bind_eq]
  generalize manager.retiring.take _ = peers
  refine (retireOldest_follows fits).then ?_
  rintro ⟨after, stuck⟩ _ ⟨fitsAfter, rfl⟩
  exact .ret ⟨⟨⟨fitsAfter.named, fitsAfter.maxPendingDials, fitsAfter.maxConnections,
    fitsAfter.maxAddresses⟩, fitsAfter.returned⟩, rfl⟩

theorem setTrust_follows (fits : setup.Fits id manager) {trust : TrustSources}
    {live : List TransportIdentity} :
    Accounts setup horizon (HoldingFirst setup id)
      (manager.setTrust trust live) (owned id manager.tokens) := by
  simp only [setTrust, bind_eq]
  have fitsTrust : setup.Fits id (manager.withTrust trust) :=
    ⟨⟨fits.named, fits.maxPendingDials, fits.maxConnections, fits.maxAddresses⟩, fits.returned⟩
  have same : manager.tokens = (manager.withTrust trust).tokens := rfl
  rw [same]
  refine (retireUnclassifiedBookPeers_follows fitsTrust).then ?_
  rintro after _ ⟨fitsAfter, rfl⟩
  refine (publish_follows fitsAfter.toBounds none).then ?_
  rintro last _ ⟨holding, -⟩
  exact .ret holding

theorem bindLocalPeer_follows (fits : setup.Fits id manager) {localPeer : TransportIdentity} :
    Accounts setup horizon (Holding setup id) (manager.bindLocalPeer localPeer)
      (owned id manager.tokens) := by
  have bound : setup.Bounds id { manager with
      localPeer := some localPeer
      trust := { manager.trust with localPeer := some localPeer } } :=
    ⟨fits.named, fits.maxPendingDials, fits.maxConnections, fits.maxAddresses⟩
  exact (publish_follows bound none).mono fun _ _ held => held.1

theorem enterBook_steady (manager : ConnectionManager) (peer : TransportIdentity)
    (address : String) (nowMs : Nat) : Steady manager (manager.enterBook peer address nowMs) :=
  (policy_steady le_rfl addToBook_gentle).trans (changeRetry_aside _ peer _).steady

theorem learnAddress_follows (fits : setup.Fits id manager) {peer : TransportIdentity}
    {address : String} {nowMs : Nat} :
    Accounts setup horizon (HoldingFirst setup id)
      (manager.learnAddress peer address nowMs) (owned id (manager.observe nowMs).tokens) := by
  have observed := observe_fits fits nowMs
  have order := le_observe manager nowMs
  unfold learnAddress
  dsimp only
  generalize manager.observe nowMs = told at observed order ⊢
  split
  · exact .ret ⟨observed, rfl⟩
  split
  · exact .ret ⟨observed, rfl⟩
  split
  · split
    · exact .ret ⟨observed, rfl⟩
    next stale _ =>
      refine (handOver_follows observed order).then ?_
      rintro ⟨after, freed⟩ _ ⟨⟨fitsAfter, rfl⟩, -⟩
      cases freed with
      | false => exact .ret ⟨fitsAfter, rfl⟩
      | true =>
        have steady := enterBook_steady after peer address nowMs
        exact steady.alone (.ret ⟨steady.fits fitsAfter, rfl⟩)
  · have steady := enterBook_steady told peer address nowMs
    exact steady.alone (.ret ⟨steady.fits observed, rfl⟩)

theorem settleOwn_follows (own : ticket.manager = manager.id) :
    Accounts setup horizon
      (fun after state => after = { manager with
        outcomesToReturn := manager.outcomesToReturn + ticket.outcomeReserved.toNat } ∧ state = 0)
      (manager.settle ticket)
      (owned manager.id {.pending} +
        owned manager.id (oneIf (!ticket.connectionKept) .connection)) := by
  simp only [settle, bind_eq, perform_bind, own, decide_true, Bool.and_true,
    Bool.and_not_self]
  refine follows_release (by rintro ⟨⟩ <;> rfl) rfl rfl ?_
  refine .of_eq ?_ ((DialTicket.dropDues_follows { ticket with
    manager := manager.id, settled := true, outcomeReserved := false } rfl rfl).then ?_)
  · simp [DialTicket.dues, oneIf]
  · rintro - _ rfl
    exact .ret ⟨rfl, rfl⟩

theorem settleForeign_follows (foreign : ticket.manager ≠ manager.id) :
    Accounts setup horizon (fun after state => after = manager ∧ state = 0)
      (manager.settle ticket)
      (owned ticket.manager {.pending} + owned ticket.manager
        (oneIf ticket.outcomeReserved (.issued ticket.admittedAtMs) +
          oneIf (!ticket.connectionKept) .connection)) := by
  simp only [settle, bind_eq, perform_bind, foreign, decide_false, Bool.and_false,
    Bool.not_false, Bool.and_true]
  refine follows_release (by rintro ⟨⟩ <;> rfl) rfl rfl ?_
  refine .of_eq ?_ ((DialTicket.drop_follows { ticket with settled := true }
    (issued_outcome ticket.admittedAtMs)).then ?_)
  · simp [DialTicket.dues, oneIf]
  · rintro - _ rfl
    exact .ret ⟨rfl, rfl⟩

theorem whole_tokens (whole : ticket.Whole) :
    ticket.tokens = oneIf ticket.outcomeReserved (.issued ticket.admittedAtMs) +
      ({.connection} + {.pending}) := by
  simp [DialTicket.tokens, DialTicket.dues, whole.settled, whole.connectionKept, oneIf]

theorem tokensWith_return (unpublished : Option AddressKey) (due : Bool) :
    owned id ({ manager with outcomesToReturn := manager.outcomesToReturn + due.toNat }.tokensWith
      unpublished) = owned id (manager.tokensWith unpublished) +
      owned id (oneIf due .returning) := by
  cases due with
  | false => simp [oneIf]
  | true =>
    simp only [tokensWith, oneIf, ↓reduceIte, Bool.toNat_true, Multiset.replicate_succ, owned_cons]
    rw [add_assoc, add_comm (owned id {.returning})]
    rfl

theorem settleAndPublish_follows (fits : setup.Fits id manager) (own : ticket.manager = id)
    (whole : ticket.Whole) :
    Accounts setup horizon
      (fun after state => Holding setup id after state ∧ after.policy = manager.policy)
      (manager.settleAndPublish ticket)
      (owned id (manager.tokensWith unpublished) +
        (owned id (oneIf ticket.outcomeReserved .returning) +
          owned id ({.connection} + {.pending}))) := by
  obtain rfl := fits.named
  simp only [settleAndPublish, bind_eq]
  have regroup : owned manager.id (manager.tokensWith unpublished) +
      (owned manager.id (oneIf ticket.outcomeReserved .returning) +
        owned manager.id ({.connection} + {.pending})) =
      owned manager.id {.pending} +
        owned manager.id (oneIf (!ticket.connectionKept) .connection) +
      (owned manager.id (manager.tokensWith unpublished) +
        owned manager.id (oneIf ticket.outcomeReserved .returning)) := by
    rw [whole.connectionKept, owned_add]
    simp only [oneIf, Bool.not_false, ↓reduceIte]
    abel
  refine .of_eq regroup ((settleOwn_follows own).share ?_)
  · rintro _ _ ⟨rfl, rfl⟩
    rw [zero_add, ← tokensWith_return]
    have boundsNext : setup.Bounds manager.id { manager with
        outcomesToReturn := manager.outcomesToReturn + ticket.outcomeReserved.toNat } :=
      ⟨rfl, fits.maxPendingDials, fits.maxConnections, fits.maxAddresses⟩
    exact (publish_follows boundsNext unpublished).mono fun _ _ held => ⟨held.1, held.2.1⟩

theorem convert_quiet
    (follows : Accounts setup horizon post prog (owned id (oneIf due .returning) + spare)) :
    Accounts setup horizon post prog (owned id (oneIf due (.issued atMs)) + spare) := by
  cases due with
  | false => exact follows
  | true => exact follows_quiet .settle follows

theorem settleTicket_follows (fits : setup.Fits id manager) (own : ticket.manager = id)
    (whole : ticket.Whole) :
    Accounts setup horizon (Holding setup id) (manager.settleAndPublish ticket)
      (owned id manager.tokens + owned ticket.manager ticket.tokens) := by
  rw [own, whole_tokens whole, owned_add, add_left_comm]
  refine convert_quiet (.of_eq (add_left_comm _ _ _) ?_)
  exact (settleAndPublish_follows fits own whole).mono fun _ _ held => held.1

theorem settleReply_follows (fits : setup.Fits id manager) (own : ticket.manager = id)
    (whole : ticket.Whole) (reply : β) :
    Accounts setup horizon (HoldingFirst setup id)
      ((manager.settleAndPublish ticket).bind fun after => .ret (after, reply))
      (owned id manager.tokens + owned ticket.manager ticket.tokens) := by
  refine (settleTicket_follows fits own whole).then ?_
  intro after _ holding
  exact .ret holding

theorem Aside.settleReply_follows (aside : Aside manager next) (fits : setup.Fits id manager)
    (own : ticket.manager = id) (whole : ticket.Whole) (reply : β) :
    Accounts setup horizon (HoldingFirst setup id)
      ((next.settleAndPublish ticket).bind fun after => .ret (after, reply))
      (owned id manager.tokens + owned ticket.manager ticket.tokens) :=
  aside.steady.quiet
    (ConnectionManager.settleReply_follows (aside.steady.fits fits) own whole reply)

theorem foreign_follows (held : post value state) :
    Accounts setup horizon post (ticket.drop.bind fun _ => .ret value)
      (state + owned ticket.manager ticket.tokens) := by
  refine .of_eq (add_comm _ _) ((ticket.drop_follows (issued_outcome _)).share ?_)
  rintro - _ rfl
  exact .ret (by rwa [zero_add])

theorem own_of_issuedHere (fits : setup.Fits id manager)
    (here : ¬(!manager.issuedHere ticket) = true) : ticket.manager = id := by
  rw [← fits.named]
  simpa [issuedHere] using here

theorem recordAbandoned_follows (fits : setup.Fits id manager) (whole : ticket.Whole)
    (told : nowMs ≤ horizon) :
    Accounts setup horizon (Holding setup id) (manager.recordAbandoned ticket nowMs)
      (owned id manager.tokens + owned ticket.manager ticket.tokens) := by
  refine observe_follows told ?_
  have observed := observe_fits fits nowMs
  simp only [recordAbandoned, bind_eq]
  generalize manager.observe nowMs = manager at observed ⊢
  split
  · exact foreign_follows ⟨observed, rfl⟩
  next here =>
    have steady := (claimAfter_aside clearRetryClaim_aside manager ticket).steady
    exact steady.quiet (settleTicket_follows (steady.fits observed)
      (own_of_issuedHere observed here) whole)

theorem recordPermanentFailure_follows (fits : setup.Fits id manager) (whole : ticket.Whole)
    (told : ticket.settledAt nowMs ≤ horizon) :
    Accounts setup horizon (Holding setup id) (manager.recordPermanentFailure ticket nowMs)
      (owned id manager.tokens + owned ticket.manager ticket.tokens) := by
  simp only [recordPermanentFailure, bind_eq]
  generalize ticket.settledAt nowMs = nowMs at told ⊢
  refine observe_follows told ?_
  have observed := observe_fits fits nowMs
  have order := le_observe manager nowMs
  generalize manager.observe nowMs = manager at observed order ⊢
  split
  · exact foreign_follows ⟨observed, rfl⟩
  next here =>
    have own := own_of_issuedHere observed here
    split
    · exact settleTicket_follows observed own whole
    next peer _ =>
      refine (handOver_follows observed order).share ?_
      rintro ⟨after, released⟩ _ ⟨⟨fitsAfter, rfl⟩, -⟩
      have steady := (claimAfter_aside releaseRetryClaim_aside after ticket).steady
      exact steady.quiet (settleTicket_follows (steady.fits fitsAfter) own whole)

theorem recordFailure_follows (fits : setup.Fits id manager) (whole : ticket.Whole)
    (told : ticket.settledAt nowMs ≤ horizon) :
    Accounts setup horizon (HoldingFirst setup id)
      (manager.recordFailure ticket nowMs)
      (owned id manager.tokens + owned ticket.manager ticket.tokens) := by
  simp only [recordFailure, bind_eq]
  generalize ticket.settledAt nowMs = nowMs at told ⊢
  refine observe_follows told ?_
  have observed := observe_fits fits nowMs
  have order := le_observe manager nowMs
  generalize manager.observe nowMs = manager at observed order ⊢
  split
  · exact foreign_follows ⟨observed, rfl⟩
  next here =>
    have own := own_of_issuedHere observed here
    split
    · exact settleReply_follows observed own whole none
    split
    · exact settleReply_follows observed own whole none
    next peer _ =>
      have failed : Steady manager { manager with
          policy := (manager.policy.recordAddressFailure peer ticket.address nowMs
            (manager.retryDelayMs peer)).1 } :=
        policy_steady order recordAddressFailure_gentle
      refine failed.quiet (observe_follows told ?_)
      refine (learnAddress_follows (failed.fits observed)).share ?_
      rintro ⟨learned, answer⟩ _ ⟨fitsLearned, rfl⟩
      exact ((scheduleRetry_aside _).trans (note_aside _)).settleReply_follows fitsLearned
        own whole _

theorem scoreAddress_follows (fits : setup.Fits id manager) {address : String}
    (told : nowMs ≤ horizon) (order : nowMs ≤ manager.clockMs) :
    Accounts setup horizon (Holding setup id) (manager.scoreAddress peer address nowMs)
      (owned id manager.tokens) := by
  simp only [scoreAddress, bind_eq]
  split
  · exact .ret ⟨fits, rfl⟩
  · have scored : Steady manager { manager with
        policy := manager.policy.scoreAddressFailure peer address nowMs } :=
      policy_steady order scoreAddressFailure_gentle
    refine scored.alone (observe_alone told ?_)
    refine (learnAddress_follows (scored.fits fits)).then ?_
    rintro ⟨learned, answer⟩ _ holding
    exact .ret holding

theorem recordRelayHopUnreached_follows (fits : setup.Fits id manager) (whole : ticket.Whole)
    {relay : TransportIdentity} {relayCameUp : Bool} (told : ticket.settledAt nowMs ≤ horizon) :
    Accounts setup horizon (HoldingFirst setup id)
      (manager.recordRelayHopUnreached ticket relay relayCameUp nowMs)
      (owned id manager.tokens + owned ticket.manager ticket.tokens) := by
  simp only [recordRelayHopUnreached, bind_eq]
  generalize ticket.settledAt nowMs = nowMs at told ⊢
  refine observe_follows told ?_
  have observed := observe_fits fits nowMs
  have order := le_observe manager nowMs
  generalize manager.observe nowMs = manager at observed order ⊢
  split
  · exact foreign_follows ⟨observed, rfl⟩
  next here =>
    have own := own_of_issuedHere observed here
    split
    · exact settleReply_follows observed own whole none
    next peer _ =>
      refine (scoreAddress_follows observed told order).share ?_
      rintro scored _ ⟨fitsScored, rfl⟩
      exact (((scheduleRetry_aside _).trans (changeRetry_aside _ _ _)).trans
        (note_aside _)).settleReply_follows fitsScored own whole _

theorem recordAddressFailureUnadmitted_follows (fits : setup.Fits id manager)
    {peer : TransportIdentity} {address : String} (told : nowMs ≤ horizon) :
    Accounts setup horizon (Holding setup id)
      (manager.recordAddressFailureUnadmitted peer address nowMs) (owned id manager.tokens) := by
  simp only [recordAddressFailureUnadmitted, bind_eq]
  split
  · exact .ret ⟨fits, rfl⟩
  · -- The failure is scored before the time is observed, with nothing in between.
    have failed : Steady (manager.observe nowMs) (observe { manager with
        policy := (manager.policy.recordAddressFailure peer address nowMs
          (manager.retryDelayMs peer)).1 } nowMs) :=
      policy_steady (le_observe manager nowMs) recordAddressFailure_gentle
    have fitsFailed : setup.Fits id { manager with
        policy := (manager.policy.recordAddressFailure peer address nowMs
          (manager.retryDelayMs peer)).1 } :=
      ⟨⟨fits.named, fits.maxPendingDials, fits.maxConnections,
        (failed.fits (observe_fits fits nowMs)).maxAddresses⟩, fits.returned⟩
    refine observe_alone told (failed.alone
      ((learnAddress_follows fitsFailed).then ?_))
    rintro ⟨learned, answer⟩ _ ⟨fitsLearned, rfl⟩
    exact (publish_follows fitsLearned.toBounds none).mono fun _ _ held => held.1

theorem recordPermanentAddressFailureUnadmitted_follows (fits : setup.Fits id manager)
    {peer : TransportIdentity} {address : String} :
    Accounts setup horizon (Holding setup id)
      (manager.recordPermanentAddressFailureUnadmitted peer address) (owned id manager.tokens) := by
  simp only [recordPermanentAddressFailureUnadmitted, bind_eq]
  split
  · exact .ret ⟨fits, rfl⟩
  · refine (handOver_follows fits le_rfl).then ?_
    rintro ⟨after, released⟩ _ ⟨⟨fitsAfter, rfl⟩, -⟩
    exact (publish_follows fitsAfter.toBounds none).mono fun _ _ held => held.1

def HoldingSlots (setup : Setup) (id : ManagerId) (manager : ConnectionManager)
    (slots : Multiset ConnectionSlot) (state : Ledger) : Prop :=
  ∃ own, Holding setup id manager own ∧ (∀ slot ∈ slots, slot.released = false) ∧
    state = own + slotLedger slots

theorem holding_slots (holding : Holding setup id manager state)
    (live : ∀ slot ∈ slots, slot.released = false) (same : spare = slotLedger slots) :
    HoldingSlots setup id manager slots (state + spare) :=
  ⟨state, holding, live, by rw [same]⟩

theorem keepForeign_follows (fits : setup.Fits id manager) (foreign : ticket.manager ≠ manager.id)
    (whole : ticket.Whole) :
    Accounts setup horizon (fun answer => HoldingSlots setup id answer.1 {answer.2})
      (manager.keepConnection ticket)
      (owned id manager.tokens + owned ticket.manager ticket.tokens) := by
  simp only [keepConnection, bind_eq]
  have settles : Accounts setup horizon (fun after state => after = manager ∧ state = 0)
      (manager.settle { ticket with connectionKept := true })
      (owned ticket.manager {.pending} + owned ticket.manager
        (oneIf ticket.outcomeReserved (.issued ticket.admittedAtMs))) :=
    .of_eq (by simp [oneIf]) (settleForeign_follows foreign)
  have regroup : owned id manager.tokens + owned ticket.manager ticket.tokens =
      owned ticket.manager {.pending} + owned ticket.manager
        (oneIf ticket.outcomeReserved (.issued ticket.admittedAtMs)) +
      (owned id manager.tokens + owned ticket.manager {.connection}) := by
    rw [whole_tokens whole, owned_add, owned_add]
    abel
  refine .of_eq regroup (settles.share ?_)
  rintro _ _ ⟨rfl, rfl⟩
  exact .ret ⟨_, ⟨fits, rfl⟩, by simp, by simp [slotLedger, ConnectionSlot.tokens, oneIf]⟩

theorem keepOwn_follows (fits : setup.Fits id manager) (own : ticket.manager = id)
    (whole : ticket.Whole) :
    Accounts setup horizon
      (fun answer state => setup.Bounds id answer.1 ∧ answer.2 = ⟨id, false⟩ ∧
        state = owned id answer.1.tokens + owned id {.connection})
      (manager.keepConnection ticket)
      (owned id manager.tokens + owned ticket.manager ticket.tokens) := by
  obtain rfl := fits.named
  simp only [keepConnection, bind_eq]
  have settles : Accounts setup horizon
      (fun after state => after = { manager with
        outcomesToReturn := manager.outcomesToReturn + ticket.outcomeReserved.toNat } ∧ state = 0)
      (manager.settle { ticket with connectionKept := true }) (owned manager.id {.pending}) := by
    have kept : ({ ticket with connectionKept := true } : DialTicket).manager = manager.id := own
    exact .of_eq (by simp [oneIf]) (settleOwn_follows kept)
  have regroup : owned manager.id manager.tokens + owned ticket.manager ticket.tokens =
      owned manager.id (oneIf ticket.outcomeReserved (.issued ticket.admittedAtMs)) +
      (owned manager.id {.pending} +
        (owned manager.id manager.tokens + owned manager.id {.connection})) := by
    rw [own, whole_tokens whole, owned_add, owned_add]
    abel
  refine .of_eq regroup (convert_quiet (.of_eq (add_left_comm _ _ _)
    (settles.share ?_)))
  rintro _ _ ⟨rfl, rfl⟩
  refine .ret ⟨⟨rfl, fits.maxPendingDials, fits.maxConnections, fits.maxAddresses⟩,
    by simp [own], ?_⟩
  simp only [tokens, tokensWith_return]
  abel

theorem keepAndPublish_follows (fits : setup.Fits id manager) (own : ticket.manager = id)
    (whole : ticket.Whole) :
    Accounts setup horizon (fun answer => HoldingSlots setup id answer.1 {answer.2})
      ((manager.keepConnection ticket).bind fun answer =>
        answer.1.publish.bind fun after => .ret (after, answer.2))
      (owned id manager.tokens + owned ticket.manager ticket.tokens) := by
  refine (keepOwn_follows fits own whole).then ?_
  rintro ⟨kept, slot⟩ _ ⟨boundsKept, rfl, rfl⟩
  refine (publish_follows boundsKept none).share ?_
  rintro after _ ⟨holding, -⟩
  exact .ret (holding_slots holding (by simp) (by simp [slotLedger, ConnectionSlot.tokens, oneIf]))

theorem recordSuccess_follows (fits : setup.Fits id manager) (whole : ticket.Whole)
    (told : ticket.settledAt nowMs ≤ horizon)
    (clears : ticket.manager = id → ∀ peer, ticket.peer = some peer →
      right = .clears ⟨peer, ticket.address⟩) :
    Accounts setup horizon (fun answer => HoldingSlots setup id answer.1 {answer.2})
      (manager.recordSuccess ticket nowMs)
      (owned id (manager.licensed right) + owned ticket.manager ticket.tokens) := by
  simp only [recordSuccess, bind_eq]
  generalize ticket.settledAt nowMs = nowMs at told ⊢
  refine observe_licensed told ?_
  have observed := observe_fits fits nowMs
  have order := le_observe manager nowMs
  generalize manager.observe nowMs = manager at observed order ⊢
  split
  next elsewhere =>
    have foreign : ticket.manager ≠ manager.id := by simpa [issuedHere] using elsewhere
    exact relinquish_follows (keepForeign_follows observed foreign whole)
  next here =>
    have own := own_of_issuedHere observed here
    cases named : ticket.peer with
    | none => exact relinquish_follows (keepAndPublish_follows observed own whole)
    | some peer =>
      have gentle : Gentle (· = AddressKey.mk peer ticket.address) noPair nowMs manager.policy
          (manager.policy.recordSuccess peer ticket.address nowMs) :=
        recordSuccess_gentle manager.policy peer ticket.address nowMs
      let next := { manager with
        policy := manager.policy.recordSuccess peer ticket.address nowMs
        retries := manager.retries.erase peer }
      have cleared : setup.Fits id next :=
        ⟨⟨observed.named, observed.maxPendingDials, observed.maxConnections,
          gentle.framed.maxAddresses.trans observed.maxAddresses⟩, observed.returned⟩
      have allowed : ∀ key, key = AddressKey.mk peer ticket.address → right = .clears key :=
        fun key same => same ▸ clears own peer named
      have revision : next.revision = manager.revision := rfl
      exact evolve_licensed revision rfl le_rfl (le_max_left _ _) (gentle.later order) allowed
        (.inr rfl) (keepAndPublish_follows cleared own whole)

def Mismatched (manager : ConnectionManager) (id : ManagerId) (ticket : DialTicket) (nowMs : Nat)
    (answer : ConnectionManager × Bool) : Prop :=
  ticket.manager = id → ∀ peer, ticket.peer = some peer →
    (answer.1.policy, answer.2) = manager.policy.recordIdentityMismatch peer ticket.address
      (ticket.settledAt nowMs)

variable (horizon) in
theorem settleMismatch_follows (fits : setup.Fits id manager) (aside : Aside manager next)
    (unpublished : Option AddressKey) (own : ticket.manager = id) (whole : ticket.Whole)
    (mismatched : Bool) :
    Accounts setup horizon
      (fun answer state => Holding setup id answer.1 state ∧
        (answer.1.policy, answer.2) = (manager.policy, mismatched))
      ((next.settleAndPublish ticket).bind fun after => .ret (after, mismatched))
      (owned id (manager.tokensWith unpublished) +
        (owned id (oneIf ticket.outcomeReserved .returning) +
          owned id ({.connection} + {.pending}))) := by
  rw [← aside.tokensWith]
  refine (settleAndPublish_follows (aside.steady.fits fits) own whole).then ?_
  rintro after _ ⟨holding, policy⟩
  exact .ret ⟨holding, by rw [policy, aside.policy]⟩

theorem ownMismatch_follows (fits : setup.Fits id manager) (own : ticket.manager = id)
    (whole : ticket.Whole) (named : ticket.peer = some peer) (order : nowMs ≤ manager.clockMs)
    (admitted : ticket.admittedAtMs ≤ nowMs) (onTime : manager.clockMs ≤ nowMs ∨ right = .late)
    {policy : ConnectionPolicy}
    (outcome : manager.policy.recordIdentityMismatch peer ticket.address nowMs =
      (policy, mismatched)) (aside : Aside { manager with policy := policy } next) :
    Accounts setup horizon
      (fun answer state => Holding setup id answer.1 state ∧
        (answer.1.policy, answer.2) = (policy, mismatched))
      ((next.settleAndPublish ticket).bind fun after => .ret (after, mismatched))
      (owned id (manager.licensed right) + owned ticket.manager ticket.tokens) := by
  have reserved : ticket.outcomeReserved = true := by rw [whole.outcomeReserved, named]; rfl
  have parts : owned ticket.manager ticket.tokens =
      owned id {.issued ticket.admittedAtMs} + owned id ({.connection} + {.pending}) := by
    rw [own, whole_tokens whole, reserved, owned_add]
    rfl
  have cases := recordIdentityMismatch_cases manager.policy peer ticket.address nowMs
  rw [outcome] at cases
  rcases cases with ⟨-, punishes⟩ | ⟨-, gentle⟩
  · have fitsNext : setup.Fits id { manager with policy := policy } :=
      ⟨⟨fits.named, fits.maxPendingDials, fits.maxConnections,
        punishes.framed.maxAddresses.trans fits.maxAddresses⟩, fits.returned⟩
    have quiet : Quiet horizon
        {.authority { manager.view none with right := right }, .issued ticket.admittedAtMs}
        {.authority (view { manager with policy := policy } (some ⟨peer, ticket.address⟩)),
          .returning} :=
      .mismatch rfl rfl rfl le_rfl (le_max_left _ _) order (admitted.trans order) onTime
        rfl punishes
    have settles := settleMismatch_follows horizon fitsNext aside
      (some ⟨peer, ticket.address⟩) own whole
      mismatched
    rw [reserved] at settles
    have regroup : owned id (manager.licensed right) + owned ticket.manager ticket.tokens =
        owned id {.authority { manager.view none with right := right },
          .issued ticket.admittedAtMs} +
          (owned id (Multiset.replicate manager.outcomesToReturn .returning) +
            owned id ({.connection} + {.pending})) := by
      rw [parts, licensed, owned_cons, Multiset.insert_eq_cons, owned_cons]
      abel
    refine .of_eq regroup (follows_quiet quiet (.of_eq ?_ settles))
    rw [tokensWith_owned, Multiset.insert_eq_cons, owned_cons]
    simp only [oneIf, ↓reduceIte]
    abel
  · have steady := policy_steady order gentle
    have settles := settleMismatch_follows horizon (steady.fits fits) aside none own
      whole mismatched
    rw [reserved] at settles
    refine relinquish_follows (steady.quiet ?_)
    rw [parts, add_left_comm]
    exact follows_quiet .settle (.of_eq (add_left_comm _ _ _) settles)

theorem recordIdentityMismatch_follows (fits : setup.Fits id manager) (whole : ticket.Whole)
    (told : ticket.settledAt nowMs ≤ horizon) (onTime : manager.clockMs ≤ nowMs ∨ right = .late) :
    Accounts setup horizon
      (fun answer state => Holding setup id answer.1 state ∧
        Mismatched manager id ticket nowMs answer)
      (manager.recordIdentityMismatch ticket nowMs)
      (owned id (manager.licensed right) + owned ticket.manager ticket.tokens) := by
  have samePolicy : manager.policy = (manager.observe (ticket.settledAt nowMs)).policy := rfl
  have admitted : ticket.admittedAtMs ≤ ticket.settledAt nowMs ∧
      nowMs ≤ ticket.settledAt nowMs := by
    unfold DialTicket.settledAt
    split <;> omega
  have onTimeNow : (manager.observe (ticket.settledAt nowMs)).clockMs ≤ ticket.settledAt nowMs ∨
      right = .late :=
    onTime.imp_left fun early => max_le (early.trans admitted.2) le_rfl
  simp only [recordIdentityMismatch, bind_eq, Mismatched, samePolicy]
  generalize ticket.settledAt nowMs = nowMs at *
  refine observe_licensed told ?_
  have observed := observe_fits fits nowMs
  have order := le_observe manager nowMs
  generalize manager.observe nowMs = manager at observed order onTimeNow ⊢
  split
  next elsewhere =>
    have foreign : ticket.manager ≠ manager.id := by simpa [issuedHere] using elsewhere
    refine relinquish_follows (foreign_follows ⟨⟨observed, rfl⟩, fun own => ?_⟩)
    exact absurd (own.trans observed.named.symm) foreign
  next here =>
    have own := own_of_issuedHere observed here
    cases named : ticket.peer with
    | none =>
      refine relinquish_follows ((settleReply_follows observed own whole false).mono ?_)
      exact fun _ _ holding => ⟨holding, fun _ peer absurdity => by cases absurdity⟩
    | some peer =>
      rcases outcome : manager.policy.recordIdentityMismatch peer ticket.address nowMs with
        ⟨policy, mismatched⟩
      simp only [outcome]
      refine (ownMismatch_follows observed own whole named order admitted.1 onTimeNow
        outcome ?_).mono ?_
      · refine .trans ?_ (claimAfter_aside releaseRetryClaim_aside _ ticket)
        split
        · exact note_aside _
        · exact .refl _
      · rintro answer state ⟨holding, decided⟩
        refine ⟨holding, fun _ other same => ?_⟩
        cases same
        rw [decided, outcome]

theorem admitInbound_follows (fits : setup.Fits id manager) :
    Accounts setup horizon
      (fun answer => HoldingSlots setup id answer.1 (Reply.slot answer.2).slots)
      manager.admitInbound (owned id manager.tokens) := by
  have refused : HoldingSlots setup id manager 0 (owned id manager.tokens) :=
    ⟨_, ⟨fits, rfl⟩, by simp, by simp [slotLedger]⟩
  simp only [admitInbound, bind_eq, perform_bind]
  refine follows_look (fun draining => .loadShuttingDown draining) fun (draining : Bool) => ?_
  cases draining with
  | true => exact .ret refused
  | false =>
    simp only [Bool.false_eq_true, ↓reduceIte]
    have takes : ∀ current < manager.maxConnections,
        Trade setup (.compareExchangeWeak manager.id .connections current (current + 1)) (.ok ())
          0 {.connection} := by
      intro current below
      rw [fits.maxConnections, ← fits.named] at below
      exact .reserveConnection below
    refine .of_eq (zero_add _).symm
      ((reserveUnit_follows takes).share ?_)
    rintro (⟨⟩ | ⟨⟩) _ rfl
    · exact .ret (by rw [zero_add]; exact refused)
    · refine .of_eq (add_comm _ _)
        ((publish_follows fits.toBounds none).share ?_)
      rintro after _ ⟨holding, -⟩
      refine .ret (holding_slots holding ?_ ?_)
      · simp [Reply.slots]
      · simp [Reply.slots, slotLedger, ConnectionSlot.tokens, oneIf]

theorem recordInboundRetained_follows (fits : setup.Fits id manager) {peer : TransportIdentity}
    (told : nowMs ≤ horizon) :
    Accounts setup horizon (HoldingFirst setup id)
      (manager.recordInboundRetained peer nowMs) (owned id manager.tokens) := by
  simp only [recordInboundRetained, bind_eq]
  refine observe_alone told ?_
  have observed := observe_fits fits nowMs
  generalize manager.observe nowMs = manager at observed ⊢
  have cleared : Steady manager { manager with
      policy := (manager.policy.clearPeerBackoff peer).1, retries := manager.retries.erase peer } :=
    .intro _ _ _ _ _ clearPeerBackoff_gentle
  split
  · exact cleared.publish_follows observed true
  · exact cleared.ret_follows observed false

theorem liftPeer_steady (nowMs : Nat) (lifts : ConnectionManager × Nat) (peer : TransportIdentity) :
    Steady lifts.1 (liftPeer nowMs lifts peer).1 := by
  obtain ⟨manager, lifted⟩ := lifts
  have lift : Steady manager { manager with
      policy := (manager.policy.liftPeerBackoff peer nowMs).1 } :=
    policy_steady le_rfl liftPeerBackoff_gentle
  unfold liftPeer
  dsimp only
  generalize Option.any _ manager.retries[peer]? = retry
  cases retry with
  | false =>
    simp only [Bool.false_eq_true, ↓reduceIte]
    split <;> exact lift.trans (.intro _ _ _ _ _ .refl)
  | true =>
    rw [if_pos (Bool.or_true _)]
    simp only [↓reduceIte]
    exact (lift.trans (changeRetry_aside _ peer _).steady).trans
      (.intro _ _ _ _ _ .refl)

theorem liftPeers_steady {nowMs : Nat} (peers : List TransportIdentity)
    (lifts : ConnectionManager × Nat) : Steady lifts.1 (peers.foldl (liftPeer nowMs) lifts).1 := by
  induction peers generalizing lifts with
  | nil => exact .refl lifts.1
  | cons peer rest ih => exact (liftPeer_steady nowMs lifts peer).trans (ih _)

theorem networkAdded_follows (fits : setup.Fits id manager) (told : nowMs ≤ horizon) :
    Accounts setup horizon (HoldingFirst setup id)
      (manager.networkAdded nowMs) (owned id manager.tokens) := by
  simp only [networkAdded, bind_eq]
  refine observe_alone told ?_
  have observed := observe_fits fits nowMs
  generalize manager.observe nowMs = manager at observed ⊢
  have lifted : ∀ (peers : List TransportIdentity) networkLifts, Steady manager
      (peers.foldl (liftPeer nowMs) ({ manager with networkLifts := networkLifts }, 0)).1 := by
    intro peers networkLifts
    refine .trans ?_ (liftPeers_steady peers _)
    exact .intro _ _ _ _ _ .refl
  split
  · exact Steady.publish_follows (lifted _ _) observed _
  · exact Steady.ret_follows (lifted _ _) observed _

theorem recordConnectionClosed_follows (fits : setup.Fits id manager) {slot : ConnectionSlot} :
    Accounts setup horizon (Holding setup id) (manager.recordConnectionClosed slot)
      (owned id manager.tokens + owned slot.manager slot.tokens) := by
  simp only [recordConnectionClosed, bind_eq]
  refine .of_eq (add_comm _ _) (slot.drop_follows.share ?_)
  rintro - _ rfl
  exact .of_eq (zero_add _) ((publish_follows fits.toBounds none).mono fun _ _ held => held.1)

theorem beginShutdown_follows (fits : setup.Fits id manager) :
    Accounts setup horizon (Holding setup id) manager.beginShutdown
      (owned id manager.tokens) := by
  simp only [beginShutdown, bind_eq, perform_bind]
  have draining : Steady manager { manager with
      policy := { manager.policy with shuttingDown := true } } :=
    policy_steady le_rfl shutDown_gentle
  refine follows_look (fun _ => .storeShuttingDown) fun _ => draining.alone ?_
  exact (publish_follows (draining.fits fits).toBounds none).mono fun _ _ held => held.1

theorem takeDueRetries_steady :
    Steady (manager.observe nowMs) (manager.takeDueRetries nowMs limit).1 :=
  (reclaim_aside _).steady

theorem relayReached_steady : Steady (manager.observe nowMs) (manager.relayReached relay nowMs) :=
  .intro _ _ _ _ _ .refl

end

end ConnectionManager

end InterWeave
