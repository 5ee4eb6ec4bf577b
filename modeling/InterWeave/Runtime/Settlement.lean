import InterWeave.Runtime.ManagerRuns

/-!
What the settlement of a dial may touch. Each way of settling has its own: what it scores, what
it learns, and what becomes of the retry the scheduler may have claimed for the peer.
-/

namespace InterWeave

open Std (ExtTreeMap)
open Concurrent OrderedMap

namespace ConnectionPolicy

def SameBackoffs (before : ConnectionPolicy) (nowMs : Nat) (after : ConnectionPolicy) : Prop :=
  ∀ (peer : TransportIdentity) (backoff : PeerBackoff), backoff.isPunitiveAt nowMs = true →
    (after.peers[peer]? = some backoff ↔ before.peers[peer]? = some backoff)

def SameQuarantines (before : ConnectionPolicy) (nowMs : Nat) (exempt : AddressKey → Prop)
    (after : ConnectionPolicy) : Prop :=
  ∀ (key : AddressKey) (state : AddressState), ¬exempt key → state.isPunitiveAt nowMs = true →
    (after.addresses[key]? = some state ↔ before.addresses[key]? = some state)

variable {policy before middle after : ConnectionPolicy} {nowMs : Nat} {exempt : AddressKey → Prop}

theorem SameBackoffs.of_eq (same : after.peers = before.peers) : SameBackoffs before nowMs after :=
  fun _ _ _ => by rw [same]

theorem SameBackoffs.trans (first : SameBackoffs before nowMs middle)
    (second : SameBackoffs middle nowMs after) : SameBackoffs before nowMs after :=
  fun peer backoff punitive => (second peer backoff punitive).trans (first peer backoff punitive)

theorem SameQuarantines.trans (first : SameQuarantines before nowMs exempt middle)
    (second : SameQuarantines middle nowMs exempt after) :
    SameQuarantines before nowMs exempt after :=
  fun key state other punitive =>
    (second key state other punitive).trans (first key state other punitive)

theorem Sheds.sameQuarantines (sheds : Sheds nowMs before.addresses after.addresses) :
    SameQuarantines before nowMs exempt after :=
  fun key state _ punitive =>
    ⟨sheds.sub key state, fun found => sheds.inForce key state found punitive⟩

theorem prune_sameBackoffs : SameBackoffs policy nowMs (policy.prune nowMs) := by
  intro peer backoff punitive
  rw [prune, ExtTreeMap.getElem?_filter', Option.filter_eq_some_iff]
  simp [punitive]

theorem roomAfterPrune_same (policy : ConnectionPolicy) (peer : TransportIdentity)
    (address : String) (nowMs : Nat) :
    SameBackoffs policy nowMs (policy.roomAfterPrune peer address nowMs).1 ∧
      Sheds nowMs policy.addresses (policy.roomAfterPrune peer address nowMs).1.addresses ∧
      (policy.roomAfterPrune peer address nowMs).1.book = policy.book := by
  unfold roomAfterPrune
  split
  · exact ⟨.of_eq rfl, .refl _, rfl⟩
  · obtain ⟨addresses, room, sheds⟩ := makeRoomForAddress_sheds
    rw [room]
    exact ⟨prune_sameBackoffs, prune_sheds.trans sheds, rfl⟩

theorem updateAddress_sameQuarantines {peer : TransportIdentity} {address : String} :
    SameQuarantines policy nowMs (· = ⟨peer, address⟩)
      (policy.updateAddress peer address update) := by
  intro key state other _
  rw [updateAddress, get_insert, if_neg (Ne.symm other)]

theorem scoreAddressFailure_sameBackoffs {peer : TransportIdentity} {address : String}
    {nowMs : Nat} :
    SameBackoffs policy nowMs (policy.scoreAddressFailure peer address nowMs) := by
  have roomy := (roomAfterPrune_same policy peer address nowMs).1
  unfold scoreAddressFailure
  dsimp only
  split
  · exact roomy.trans (.of_eq rfl)
  · exact roomy

theorem recordIdentityMismatch_same (policy : ConnectionPolicy) (peer : TransportIdentity)
    (address : String) (nowMs : Nat) :
    SameBackoffs policy nowMs (policy.recordIdentityMismatch peer address nowMs).1 ∧
      SameQuarantines policy nowMs (· = ⟨peer, address⟩)
        (policy.recordIdentityMismatch peer address nowMs).1 ∧
      (policy.recordIdentityMismatch peer address nowMs).1.book = policy.book := by
  obtain ⟨backoffs, sheds, book⟩ := roomAfterPrune_same policy peer address nowMs
  unfold recordIdentityMismatch
  dsimp only
  split
  · exact ⟨backoffs, sheds.sameQuarantines, book⟩
  · exact ⟨backoffs.trans (.of_eq rfl),
      SameQuarantines.trans sheds.sameQuarantines updateAddress_sameQuarantines, book⟩

end ConnectionPolicy

namespace ConnectionManager

variable {manager after : ConnectionManager} {ticket : DialTicket} {peer : TransportIdentity}
  {address : String} {nowMs : Nat}

theorem HandedOver.keeps (handed : HandedOver manager peer address nowMs result) :
    result.1.policy.peers = manager.policy.peers ∧ result.1.retries = manager.retries := by
  cases handed with
  | refused _ => exact ⟨rfl, rfl⟩
  | released exit same =>
    obtain ⟨revision, owed⟩ := same
    refine ⟨?_, rfl⟩
    cases exit with
    | outside _ => rfl
    | removed _ _ _ =>
      dsimp only
      rw [ConnectionPolicy.removeFromBook_framed]

theorem enterBook_claimed {peer other : TransportIdentity} {address : String} {nowMs : Nat} :
    (manager.enterBook peer address nowMs).retries[other]?.map Retry.claimed =
      manager.retries[other]?.map Retry.claimed := by
  unfold enterBook
  rw [changeRetry_get]
  split
  · rw [Option.map_map]
    refine congrArg (Option.map · _) (funext fun retry => ?_)
    dsimp only [Function.comp]
    split <;> rfl
  · rfl

theorem Learned.keeps (learned : Learned manager peer address nowMs result) :
    result.1.policy.peers = manager.policy.peers ∧ ∀ other : TransportIdentity,
      result.1.retries[other]?.map Retry.claimed = manager.retries[other]?.map Retry.claimed := by
  have entered : ∀ next : ConnectionManager,
      (next.enterBook peer address nowMs).policy.peers = next.policy.peers := by
    intro next
    unfold enterBook
    rw [changeRetry_policy]
    rfl
  cases learned with
  | unclassified | already | full => exact ⟨rfl, fun _ => rfl⟩
  | displaced _ _ _ _ handed =>
    obtain ⟨peers, retries⟩ := handed.keeps
    refine ⟨(entered _).trans peers, fun other => ?_⟩
    rw [enterBook_claimed, retries]
    rfl
  | entered _ _ _ =>
    exact ⟨entered _, fun other => enterBook_claimed⟩

theorem scheduleRetry_self :
    (manager.scheduleRetry peer nowMs delayMs claimed).1.retries[peer]?.map Retry.claimed =
      some claimed := by
  simp [scheduleRetry]

theorem note_keeps {manager : ConnectionManager} {note : GateNote} :
    (manager.note note).policy = manager.policy ∧
      (manager.note note).retries = manager.retries := by
  unfold ConnectionManager.note
  split <;> exact ⟨rfl, rfl⟩

structure Untouched (manager after : ConnectionManager) : Prop where
  policy : after.policy = manager.policy
  retries : after.retries = manager.retries

theorem Republished.untouched (same : Republished manager after) : Untouched manager after := by
  obtain ⟨revision, owed⟩ := same
  exact ⟨rfl, rfl⟩

theorem quiet_untouched (quiet : noted = (fun next => next) ∨ ∃ note, noted = (·.note note)) :
    Untouched next (noted next) := by
  rcases quiet with rfl | ⟨note, rfl⟩
  · exact ⟨rfl, rfl⟩
  · exact ⟨note_keeps.1, note_keeps.2⟩

theorem heldByAnother_congr (same : after.retries[peer]?.map Retry.claimed =
      manager.retries[peer]?.map Retry.claimed) :
    after.heldByAnother ticket peer = manager.heldByAnother ticket peer := by
  have claims := congrArg (Option.any fun claimed => claimed) same
  rw [Option.any_map, Option.any_map] at claims
  exact congrArg (!ticket.ownsSchedulerClaim && ·) claims

theorem claimAfter_named (named : ticket.peer = some peer) : claimAfter change manager ticket =
      if ticket.ownsSchedulerClaim = true then change manager peer else manager := by
  rw [claimAfter, named]

end ConnectionManager

open ConnectionManager

theorem Scored.keeps (exit : Scored manager peer address nowMs after) :
    manager.policy.SameBackoffs nowMs after.policy ∧ ∀ other : TransportIdentity,
      after.retries[other]?.map Retry.claimed = manager.retries[other]?.map Retry.claimed := by
  cases exit with
  | unaddressed => exact ⟨.of_eq rfl, fun _ => rfl⟩
  | learned exit =>
    obtain ⟨peers, claims⟩ := exit.keeps
    exact ⟨ConnectionPolicy.scoreAddressFailure_sameBackoffs.trans (.of_eq peers), claims⟩

section

variable {manager next : ConnectionManager} {ticket : DialTicket} {call : Call}

theorem Effect.spares (outcome : Effect manager call next) (settles : call.ticket = some ticket)
    (cause : ticket.manager ≠ manager.id ∨
      (∃ nowMs, call = .recordFailure ticket nowMs ∧
        (ticket.address.isEmpty = true ∨ ticket.origin = .dcutrHolePunch)) ∨
      (∃ nowMs, call = .recordAuthorizationWithdrawn ticket nowMs) ∨
      (∃ nowMs, call = .recordLocallyRefused ticket nowMs)) :
    next.policy = manager.policy ∧ ∀ (peer : TransportIdentity) entry,
      next.retries[peer]? = some entry → manager.retries[peer]? = some entry := by
  cases outcome with
  | kept unsettling _ _ => exact nomatch unsettling.symm.trans settles
  | learned _ | failedUnadmitted _ | droppedUnadmitted _ => cases settles
  | spared _ _ => exact ⟨rfl, fun _ _ found => found⟩
  | abandoned _ _ =>
    refine ⟨(claimAfter_aside clearRetryClaim_aside _ _).policy, fun peer entry found => ?_⟩
    unfold claimAfter at found
    split at found
    · split at found
      · exact found
      · rw [clearRetryClaim, get_erase] at found
        split at found
        · cases found
        · exact found
    · exact found
  | succeeded own _ | unreached own _ _ _ | dropped own _ _ | mismatched own _ _ =>
    cases settles
    simp [own] at cause
  | failed own scored _ _ =>
    cases settles
    rw [not_or] at scored
    simp [own, scored] at cause

variable {peer : TransportIdentity}

/-- What becomes of the claim on the peer's retry. -/
inductive Claim (manager : ConnectionManager) (ticket : DialTicket) (peer : TransportIdentity)
    (call : Call) (next : ConnectionManager) : Prop
  | same (retry : next.retries[peer]? = manager.retries[peer]?)
      (idle : ticket.manager ≠ manager.id ∨ ticket.address.isEmpty = true ∨
        ticket.origin = .dcutrHolePunch ∨ ticket.ownsSchedulerClaim = false)
  | gone (absent : next.retries[peer]? = none)
      (cause : (∃ nowMs, call = .recordSuccess ticket nowMs) ∨ ticket.ownsSchedulerClaim = true)
  | passed (claim : next.retries[peer]?.map Retry.claimed =
      some (manager.heldByAnother ticket peer))
  | released (owns : ticket.ownsSchedulerClaim = true) (retry : next.retries[peer]? =
      manager.retries[peer]?.map fun entry => { entry with claimed := false })

theorem Claim.of_release (named : ticket.peer = some peer)
    (retries : middle.retries = manager.retries) :
    Claim manager ticket peer call (claimAfter releaseRetryClaim middle ticket) := by
  rw [claimAfter_named named]
  split
  next owns =>
    refine .released owns ?_
    rw [releaseRetryClaim, changeRetry_get, if_pos rfl, retries]
  next other =>
    refine .same (by rw [retries]) ?_
    simp [other]

theorem Effect.claim (outcome : Effect manager call next) (settles : call.ticket = some ticket)
    (named : ticket.peer = some peer) : Claim manager ticket peer call next := by
  cases outcome with
  | kept unsettling _ _ => exact nomatch unsettling.symm.trans settles
  | learned _ | failedUnadmitted _ | droppedUnadmitted _ => cases settles
  | spared isTicket idle =>
    obtain rfl := Option.some.inj (isTicket.symm.trans settles)
    refine .same rfl ?_
    simpa [named, or_assoc] using Or.inl idle
  | succeeded _ isPeer =>
    cases settles
    cases named.symm.trans isPeer
    exact .gone ((get_erase _ _ _).trans (if_pos rfl)) (.inl ⟨_, rfl⟩)
  | failed _ _ isPeer exit =>
    cases settles
    cases named.symm.trans isPeer
    refine .passed ?_
    rw [note_keeps.2, scheduleRetry_self, heldByAnother_congr (exit.keeps.2 peer)]
    rfl
  | @unreached _ _ _ _ _ _ scored _ change _ isPeer exit claims =>
    cases settles
    cases named.symm.trans isPeer
    refine .passed ?_
    rw [note_keeps.2, changeRetry_get, if_pos rfl, Option.map_map,
      show Retry.claimed ∘ change = Retry.claimed from funext claims, scheduleRetry_self,
      heldByAnother_congr (exit.keeps.2 peer)]
    rfl
  | dropped _ isPeer exit =>
    cases settles
    exact .of_release named exit.keeps.2
  | abandoned withdrawn _ =>
    obtain rfl : ticket = _ := by
      rcases withdrawn with rfl | rfl <;> exact (Option.some.inj settles).symm
    rw [claimAfter_named named]
    split
    next owns => exact .gone ((get_erase _ _ _).trans (if_pos rfl)) (.inr owns)
    next other => exact .same rfl (by simp [other])
  | mismatched _ isPeer quiet =>
    cases settles
    exact .of_release named (quiet_untouched quiet).retries

theorem Claim.unclaims (claim : Claim manager ticket peer call next)
    (own : ticket.manager = manager.id) (scheduled : ticket.origin = .connectionManager)
    (dialled : ticket.address.isEmpty = false) (found : next.retries[peer]? = some entry) :
    entry.claimed = false := by
  have owns : ticket.ownsSchedulerClaim = true := by
    rw [DialTicket.ownsSchedulerClaim, scheduled]
  cases claim with
  | same _ idle => simp [own, dialled, scheduled, owns] at idle
  | gone absent _ => exact nomatch absent.symm.trans found
  | passed claim =>
    rw [found, heldByAnother, owns] at claim
    exact Option.some.inj claim
  | released _ retry =>
    rw [found] at retry
    obtain ⟨_, _, rfl⟩ := Option.map_eq_some_iff.mp retry.symm
    rfl

theorem Claim.keeps (claim : Claim manager ticket peer call next)
    (failed : ∀ nowMs, call ≠ .recordSuccess ticket nowMs)
    (other : ticket.origin ≠ .connectionManager) (found : manager.retries[peer]? = some entry)
    (claimed : entry.claimed = true) :
    next.retries[peer]?.map Retry.claimed = some true := by
  have owns : ticket.ownsSchedulerClaim = false := by
    unfold DialTicket.ownsSchedulerClaim
    split
    next isManager => exact absurd isManager other
    · rfl
  cases claim with
  | same retry _ => rw [retry, found, Option.map_some, claimed]
  | gone _ cause =>
    rcases cause with ⟨nowMs, isSuccess⟩ | isOwner
    · exact absurd isSuccess (failed nowMs)
    · exact nomatch owns.symm.trans isOwner
  | passed claim =>
    rw [claim, heldByAnother, owns, found, Option.any_some, claimed]
    rfl
  | released isOwner _ => exact nomatch owns.symm.trans isOwner

theorem plain_of_ticket (settles : call.ticket = some ticket) : call.Plain := by
  cases call <;> trivial

end

/-- Settling a dial touches only what its outcome justifies. -/
theorem settlement_touches_only (manager : ConnectionManager) (ticket : DialTicket) :
    (∀ call, call.ticket = some ticket →
      ticket.manager ≠ manager.id ∨
        (∃ nowMs, call = .recordFailure ticket nowMs ∧
          (ticket.address.isEmpty = true ∨ ticket.origin = .dcutrHolePunch)) ∨
        (∃ nowMs, call = .recordAuthorizationWithdrawn ticket nowMs) ∨
        (∃ nowMs, call = .recordLocallyRefused ticket nowMs) →
      (manager.answer call).Gives fun result =>
        result.1.policy.addresses = manager.policy.addresses ∧
        result.1.policy.peers = manager.policy.peers ∧
        result.1.policy.book = manager.policy.book ∧
        ∀ (peer : TransportIdentity) entry, result.1.retries[peer]? = some entry →
          manager.retries[peer]? = some entry) ∧
    (∀ nowMs, (manager.recordIdentityMismatch ticket nowMs).Gives fun result =>
      manager.policy.SameBackoffs (ticket.settledAt nowMs) result.1.policy ∧
      manager.policy.SameQuarantines (ticket.settledAt nowMs)
        (fun key => ticket.peer = some key.peer ∧ ticket.address = key.address)
        result.1.policy ∧
      result.1.policy.book = manager.policy.book) ∧
    (∀ relay relayCameUp nowMs,
      (manager.recordRelayHopUnreached ticket relay relayCameUp nowMs).Gives fun result =>
        manager.policy.SameBackoffs (ticket.settledAt nowMs) result.1.policy) ∧
    (∀ call peer, call.ticket = some ticket → ticket.manager = manager.id →
      ticket.origin = .connectionManager → ticket.peer = some peer →
      ticket.address.isEmpty = false →
      (manager.answer call).Gives fun result =>
        ∀ entry, result.1.retries[peer]? = some entry → entry.claimed = false) ∧
    ∀ call peer entry, call.ticket = some ticket → (∀ nowMs, call ≠ .recordSuccess ticket nowMs) →
      ticket.origin ≠ .connectionManager → ticket.peer = some peer →
      manager.retries[peer]? = some entry → entry.claimed = true →
      (manager.answer call).Gives fun result =>
        result.1.retries[peer]?.map Retry.claimed = some true := by
  refine ⟨fun call settles cause => ?_, fun nowMs => ?_, fun relay relayCameUp nowMs => ?_, ?_, ?_⟩
  · refine (answer_comes manager (plain_of_ticket settles)).mono ?_
    rintro result ⟨next, outcome, same⟩
    obtain ⟨policy, retries⟩ := outcome.spares settles cause
    rw [same.untouched.policy, same.untouched.retries, policy]
    exact ⟨rfl, rfl, rfl, retries⟩
  · refine (recordIdentityMismatch_comes manager).mono ?_
    rintro result ⟨next, outcome, same⟩
    rw [same.untouched.policy]
    cases outcome with
    | kept unsettling _ _ => cases unsettling
    | spared _ _ => exact ⟨.of_eq rfl, fun _ _ _ _ => .rfl, rfl⟩
    | abandoned withdrawn _ => simp at withdrawn
    | @mismatched _ _ peer _ own named quiet =>
      obtain ⟨backoffs, quarantines, book⟩ := manager.policy.recordIdentityMismatch_same peer
        ticket.address (ticket.settledAt nowMs)
      rw [(claimAfter_aside releaseRetryClaim_aside _ _).policy, (quiet_untouched quiet).policy]
      refine ⟨backoffs, fun key state other => quarantines key state fun isKey => other ?_, book⟩
      exact ⟨by rw [isKey, named], by rw [isKey]⟩
  · refine (recordRelayHopUnreached_comes manager).mono ?_
    rintro result ⟨next, outcome, same⟩
    rw [same.untouched.policy]
    cases outcome with
    | kept unsettling _ _ => cases unsettling
    | spared _ _ => exact .of_eq rfl
    | abandoned withdrawn _ => simp at withdrawn
    | unreached _ _ exit _ =>
      rw [note_keeps.1, changeRetry_policy]
      exact exit.keeps.1
  · intro call peer settles own scheduled named dialled
    refine (answer_comes manager (plain_of_ticket settles)).mono ?_
    rintro result ⟨next, outcome, same⟩ entry found
    rw [same.untouched.retries] at found
    exact (outcome.claim settles named).unclaims own scheduled dialled found
  · intro call peer entry settles failed other named found claimed
    refine (answer_comes manager (plain_of_ticket settles)).mono ?_
    rintro result ⟨next, outcome, same⟩
    rw [same.untouched.retries]
    exact (outcome.claim settles named).keeps failed other found claimed

end InterWeave
