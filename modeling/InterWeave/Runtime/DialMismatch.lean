import InterWeave.Runtime.DialCurrency

/-!
Every identity mismatch can be remembered: a ticket that names a peer keeps room for the
quarantine its mismatch would need.
-/

namespace InterWeave

open Concurrent Saturating ConnectionPolicy

section

variable {setup : Setup} {horizon : Nat}

open Token

theorem Quiet.claim_le (quiet : Quiet horizon own after) (revision nowMs : Nat) :
    total (claim revision nowMs) after ≤ total (claim revision nowMs) own := by
  cases quiet with
  | forget _ => simp
  | settle | evolve | mismatch => simp [claim]

theorem silent_claim_le (quiet : (Dial.protocol setup horizon).silent state after) (id : ManagerId)
    (revision nowMs : Nat) :
    total (claim revision nowMs) (after id) ≤ total (claim revision nowMs) (state id) := by
  induction quiet with
  | refl => exact le_rfl
  | tail _ step ih =>
    obtain ⟨other, own, given, spare, quiet, rfl, rfl⟩ := step
    have here := quiet.claim_le revision nowMs
    refine le_trans ?_ ih
    simp only [Pi.add_apply, total_add]
    by_cases same : id = other
    · subst same
      rw [owned_self, owned_self]
      omega
    · rw [owned_other same, owned_other same]

theorem ticketLedger_claim (sound : ∀ ticket ∈ tickets, ticket.Sound nowMs) (id : ManagerId)
    (revision : Nat) :
    total (claim revision nowMs) (ticketLedger tickets id) =
      unitsHeld tickets 0 0 id .outcomes := by
  induction tickets using Multiset.induction_on with
  | empty => rfl
  | cons ticket tickets ih =>
    have here := sound ticket (Multiset.mem_cons_self _ _)
    have later := ih fun other member => sound other (Multiset.mem_cons_of_mem member)
    have unsettled := here.settled
    have known := here.admitted
    rw [ticketLedger_cons, Pi.add_apply, total_add, later,
      ConnectionManager.whole_tokens here.toWhole, here.outcomeReserved]
    by_cases same : ticket.manager = id
    · subst same
      rw [owned_self]
      cases named : ticket.peer.isSome <;>
        simp [unitsHeld, oneIf, claim, unsettled, named, known, add_comm]
    · rw [owned_other (Ne.symm same)]
      simp [unitsHeld, same]

theorem rebinds_claim_le (sound : task.Sound setup nowMs)
    (follows : Accounts setup nowMs (task.Leaves setup) prog own)
    (path : (Dial.body task).Path events prog) (id : ManagerId) (revision : Nat) :
    unitsHeld task.rebinds 0 0 id .outcomes ≤ total (claim revision nowMs) (own id) := by
  cases task with
  | rebindAddress ticket address =>
    obtain ⟨⟩ | ⟨⟨⟩, -⟩ := path
    obtain ⟨last, quiet, -, rfl⟩ := follows.returned
    have kept := silent_claim_le quiet id revision nowMs
    have claims : total (claim revision nowMs) (ticketLedger {ticket} id) = _ :=
      ticketLedger_claim (fun other member => Multiset.mem_singleton.mp member ▸ sound) id revision
    have alone : ticketLedger {ticket} = owned ticket.manager ticket.tokens := by
      simp [ticketLedger]
    rw [alone] at claims
    rw [Task.rebinds]
    omega
  | _ => exact Nat.zero_le _

def ticketsOut (config : Config Op Op.Ans World Rest Task TaskResult) : Multiset DialTicket :=
  config.rest.tickets + (config.threads.map fun thread => thread.task.rebinds).sum

variable {labels : List (Label Op Op.Ans Task TaskResult)}
  {config : Config Op Op.Ans World Rest Task TaskResult} {nowMs : Nat}

theorem ticketsOut_claim_le (reaches : Dial.Reaches setup labels config)
    (told : Dial.ToldBy nowMs labels) {id : ManagerId} :
    ∃ tokens, Account setup id (config.world id) tokens ∧ Clocked nowMs tokens ∧
      Ruled setup id (config.world id) tokens ∧
      (∀ manager ∈ config.rest.managers, manager.id = id →
        .authority (manager.view none) ∈ tokens) ∧
      ∀ revision, unitsHeld (ticketsOut config) 0 0 id .outcomes ≤
        total (claim revision nowMs) tokens := by
  obtain ⟨sound, held, listed, each, accounted⟩ := reaches.covers told
  have running := reaches.traced.running
  obtain ⟨account, clocked, ruled⟩ := accounted id
  refine ⟨_, account, clocked, ruled, ?_, fun revision => ?_⟩
  · intro manager member named
    subst named
    exact Multiset.mem_add.mpr (.inl (Rest.authority member))
  · change _ ≤ total (claim revision nowMs) ((config.rest.ledger + _) id)
    have atRest := ticketLedger_claim sound.tickets id revision
    have threads : unitsHeld (held.map fun entry => entry.1.task.rebinds).sum 0 0 id .outcomes ≤
        total (claim revision nowMs) ((held.map Prod.snd).sum id) := by
      rw [← listed] at running
      clear listed accounted account clocked ruled
      induction held with
      | nil => exact Nat.zero_le _
      | cons entry held ih =>
        obtain ⟨taskSound, follows⟩ := each entry List.mem_cons_self
        have here := rebinds_claim_le taskSound follows (running entry.1 (by simp)).2 id revision
        have later := ih (fun other member => each other (List.mem_cons_of_mem _ member))
          (fun thread member => running thread (List.mem_cons_of_mem _ member))
        simp only [List.map_cons, List.sum_cons, unitsHeld_add, Pi.add_apply, total_add]
        omega
    have bound : (config.threads.map fun thread => thread.task.rebinds) =
        held.map fun entry => entry.1.task.rebinds := by
      rw [← listed, List.map_map]
      rfl
    simp only [ticketsOut, bound, unitsHeld_add, Rest.ledger, Pi.add_apply, total_add]
    omega

theorem ticketsOut_bounded (reaches : Dial.Reaches setup labels config)
    (told : Dial.ToldBy nowMs labels) {id : ManagerId}
    (lasts : (config.world id).earlier.length < counterRange) :
    (id ∈ setup.managers → (config.world id).managed = true →
      unitsHeld (ticketsOut config) 0 0 id .outcomes +
        (config.world id).current.policy.liveQuarantines nowMs ≤ (setup.policy id).maxAddresses) ∧
    ∀ manager ∈ config.rest.managers, manager.id = id →
      unitsHeld (ticketsOut config) 0 0 id .outcomes + manager.policy.liveQuarantines nowMs ≤
        (setup.policy id).maxAddresses := by
  obtain ⟨tokens, account, clocked, ruled, atRest, claims⟩ := ticketsOut_claim_le reaches told
  constructor
  · intro known managed
    obtain ⟨view, member⟩ := ruled known managed
    have room := (account.governed view member).room lasts nowMs (clocked view member)
    exact le_trans (Nat.add_le_add_right (claims _) _) room.published
  · intro manager member named
    have ruling := atRest manager member named
    have room := (account.governed _ ruling).room lasts nowMs (clocked _ ruling)
    exact le_trans (Nat.add_le_add_right (claims _) _) room.own

end

theorem World.exec_enabled (world : World) (op : Op) :
    ∃ ans changed, world.Exec op ans changed := by
  suffices enabled : ∃ ans changed, (world op.manager).Exec op ans changed by
    obtain ⟨ans, changed, executed⟩ := enabled
    exact ⟨ans, _, changed, executed, rfl⟩
  cases op with
  | load _ _ => exact ⟨_, _, .load⟩
  | compareExchangeWeak _ _ _ _ => exact ⟨_, _, .exchangeFailed⟩
  | fetchSub _ _ _ => exact ⟨_, _, .fetchSub⟩
  | loadShuttingDown _ => exact ⟨_, _, .loadShuttingDown⟩
  | storeShuttingDown _ => exact ⟨_, _, .storeShuttingDown⟩
  | upgradeManager manager =>
    cases alive : (world manager).alive with
    | true => exact ⟨_, _, .upgraded alive⟩
    | false => exact ⟨_, _, .upgradeFailed alive⟩
  | dropManagerRef _ => exact ⟨_, _, .dropManagerRef⟩
  | dropManager _ => exact ⟨_, _, .dropManager⟩
  | readCurrent _ => exact ⟨_, _, .readCurrent⟩
  | readPublished _ => exact ⟨_, _, .readPublished⟩
  | writePublished _ _ => exact ⟨_, _, .writePublished⟩

theorem releaseIf_spinless {id : ManagerId} :
    (releaseIf due id counter).Spinless := by
  cases due with
  | false => exact .ret ()
  | true => exact .call fun _ => .ret ()

theorem DialTicket.drop_spinless (ticket : DialTicket) : ticket.drop.Spinless :=
  releaseIf_spinless.bind fun _ => releaseIf_spinless.bind fun _ =>
    releaseIf_spinless

namespace ConnectionManager

theorem publish_spinless (manager : ConnectionManager) : manager.publish.Spinless := by
  refine .call fun _ => ?_
  unfold returnOutcomes
  split
  · exact .call fun _ => .ret _
  · exact .ret _

theorem settleAndPublish_spinless {manager : ConnectionManager} {ticket : DialTicket} :
    (manager.settleAndPublish ticket).Spinless :=
  (Prog.Spinless.call fun _ => (DialTicket.drop_spinless _).bind fun _ => .ret _).bind
    publish_spinless

theorem recordIdentityMismatch_spinless (manager : ConnectionManager) (ticket : DialTicket)
    (nowMs : Nat) : (manager.recordIdentityMismatch ticket nowMs).Spinless := by
  simp only [recordIdentityMismatch, Prog.bind_eq]
  split
  · exact ticket.drop_spinless.bind fun _ => .ret _
  · split
    · exact settleAndPublish_spinless.bind fun _ => .ret _
    · exact settleAndPublish_spinless.bind fun _ => .ret _

end ConnectionManager

section

variable {setup : Setup} {labels : List (Label Op Op.Ans Task TaskResult)}
  {config next : Config Op Op.Ans World Rest Task TaskResult} {nowMs thread : Nat}
  {manager : ConnectionManager} {ticket : DialTicket} {peer : TransportIdentity}

section

variable (reaches : Dial.Reaches setup labels config) (told : Dial.ToldBy nowMs labels)
  (step : Step Dial.system config (.start thread (.manage manager (.recordIdentityMismatch ticket
    nowMs))) next) (own : ticket.manager = manager.id) (named : ticket.peer = some peer)
  (lasts : (config.world manager.id).earlier.length < counterRange)

include reaches told step own named lasts

theorem mismatch_has_room :
    (manager.policy.recordIdentityMismatch peer ticket.address (ticket.settledAt nowMs)).2 =
      true := by
  obtain ⟨sound, -⟩ := reaches.covers told
  obtain ⟨taken⟩ | _ | _ := step
  obtain _ | _ | _ | _ | _ | _ | _ := taken
  have bound := (ticketsOut_bounded reaches told lasts).2 manager (Multiset.mem_cons_self _ _) rfl
  have fits := sound.managers manager (Multiset.mem_cons_self _ _)
  have whole := (sound.tickets ticket (by simp [Call.ticket])).toWhole
  have counts : 1 ≤ unitsHeld {ticket} 0 0 manager.id .outcomes := by
    rw [unitsHeld, Multiset.filter_singleton, if_pos ⟨own, whole.settled, by simp [named]⟩]
    simp
  have fewer : manager.policy.liveQuarantines (ticket.settledAt nowMs) ≤
      manager.policy.liveQuarantines nowMs :=
    manager.policy.liveQuarantines_antitone (by unfold DialTicket.settledAt; split <;> omega)
  apply recordIdentityMismatch_succeeds
  rw [fits.maxAddresses]
  change _ < (setup.policy manager.id).maxAddresses
  change unitsHeld ({ticket} + _ + _) 0 0 manager.id .outcomes + _ ≤ _ at bound
  simp only [unitsHeld_add] at bound
  omega

theorem mismatch_remembered (run : Run Dial.system next more last)
    (ended : .finish thread result ∈ more) :
    ∃ after, result = .managed after (.flag true) ∧
      Punishes ⟨peer, ticket.address⟩
        (add64 (ticket.settledAt nowMs) AddressState.identityMismatchQuarantineMs)
        (ticket.settledAt nowMs) manager.policy after.policy := by
  have succeeds := mismatch_has_room reaches told step own named lasts
  have whole := (reaches.snoc step).append run
  obtain ⟨horizon, toldAll⟩ := Dial.ToldBy.exists ((labels ++ [_]) ++ more)
  have began : .start thread (.manage manager (.recordIdentityMismatch ticket nowMs)) ∈
      (labels ++ [_]) ++ more := List.mem_append_left _ (List.mem_append_right _ List.mem_cons_self)
  obtain ⟨state, -, leaves⟩ := (Dial.contract_kept setup horizon).finished
    start_covers whole toldAll began (List.mem_append_right _ ended)
  cases result <;> try exact leaves.elim
  case managed after reply =>
    obtain ⟨-, mismatched⟩ : Managed setup manager _ after reply state := leaves
    obtain ⟨answer, rfl, decided⟩ := mismatched ticket nowMs rfl
    have outcome := decided own peer named
    rcases recordIdentityMismatch_cases manager.policy peer ticket.address
        (ticket.settledAt nowMs) with ⟨-, punishes⟩ | ⟨fails, -⟩
    · rw [← outcome] at succeeds punishes
      cases succeeds
      exact ⟨after, rfl, punishes⟩
    · rw [succeeds] at fails
      cases fails

end

/-- Every identity mismatch can be remembered, while the manager's revisions last. The tickets
that name a peer and the live quarantines outside the book always fit the table; and a
mismatch recorded for such a ticket, at a time no call before was told a later one, can always
be completed, answers true, quarantines its pair and keeps every other quarantine in force. -/
theorem identity_mismatch_remembered (reaches : Dial.Reaches setup labels config)
    (told : Dial.ToldBy nowMs labels) :
    (∀ id, (config.world id).earlier.length < counterRange →
      (id ∈ setup.managers → (config.world id).managed = true →
        unitsHeld (ticketsOut config) 0 0 id .outcomes +
          (config.world id).current.policy.liveQuarantines nowMs ≤ (setup.policy id).maxAddresses) ∧
      ∀ manager ∈ config.rest.managers, manager.id = id →
        unitsHeld (ticketsOut config) 0 0 id .outcomes + manager.policy.liveQuarantines nowMs ≤
          (setup.policy id).maxAddresses) ∧
    ∀ thread manager ticket peer next, Step Dial.system config
        (.start thread (.manage manager (.recordIdentityMismatch ticket nowMs))) next →
      ticket.manager = manager.id → ticket.peer = some peer →
      (config.world manager.id).earlier.length < counterRange →
      (∃ more last result, Run Dial.system next more last ∧ .finish thread result ∈ more) ∧
      ∀ more last result, Run Dial.system next more last → .finish thread result ∈ more →
        ∃ after, result = .managed after (.flag true) ∧
          after.policy.QuarantinedUntil ⟨peer, ticket.address⟩
            (add64 (ticket.settledAt nowMs) AddressState.identityMismatchQuarantineMs) ∧
          ∀ key untilMs, key ≠ ⟨peer, ticket.address⟩ →
            manager.policy.QuarantinedUntil key untilMs →
            ticket.settledAt nowMs < untilMs → after.policy.QuarantinedUntil key untilMs := by
  refine ⟨fun id lasts => ticketsOut_bounded reaches told lasts, ?_⟩
  intro thread manager ticket peer next step own named lasts
  constructor
  · refine step.completes ?_ World.exec_enabled
    exact ((manager.recordIdentityMismatch_spinless ticket nowMs).bind fun _ => .ret _).bind
      fun _ => .ret _
  · intro more last result run ended
    obtain ⟨after, answered, punishes⟩ :=
      mismatch_remembered reaches told step own named lasts run ended
    exact ⟨after, answered, punishes.punished, punishes.kept⟩

end

open DialSample

@[irreducible]
def DialSample.dialled : List (Label Op Op.Ans Task TaskResult) × Dial.Table :=
  (opening setup).play (entrust trust :: through ++ dial "/ip4/192.0.2.1/tcp/4001" 0 :: through)

theorem identity_mismatch_remembered_sample : ∃ labels config nowMs,
    Dial.Reaches setup labels config ∧ Dial.ToldBy nowMs labels ∧
    ∃ thread more last after untilMs, Run Dial.system config more last ∧
      .finish thread (.managed after (.flag true)) ∈ more ∧
      after.policy.QuarantinedUntil ⟨remote, "/ip4/192.0.2.1/tcp/4001"⟩ untilMs := by
  have reaches : Dial.Reaches setup dialled.1 dialled.2.config := by
    unfold dialled
    exact Dial.Table.play_run (opening setup) _
  obtain ⟨nowMs, told⟩ := Dial.ToldBy.exists dialled.1
  obtain ⟨manager, managers, atRest⟩ :=
    List.exists_cons_of_length_pos (show 0 < dialled.2.managers.length by decide +kernel)
  obtain ⟨ticket, tickets, issued⟩ :=
    List.exists_cons_of_length_pos (show 0 < dialled.2.tickets.length by decide +kernel)
  have named : ∀ manager ∈ dialled.2.managers.head?, manager.id = 0 ∧
      (dialled.2.world manager.id).earlier.length < counterRange := by decide +kernel
  have dials : ∀ ticket ∈ dialled.2.tickets, ticket.manager = 0 ∧ ticket.peer = some remote ∧
      ticket.address = "/ip4/192.0.2.1/tcp/4001" := by decide +kernel
  rw [atRest] at named
  obtain ⟨first, lasts⟩ := named manager rfl
  obtain ⟨own, peer, address⟩ := dials ticket (issued ▸ List.mem_cons_self)
  obtain ⟨next, step⟩ : ∃ next, Step Dial.system dialled.2.config
      (.start dialled.2.next (.manage manager (.recordIdentityMismatch ticket nowMs))) next := by
    have taken := @Dial.Begin.manage dialled.2.world ⟨managers, tickets, dialled.2.slots⟩ manager
      (.recordIdentityMismatch ticket nowMs)
    rw [Dial.Table.config, atRest, issued]
    exact ⟨_, .start taken⟩
  obtain ⟨⟨more, last, result, run, ended⟩, always⟩ :=
    (identity_mismatch_remembered reaches told).2 _ manager ticket remote _ step
      (own.trans first.symm) peer lasts
  obtain ⟨after, rfl, quarantined, -⟩ := always more last result run ended
  rw [address] at quarantined
  exact ⟨_, _, nowMs, reaches, told, _, _, last, after, _, (Run.nil.snoc step).append run,
    List.mem_append_right _ ended, quarantined⟩

namespace DialSample

def mismatch : Dial.Move :=
  .settle (.recordIdentityMismatch · 0) fun _ => ⟨rfl, rfl⟩

def flags (labels : List (Label Op Op.Ans Task TaskResult)) : List (Nat × Bool) :=
  labels.filterMap fun
    | .finish thread (.managed _ (.flag answer)) => some (thread, answer)
    | _ => none

theorem mem_flags (member : (thread, answer) ∈ flags labels) :
    ∃ after, .finish thread (.managed after (.flag answer)) ∈ labels := by
  obtain ⟨label, inLabels, same⟩ := List.mem_filterMap.mp member
  split at same
  · cases same
    exact ⟨_, inLabels⟩
  · cases same

/-- A mismatch is recorded when the revisions have run out, and another address is dialled
through the snapshot from before it. -/
@[irreducible]
def unaware : List (Label Op Op.Ans Task TaskResult) × Dial.Table :=
  (insistent (u64Max - 1)).play (dial "a" 0 :: through ++
    mismatch :: through ++ .admitDial 0 1 (request "b") 0 :: through)

end DialSample

/-- A manager whose revisions have run out issues a ticket through a snapshot that does not
count its quarantine, and cannot remember the mismatch of that ticket. -/
theorem saturated_mismatch_forgotten : ∃ labels config manager, manager ∈ config.rest.managers ∧
    Dial.Reaches setup labels config ∧ Dial.ToldBy 0 labels ∧
    (setup.policy manager.id).maxAddresses <
      unitsHeld (ticketsOut config) 0 0 manager.id .outcomes + manager.policy.liveQuarantines 0 ∧
    ∃ thread ticket more last after, ticket.manager = manager.id ∧ ticket.peer.isSome = true ∧
      Run Dial.system config
        (.start thread (.manage manager (.recordIdentityMismatch ticket 0)) :: more) last ∧
      .finish thread (.managed after (.flag false)) ∈ more := by
  obtain ⟨labels, told, reaches⟩ := insistent_reaches (u64Max - 1)
  have played : Run Dial.system (insistent (u64Max - 1)).config unaware.1 unaware.2.config := by
    unfold unaware
    exact Dial.Table.play_run (insistent (u64Max - 1)) _
  have toldBoth : Dial.ToldBy 0 (labels ++ unaware.1) := by
    have toldPlayed : Dial.ToldBy 0 unaware.1 := Dial.toldBy_iff.mpr (by decide +kernel)
    exact List.forall_mem_append.mpr ⟨told, toldPlayed⟩
  obtain ⟨manager, managers, atRest⟩ :=
    List.exists_cons_of_length_pos (show 0 < unaware.2.managers.length by decide +kernel)
  obtain ⟨ticket, tickets, issued⟩ :=
    List.exists_cons_of_length_pos (show 0 < unaware.2.tickets.length by decide +kernel)
  have full : ∀ manager ∈ unaware.2.managers.head?, manager.id = 0 ∧
      (setup.policy manager.id).maxAddresses <
        unitsHeld (ticketsOut unaware.2.config) 0 0 manager.id .outcomes +
          manager.policy.liveQuarantines 0 := by decide +kernel
  have dials : ∀ ticket ∈ unaware.2.tickets, ticket.manager = 0 ∧ ticket.peer.isSome = true := by
    decide +kernel
  rw [atRest] at full
  obtain ⟨named, crowded⟩ := full manager rfl
  obtain ⟨own, peer⟩ := dials ticket (issued ▸ List.mem_cons_self)
  have run := Dial.Table.play_run unaware.2 (mismatch :: through)
  have forgets : (unaware.2.next, false) ∈ flags (unaware.2.play (mismatch :: through)).1 := by
    decide +kernel
  have moved : unaware.2.move mismatch =
      some ({ unaware.2 with managers := managers, tickets := tickets }.begun
        (.manage manager (.recordIdentityMismatch ticket 0))) := by
    simp only [mismatch, Dial.Table.move, atRest, issued]
  rw [Dial.Table.play_cons moved] at run forgets
  obtain ⟨after, ended⟩ := mem_flags forgets
  have present : manager ∈ unaware.2.managers := atRest ▸ List.mem_cons_self
  exact ⟨_, _, manager, present, reaches.append played, toldBoth, crowded, _,
    ticket, _, _, after, own.trans named.symm, peer, run,
    (List.mem_cons.mp ended).resolve_left (by rintro ⟨⟩)⟩

end InterWeave
