import InterWeave.Runtime.ManagerPrograms

/-!
All calls together keep the account along every run: what is owned by the threads and by
what lies at rest accounts for the shared state of every manager.
-/

namespace InterWeave

open Concurrent Saturating ConnectionPolicy

variable {world : World} {id : ManagerId} {rest : Rest} {changed : World} {op : Op}
    {shared : Shared} {state : Ledger} {own : Multiset Token} {task : Task}
    {after others : Multiset Token}

def Call.right (manager : ConnectionManager) : Call → Right
  | .recordSuccess ticket _ =>
    match ticket.peer with
    | none => .none
    | some peer =>
      if ticket.manager = manager.id then .clears ⟨peer, ticket.address⟩ else .none
  | .recordIdentityMismatch _ nowMs => if nowMs < manager.clockMs then .late else .none
  | _ => .none

structure DialTicket.Sound (horizon : Nat) (ticket : DialTicket) : Prop extends ticket.Whole where
  admitted : ticket.admittedAtMs ≤ horizon

structure Call.Sound (horizon : Nat) (call : Call) : Prop where
  ticket : ∀ ticket ∈ call.ticket, ticket.Sound horizon
  told : ∀ nowMs ∈ call.nowMs, nowMs ≤ horizon

structure Managed (setup : Setup) (manager : ConnectionManager) (call : Call)
    (after : ConnectionManager) (reply : Reply) (state : Ledger) : Prop where
  holding : ConnectionManager.HoldingSlots setup manager.id after reply.slots state
  mismatched : ∀ ticket nowMs, call = .recordIdentityMismatch ticket nowMs →
    ∃ answer, reply = .flag answer ∧
      ConnectionManager.Mismatched manager manager.id ticket nowMs (after, answer)

@[simp]
theorem ticketLedger_zero : ticketLedger 0 = 0 := rfl

@[simp]
theorem slotLedger_zero : slotLedger 0 = 0 := rfl

@[simp]
theorem ticketLedger_cons {ticket : DialTicket} :
    ticketLedger (ticket ::ₘ tickets) =
      owned ticket.manager ticket.tokens + ticketLedger tickets := by
  simp [ticketLedger]

@[simp]
theorem slotLedger_cons {slot : ConnectionSlot} :
    slotLedger (slot ::ₘ slots) = owned slot.manager slot.tokens + slotLedger slots := by
  simp [slotLedger]

@[simp]
theorem ticketLedger_add :
    ticketLedger (left + right) = ticketLedger left + ticketLedger right := by
  simp [ticketLedger]

@[simp]
theorem slotLedger_add : slotLedger (left + right) = slotLedger left + slotLedger right := by
  simp [slotLedger]

def Call.brings (call : Call) : Ledger :=
  ticketLedger call.ticket.toList + slotLedger call.slot.toList

theorem Call.brings_nothing {call : Call} (ticket : call.ticket = none) (slot : call.slot = none) :
    state + call.brings = state := by
  simp [Call.brings, ticket, slot]

theorem Call.brings_ticket {call : Call} {ticket : DialTicket}
    (settles : call.ticket = some ticket) (slot : call.slot = none) :
    state + call.brings = state + owned ticket.manager ticket.tokens := by
  simp [Call.brings, settles, slot, ticketLedger]

namespace ConnectionManager

section

variable {setup : Setup} {horizon : Nat} {manager : ConnectionManager} {call : Call}
  {state : Ledger}

section

variable (other : ∀ ticket nowMs, call ≠ .recordIdentityMismatch ticket nowMs)

include other

theorem replying_follows {α : Type} {prog : Action (ConnectionManager × α)} {reply : α → Reply}
    (noSlots : ∀ answer, (reply answer).slots = 0)
    (follows : Accounts setup horizon (HoldingFirst setup manager.id) prog state) :
    Accounts setup horizon
      (fun answer => Managed setup manager call answer.1 answer.2) (replying reply <$> prog)
      state := by
  refine follows.then ?_
  rintro answer own holding
  refine .ret ⟨⟨own, holding, ?_, ?_⟩, fun ticket nowMs isMismatch =>
    absurd isMismatch (other ticket nowMs)⟩
  · simp [replying, noSlots]
  · simp [replying, noSlots]

theorem done_follows {prog : Action ConnectionManager}
    (follows : Accounts setup horizon (Holding setup manager.id) prog state) :
    Accounts setup horizon
      (fun answer => Managed setup manager call answer.1 answer.2) ((·, .done) <$> prog) state := by
  refine follows.then ?_
  rintro answer own holding
  exact .ret ⟨⟨own, holding, by simp [Reply.slots], by simp [Reply.slots]⟩,
    fun ticket nowMs isMismatch => absurd isMismatch (other ticket nowMs)⟩

theorem slots_follows {α : Type} {prog : Action (ConnectionManager × α)} {reply : α → Reply}
    (follows : Accounts setup horizon (fun answer => HoldingSlots setup manager.id answer.1
      (reply answer.2).slots) prog state) :
    Accounts setup horizon
      (fun answer => Managed setup manager call answer.1 answer.2) (replying reply <$> prog)
      state := by
  refine follows.then ?_
  rintro answer own holding
  exact .ret ⟨holding, fun ticket nowMs isMismatch => absurd isMismatch (other ticket nowMs)⟩

end

theorem steady_follows {told next : ConnectionManager} {reply : Reply} (steady : Steady told next)
    (other : ∀ ticket nowMs, call ≠ .recordIdentityMismatch ticket nowMs)
    (noSlots : reply.slots = 0) (fits : setup.Fits manager.id told) :
    Accounts setup horizon
      (fun answer => Managed setup manager call answer.1 answer.2) (.ret (next, reply))
      (owned manager.id told.tokens) :=
  steady.alone (.ret ⟨⟨_, ⟨steady.fits fits, rfl⟩, by simp [noSlots], by simp [noSlots]⟩,
    fun ticket nowMs isMismatch => absurd isMismatch (other ticket nowMs)⟩)

theorem settledAt_le {ticket : DialTicket} (sound : ticket.Sound horizon) {nowMs : Nat}
    (told : nowMs ≤ horizon) : ticket.settledAt nowMs ≤ horizon := by
  unfold DialTicket.settledAt
  split
  · exact told
  · exact sound.admitted

theorem answer_follows (fits : setup.Fits manager.id manager) (sound : call.Sound horizon) :
    Accounts setup horizon
      (fun answer => Managed setup manager call answer.1 answer.2) (manager.answer call)
      (owned manager.id (manager.licensed (call.right manager)) + call.brings) := by
  obtain ⟨tickets, told⟩ := sound
  cases call with
  | bindLocalPeer localPeer =>
    exact .of_eq (Call.brings_nothing rfl rfl)
      (done_follows (by simp) (bindLocalPeer_follows fits))
  | setTrust trust live =>
    exact .of_eq (Call.brings_nothing rfl rfl)
      (replying_follows (by simp) (fun _ => rfl) (setTrust_follows fits))
  | learnAddress peer address nowMs =>
    exact .of_eq (Call.brings_nothing rfl rfl) (replying_follows (by simp) (fun _ => rfl)
      (observe_alone (told nowMs rfl) (learnAddress_follows fits)))
  | recordSuccess ticket nowMs =>
    have sound := tickets ticket rfl
    refine .of_eq (Call.brings_ticket rfl rfl) (slots_follows (by simp)
      (recordSuccess_follows fits sound.toWhole (settledAt_le sound (told nowMs rfl))
        ?_))
    intro own peer named
    simp [Call.right, own, named]
  | recordFailure ticket nowMs =>
    have sound := tickets ticket rfl
    exact .of_eq (Call.brings_ticket rfl rfl) (replying_follows (by simp) (fun _ => rfl)
      (recordFailure_follows fits sound.toWhole (settledAt_le sound (told nowMs rfl))))
  | recordRelayHopUnreached ticket relay relayCameUp nowMs =>
    have sound := tickets ticket rfl
    exact .of_eq (Call.brings_ticket rfl rfl) (replying_follows (by simp) (fun _ => rfl)
      (recordRelayHopUnreached_follows fits sound.toWhole
        (settledAt_le sound (told nowMs rfl))))
  | relayReached relay nowMs =>
    exact .of_eq (Call.brings_nothing rfl rfl) (observe_alone (told nowMs rfl)
      (steady_follows relayReached_steady (by simp) rfl
        (observe_fits fits nowMs)))
  | recordAddressFailureUnadmitted peer address nowMs =>
    exact .of_eq (Call.brings_nothing rfl rfl) (done_follows (by simp)
      (recordAddressFailureUnadmitted_follows fits (told nowMs rfl)))
  | recordPermanentAddressFailureUnadmitted peer address =>
    exact .of_eq (Call.brings_nothing rfl rfl) (done_follows (by simp)
      (recordPermanentAddressFailureUnadmitted_follows fits))
  | recordPermanentFailure ticket nowMs =>
    have sound := tickets ticket rfl
    exact .of_eq (Call.brings_ticket rfl rfl) (done_follows (by simp)
      (recordPermanentFailure_follows fits sound.toWhole (settledAt_le sound (told nowMs rfl))))
  | recordAuthorizationWithdrawn ticket nowMs | recordLocallyRefused ticket nowMs =>
    exact .of_eq (Call.brings_ticket rfl rfl) (done_follows (by simp)
      (recordAbandoned_follows fits (tickets ticket rfl).toWhole (told nowMs rfl)))
  | recordIdentityMismatch ticket nowMs =>
    have sound := tickets ticket rfl
    have onTime : manager.clockMs ≤ nowMs ∨
        (Call.recordIdentityMismatch ticket nowMs).right manager = .late := by
      simp only [Call.right]
      split
      · exact .inr rfl
      · exact .inl (by omega)
    refine .of_eq (Call.brings_ticket rfl rfl) ((recordIdentityMismatch_follows fits
      sound.toWhole (settledAt_le sound (told nowMs rfl)) onTime).then ?_)
    rintro ⟨after, answer⟩ state ⟨holding, mismatched⟩
    refine .ret ⟨⟨_, holding, by simp [replying, Reply.slots], by simp [replying, Reply.slots]⟩, ?_⟩
    intro other otherMs same
    cases same
    exact ⟨answer, rfl, mismatched⟩
  | admitInbound =>
    exact .of_eq (Call.brings_nothing rfl rfl)
      (slots_follows (by simp) (admitInbound_follows fits))
  | recordInboundRetained peer nowMs =>
    exact .of_eq (Call.brings_nothing rfl rfl) (replying_follows (by simp) (fun _ => rfl)
      (recordInboundRetained_follows fits (told nowMs rfl)))
  | networkAdded nowMs =>
    exact .of_eq (Call.brings_nothing rfl rfl) (replying_follows (by simp) (fun _ => rfl)
      (networkAdded_follows fits (told nowMs rfl)))
  | recordConnectionClosed slot =>
    refine .of_eq ?_ (done_follows (by simp) (recordConnectionClosed_follows fits))
    change owned manager.id manager.tokens + Call.brings (.recordConnectionClosed slot) = _
    simp [Call.brings, Call.ticket, Call.slot, slotLedger]
  | beginShutdown =>
    exact .of_eq (Call.brings_nothing rfl rfl)
      (done_follows (by simp) (beginShutdown_follows fits))
  | takeDueRetries nowMs limit =>
    exact .of_eq (Call.brings_nothing rfl rfl) (observe_alone (told nowMs rfl)
      (steady_follows takeDueRetries_steady (by simp) rfl
        (observe_fits fits nowMs)))
  | clearRetryClaim peer =>
    have steady := (clearRetryClaim_aside manager peer).steady
    exact .of_eq (Call.brings_nothing rfl rfl) (steady_follows steady (by simp) rfl fits)
  | reclaimRetry peer =>
    have steady := (changeRetry_aside manager peer fun entry =>
      { entry with claimed := true }).steady
    exact .of_eq (Call.brings_nothing rfl rfl) (steady_follows steady (by simp) rfl fits)
  | releaseRetryClaim peer =>
    have steady := (releaseRetryClaim_aside manager peer).steady
    exact .of_eq (Call.brings_nothing rfl rfl) (steady_follows steady (by simp) rfl fits)
  | setMaxAddressesPerPeer limit =>
    have steady : Steady manager (manager.setMaxAddressesPerPeer limit) := .intro _ _ _ _ _ .refl
    exact .of_eq (Call.brings_nothing rfl rfl) (steady_follows steady (by simp) rfl fits)
  | drainNotes =>
    have steady : Steady manager manager.drainNotes.1 := .intro _ _ _ _ _ .refl
    exact .of_eq (Call.brings_nothing rfl rfl) (steady_follows steady (by simp) rfl fits)

end

end ConnectionManager

def Clocked (horizon : Nat) (tokens : Multiset Token) : Prop :=
  ∀ view, .authority view ∈ tokens → view.clockMs ≤ horizon

def Ruled (setup : Setup) (id : ManagerId) (shared : Shared) (tokens : Multiset Token) : Prop :=
  id ∈ setup.managers → shared.managed = true → ∃ view, .authority view ∈ tokens

def Accounted (setup : Setup) (horizon : Nat) (world : World) (ledger : Ledger) : Prop :=
  ∀ id, Account setup id (world id) (ledger id) ∧ Clocked horizon (ledger id) ∧
    Ruled setup id (world id) (ledger id)

def managerLedger (managers : Multiset ConnectionManager) : Ledger :=
  (managers.map fun manager => owned manager.id manager.tokens).sum

@[simp]
theorem managerLedger_cons :
    managerLedger (manager ::ₘ managers) =
      owned manager.id manager.tokens + managerLedger managers := by
  simp [managerLedger]

def Rest.ledger (rest : Rest) : Ledger :=
  managerLedger rest.managers + (ticketLedger rest.tickets + slotLedger rest.slots)

theorem Rest.authority {manager : ConnectionManager} (member : manager ∈ rest.managers) :
    .authority (manager.view none) ∈ rest.ledger manager.id := by
  obtain ⟨others, isCons⟩ := Multiset.exists_cons_of_mem member
  rw [Rest.ledger, isCons, managerLedger_cons]
  simp [owned, ConnectionManager.tokens, ConnectionManager.tokensWith]

structure Rest.Sound (setup : Setup) (horizon : Nat) (rest : Rest) : Prop where
  managers : ∀ manager ∈ rest.managers, setup.Fits manager.id manager
  tickets : ∀ ticket ∈ rest.tickets, ticket.Sound horizon
  slots : ∀ slot ∈ rest.slots, slot.released = false

namespace Task

def Sound (setup : Setup) (horizon : Nat) : Task → Prop
  | .admitDial snapshot _ nowMs => setup.Made snapshot.manager snapshot ∧ nowMs ≤ horizon
  | .handleAdmit _ _ nowMs => nowMs ≤ horizon
  | .dropTicket ticket | .rebindAddress ticket _ => ticket.Sound horizon
  | .dropSlot slot => slot.released = false
  | .manage manager call => setup.Fits manager.id manager ∧ call.Sound horizon
  | .dropManager manager => setup.Fits manager.id manager

def brings : Task → Ledger
  | .admitDial snapshot _ _ => owned snapshot.manager {.held snapshot}
  | .handleAdmit _ _ _ => 0
  | .dropTicket ticket | .rebindAddress ticket _ => owned ticket.manager ticket.tokens
  | .dropSlot slot => owned slot.manager slot.tokens
  | .manage manager call =>
    owned manager.id (manager.licensed (call.right manager)) + call.brings
  | .dropManager manager => owned manager.id manager.tokens

def Leaves (setup : Setup) : Task → TaskResult → Ledger → Prop
  | .admitDial snapshot _ nowMs, .admitted answer, state =>
    Admitted snapshot.manager nowMs answer state
  | .handleAdmit manager _ nowMs, .admitted answer, state => Admitted manager nowMs answer state
  | .dropTicket _, .dropped, state | .dropSlot _, .dropped, state
  | .dropManager _, .dropped, state => state = 0
  | .rebindAddress ticket address, .rebound after _, state =>
    after = (ticket.rebindAddress address).1 ∧ state = owned ticket.manager ticket.tokens
  | .manage manager call, .managed after reply, state =>
    Managed setup manager call after reply state
  | _, _, _ => False

def nowMs : Task → Option Nat
  | .admitDial _ _ nowMs | .handleAdmit _ _ nowMs => some nowMs
  | .manage _ call => call.nowMs
  | _ => none

end Task

open Dial

def Dial.contract (setup : Setup) (horizon : Nat) :
    Contract Op Op.Ans World Rest Task TaskResult Ledger where
  protocol := protocol setup horizon
  inv := Accounted setup horizon
  sound := Rest.Sound setup horizon
  owns := Rest.ledger
  fits := Task.Sound setup horizon
  brings := Task.brings
  leaves := Task.Leaves setup

section

variable {setup : Setup} {horizon : Nat}

theorem body_follows (task : Task) (sound : task.Sound setup horizon) :
    Accounts setup horizon (task.Leaves setup) (body task) task.brings := by
  cases task with
  | admitDial snapshot request nowMs =>
    refine (admit_follows sound.1 request nowMs).then ?_
    intro answer state held
    exact .ret held
  | handleAdmit manager request nowMs =>
    refine (handleAdmit_follows manager request nowMs).then ?_
    intro answer state held
    exact .ret held
  | dropTicket ticket =>
    refine (ticket.drop_follows (issued_outcome ticket.admittedAtMs)).then ?_
    intro _ state held
    exact .ret held
  | dropSlot slot =>
    refine slot.drop_follows.then ?_
    intro _ state held
    exact .ret held
  | rebindAddress ticket address => exact .ret ⟨rfl, rfl⟩
  | manage manager call =>
    refine (ConnectionManager.answer_follows sound.1 sound.2).then ?_
    intro answer state held
    exact .ret held
  | dropManager manager =>
    have alone : Task.brings (.dropManager manager) =
        owned manager.id {.authority (manager.view none)} + 0 := by
      simp [Task.brings, ConnectionManager.tokens, ConnectionManager.tokensWith, sound.returned]
    exact .of_eq alone (follows_trade fun _ _ => ⟨0, .dropManager, .ret (by simp [Task.Leaves])⟩)

theorem Clocked.of_subset (clocked : Clocked horizon tokens)
    (subset : ∀ view, .authority view ∈ fewer → .authority view ∈ tokens) : Clocked horizon fewer :=
  fun view member => clocked view (subset view member)

open Token

theorem Clocked.quiet (clocked : Clocked horizon (own + others)) (quiet : Quiet horizon own after) :
    Clocked horizon (after + others) := by
  have limit : ∀ {view next : Authority}, .authority view ∈ own →
      next.clockMs ≤ max view.clockMs horizon → next.clockMs ≤ horizon := by
    intro view next member told
    exact told.trans (max_le (clocked view (Multiset.mem_add.mpr (.inl member))) le_rfl)
  cases quiet with
  | forget _ => exact clocked.of_subset (by simp +contextual)
  | settle => exact clocked.of_subset (by simp)
  | evolve _ _ _ told _ _ _ =>
    intro other member
    simp only [Multiset.singleton_add, Multiset.mem_cons, authority.injEq] at member
    rcases member with rfl | kept
    · exact limit (by simp) told
    · exact clocked other (by simp [kept])
  | mismatch _ _ _ _ told _ _ _ _ _ =>
    intro other member
    simp only [Multiset.insert_eq_cons, Multiset.cons_add, Multiset.singleton_add,
      Multiset.mem_cons, authority.injEq, reduceCtorEq, false_or] at member
    rcases member with rfl | kept
    · exact limit (by simp) told
    · exact clocked other (by simp [kept])

theorem Clocked.trade (clocked : Clocked horizon (own + others))
    (trade : Trade setup op ans own after) : Clocked horizon (after + others) := by
  cases trade with
  | @publish _ view _ _ _ _ _ _ _ =>
    intro other member
    simp only [Multiset.cons_add, Multiset.mem_cons, Multiset.mem_add, Multiset.mem_replicate,
      authority.injEq, reduceCtorEq, and_false, false_or] at member
    rcases member with rfl | kept
    · exact clocked view (by simp)
    · exact clocked other (by simp [kept])
  | @handOver _ view _ _ _ _ _ _ _ =>
    intro other member
    simp only [Multiset.insert_eq_cons, Multiset.cons_add, Multiset.mem_cons,
      Multiset.singleton_add, authority.injEq, reduceCtorEq, false_or] at member
    rcases member with rfl | kept
    · exact clocked view (by simp)
    · exact clocked other (by simp [kept])
  | _ => exact clocked.of_subset (by simp +contextual)

theorem Ruled.of_subset (ruled : Ruled setup id shared fewer)
    (subset : ∀ view, .authority view ∈ fewer → ∃ next, .authority next ∈ tokens) :
    Ruled setup id shared tokens := by
  intro known managed
  obtain ⟨view, member⟩ := ruled known managed
  exact subset view member

theorem mem_of_ruleless (ruleless : total rule own = 0)
    (member : .authority view ∈ own + others) : .authority view ∈ others := by
  rcases Multiset.mem_add.mp member with here | elsewhere
  · obtain ⟨rest, rfl⟩ := Multiset.exists_cons_of_mem here
    simp [rule] at ruleless
  · exact elsewhere

theorem Ruled.quiet (ruled : Ruled setup id shared (own + others))
    (quiet : Quiet horizon own after) : Ruled setup id shared (after + others) := by
  cases quiet with
  | forget idle =>
    exact ruled.of_subset fun view member =>
      ⟨view, by simpa using mem_of_ruleless idle.ruleless member⟩
  | settle => exact ruled.of_subset fun view member => ⟨view, by simpa using member⟩
  | @evolve _ next _ _ _ _ _ _ _ _ => exact ruled.of_subset fun _ _ => ⟨next, by simp⟩
  | @mismatch _ next _ _ _ _ _ _ _ _ _ _ _ _ _ =>
    exact ruled.of_subset fun _ _ => ⟨next, by simp⟩

theorem Ruled.trade {changed : Shared} (ruled : Ruled setup id shared (own + others))
    (trade : Trade setup op ans own after) (executed : shared.Exec op ans changed) :
    Ruled setup id changed (after + others) := by
  have still : changed.managed = true → shared.managed = true := by
    cases executed <;> exact fun managed => by first | exact managed | cases managed
  intro known managed
  obtain ⟨view, member⟩ := ruled known (still managed)
  cases trade with
  | dropManager => cases executed; cases managed
  | publish | handOver => exact ⟨_, Multiset.mem_add.mpr (.inl (Multiset.mem_cons_self _ _))⟩
  | release _ _ ruleless => exact ⟨view, by simpa using mem_of_ruleless ruleless member⟩
  | _ => exact ⟨view, by simpa using member⟩

theorem owned_self : owned id tokens id = tokens := by
  simp [owned]

theorem owned_other (apart : other ≠ id) : owned id tokens other = 0 := by
  simp [owned, apart]

theorem Accounted.change {others : Ledger}
    (accounted : Accounted setup horizon world (owned id own + others))
    (elsewhere : ∀ other, other ≠ id → changed other = world other)
    (here : Account setup id (world id) (own + others id) →
      Account setup id (changed id) (after + others id))
    (clocks : Clocked horizon (own + others id) → Clocked horizon (after + others id))
    (rules : Ruled setup id (world id) (own + others id) →
      Ruled setup id (changed id) (after + others id)) :
    Accounted setup horizon changed (owned id after + others) := by
  intro other
  by_cases same : other = id
  · subst same
    have before := accounted other
    simp only [Pi.add_apply, owned_self] at before ⊢
    exact ⟨here before.1, clocks before.2.1, rules before.2.2⟩
  · have before := accounted other
    simp only [Pi.add_apply, owned_other same] at before ⊢
    rw [elsewhere other same]
    exact before

theorem Accounted.silent {own after others : Ledger}
    (accounted : Accounted setup horizon world (own + others))
    (quiet : (protocol setup horizon).silent own after) :
    Accounted setup horizon world (after + others) := by
  induction quiet with
  | refl => exact accounted
  | tail _ step ih =>
    obtain ⟨id, mine, given, spare, quiet, rfl, rfl⟩ := step
    rw [add_assoc] at ih ⊢
    exact ih.change (fun _ _ => rfl) (·.quiet quiet) (·.quiet quiet) (·.quiet quiet)

theorem Accounted.exec {own after others : Ledger}
    (accounted : Accounted setup horizon world (own + others))
    (move : (protocol setup horizon).move own op ans after)
    (executed : world.Exec op ans changed) : Accounted setup horizon changed (after + others) := by
  obtain ⟨mine, given, spare, trade, rfl, rfl⟩ := move
  obtain ⟨shared, executed, rfl⟩ := executed
  rw [add_assoc] at accounted ⊢
  refine accounted.change (fun other apart => by simp [apart]) (fun account => ?_) (·.trade trade)
    (fun ruled => ?_)
  · rw [Function.update_self]
    exact account.trade trade executed
  · rw [Function.update_self]
    exact ruled.trade trade executed

theorem Accounted.possible (accounted : Accounted setup horizon world ledger)
    (executed : world.Exec op ans changed) :
    possible setup op ans := by
  obtain ⟨shared, executed, -⟩ := executed
  cases executed with
  | @readPublished manager =>
    exact (accounted manager).1.made _ List.mem_cons_self
  | _ => trivial

theorem Accounted.license {manager : ConnectionManager} (right : Right)
    (accounted : Accounted setup horizon world (owned manager.id manager.tokens + ledger)) :
    Accounted setup horizon world (owned manager.id (manager.licensed right) + ledger) := by
  rw [ConnectionManager.licensed, owned_cons, add_assoc]
  rw [ConnectionManager.tokens, ConnectionManager.tokensWith_owned, add_assoc] at accounted
  refine accounted.change (fun _ _ => rfl)
    (·.evolve rfl rfl le_rfl (@ConnectionPolicy.Gentle.refl noPair _ _ _)) (fun clocked => ?_)
    (·.of_subset fun _ _ => ⟨_, Multiset.mem_add.mpr (.inl (Multiset.mem_singleton_self _))⟩)
  intro view member
  rcases Multiset.mem_add.mp member with here | elsewhere
  · cases Multiset.mem_singleton.mp here
    exact clocked (manager.view none) (by simp)
  · exact clocked view (Multiset.mem_add.mpr (.inr elsewhere))

theorem Accounted.hold (accounted : Accounted setup horizon world ledger)
    (installed : snapshot ∈ (world snapshot.manager).installed) :
    Accounted setup horizon world (owned snapshot.manager {.held snapshot} + ledger) := by
  have start : Accounted setup horizon world (owned snapshot.manager 0 + ledger) := by
    rwa [owned_zero, zero_add]
  exact start.change (fun _ _ => rfl) (·.hold installed) (·.of_subset (by simp))
    (·.of_subset fun view member => ⟨view, by simpa using member⟩)

theorem begin_ledger {others : Ledger} (begun : Dial.Begin world rest task left)
    (accounted : Accounted setup horizon world (rest.ledger + others)) :
    Accounted setup horizon world (left.ledger + (task.brings + others)) := by
  cases begun with
  | admitDial held =>
    rw [Task.brings, add_left_comm]
    exact accounted.hold held
  | handleAdmit => simpa [Task.brings] using accounted
  | dropTicket | rebindAddress =>
    convert accounted using 1
    simp only [Rest.ledger, Task.brings, ticketLedger_cons]
    abel
  | dropSlot =>
    convert accounted using 1
    simp only [Rest.ledger, Task.brings, slotLedger_cons]
    abel
  | @manage _ manager call =>
    have taken : Rest.ledger ⟨manager ::ₘ left.managers, call.ticket.toList + left.tickets,
        call.slot.toList + left.slots⟩ + others = owned manager.id manager.tokens +
          (left.ledger + (call.brings + others)) := by
      simp only [Rest.ledger, Call.brings, managerLedger_cons, ticketLedger_add, slotLedger_add]
      abel
    rw [taken] at accounted
    convert accounted.license (call.right manager) using 1
    rw [Task.brings]
    abel
  | dropManager =>
    convert accounted using 1
    simp only [Rest.ledger, Task.brings, managerLedger_cons]
    abel

theorem begin_sound (sound : rest.Sound setup horizon)
    (told : ∀ nowMs ∈ task.nowMs, nowMs ≤ horizon) (begun : Dial.Begin world rest task left)
    (accounted : Accounted setup horizon world ledger) :
    left.Sound setup horizon ∧ task.Sound setup horizon := by
  obtain ⟨managers, tickets, slots⟩ := sound
  cases begun with
  | @admitDial _ snapshot _ nowMs held =>
    exact ⟨⟨managers, tickets, slots⟩, (accounted snapshot.manager).1.made snapshot held,
      told nowMs rfl⟩
  | @handleAdmit _ _ _ nowMs => exact ⟨⟨managers, tickets, slots⟩, told nowMs rfl⟩
  | dropTicket | rebindAddress =>
    exact ⟨⟨managers, fun _ member => tickets _ (Multiset.mem_cons_of_mem member), slots⟩,
      tickets _ (Multiset.mem_cons_self _ _)⟩
  | dropSlot =>
    exact ⟨⟨managers, tickets, fun _ member => slots _ (Multiset.mem_cons_of_mem member)⟩,
      slots _ (Multiset.mem_cons_self _ _)⟩
  | manage =>
    refine ⟨⟨fun _ member => managers _ (Multiset.mem_cons_of_mem member),
      fun _ member => tickets _ (Multiset.mem_add.mpr (.inr member)),
      fun _ member => slots _ (Multiset.mem_add.mpr (.inr member))⟩,
      managers _ (Multiset.mem_cons_self _ _), ⟨fun ticket settled => ?_, told⟩⟩
    exact tickets ticket (Multiset.mem_add.mpr (.inl (by simpa using settled)))
  | dropManager =>
    exact ⟨⟨fun _ member => managers _ (Multiset.mem_cons_of_mem member), tickets, slots⟩,
      managers _ (Multiset.mem_cons_self _ _)⟩

theorem rebindAddress_keeps {ticket : DialTicket} {address : String} :
    ∃ same, (ticket.rebindAddress address).1 = { ticket with address := same } := by
  unfold DialTicket.rebindAddress
  split
  · exact ⟨ticket.address, rfl⟩
  · exact ⟨address, rfl⟩

theorem putBack_ledger (sound : rest.Sound setup horizon) (taskSound : task.Sound setup horizon)
    (leaves : task.Leaves setup result state) :
    (putBack rest result).Sound setup horizon ∧
      (putBack rest result).ledger = rest.ledger + state := by
  obtain ⟨managers, tickets, slots⟩ := sound
  have admitted : ∀ {id : ManagerId} {nowMs : Nat} {answer : Except DialDenial DialTicket},
      nowMs ≤ horizon → Admitted id nowMs answer state →
      (putBack rest (.admitted answer)).Sound setup horizon ∧
        (putBack rest (.admitted answer)).ledger = rest.ledger + state := by
    rintro id nowMs (denial | ticket) told held
    · obtain rfl : state = 0 := held
      exact ⟨⟨managers, tickets, slots⟩, (add_zero _).symm⟩
    · obtain ⟨whole, -, rfl, rfl⟩ := held
      refine ⟨⟨managers, fun other member => ?_, slots⟩, ?_⟩
      · rcases Multiset.mem_cons.mp member with rfl | older
        · exact ⟨whole, told⟩
        · exact tickets other older
      · simp only [Rest.ledger, putBack, ticketLedger_cons]
        abel
  cases task <;> cases result <;> try exact leaves.elim
  case admitDial.admitted => exact admitted taskSound.2 leaves
  case handleAdmit.admitted => exact admitted taskSound leaves
  case rebindAddress.rebound ticket address after changed =>
    obtain ⟨rfl, rfl⟩ := leaves
    obtain ⟨same, rebound⟩ := rebindAddress_keeps
    rw [rebound]
    refine ⟨⟨managers, fun other member => ?_, slots⟩, ?_⟩
    · rcases Multiset.mem_cons.mp member with rfl | older
      · exact ⟨⟨taskSound.settled, taskSound.connectionKept, taskSound.outcomeReserved⟩,
          taskSound.admitted⟩
      · exact tickets other older
    · simp only [Rest.ledger, putBack, ticketLedger_cons]
      rw [show DialTicket.tokens { ticket with address := same } = ticket.tokens from rfl]
      abel
  case manage.managed =>
    obtain ⟨⟨own, ⟨fits, rfl⟩, live, rfl⟩, -⟩ := leaves
    refine ⟨⟨fun other member => ?_, tickets, fun slot member => ?_⟩, ?_⟩
    · rcases Multiset.mem_cons.mp member with rfl | older
      · exact fits.named.symm ▸ fits
      · exact managers other older
    · exact (Multiset.mem_add.mp member).elim (live slot) (slots slot)
    · simp only [Rest.ledger, putBack, managerLedger_cons, slotLedger_add, fits.named]
      abel
  all_goals
    obtain rfl : state = 0 := leaves
    exact ⟨⟨managers, tickets, slots⟩, (add_zero _).symm⟩

def Task.Within (horizon : Nat) (task : Task) : Prop :=
  ∀ nowMs ∈ task.nowMs, nowMs ≤ horizon

theorem Dial.contract_kept (setup : Setup) (horizon : Nat) :
    (contract setup horizon).Kept system (Task.Within horizon) where
  body := body_follows
  possible := Accounted.possible
  exec := Accounted.exec
  silent := Accounted.silent
  start := by
    intro world rest task left others sound told begun accounted
    obtain ⟨soundLeft, taskSound⟩ := begin_sound sound told begun accounted
    exact ⟨soundLeft, taskSound, begin_ledger begun accounted⟩
  finish := by
    intro world rest task result own others sound taskSound leaves accounted
    obtain ⟨soundAfter, same⟩ := putBack_ledger sound taskSound leaves
    refine ⟨soundAfter, ?_⟩
    change Accounted setup horizon world ((putBack rest result).ledger + others)
    rw [same, add_assoc]
    exact accounted

theorem start_account (setup : Setup) (id : ManagerId) :
    Account setup id (setup.shared id) (setup.manager id).tokens := by
  obtain ⟨addresses, -, peers⟩ := setup.fresh id
  have outside : (setup.policy id).outsideEntries = [] := by
    simp [outsideEntries, addresses]
  have bounded : (setup.policy id).Bounded :=
    ⟨by simp [outside], by simp [peers]⟩
  have none : ∀ key untilMs, ¬(setup.policy id).QuarantinedUntil key untilMs := by
    rintro key untilMs ⟨state, found, -⟩
    simp [addresses] at found
  refine ⟨?_, fun _ => Nat.zero_le _, ⟨rfl, trivial⟩, ?_, ?_, ?_, ?_, ?_⟩
  · rintro ⟨⟩ <;> rfl
  · intro snapshot member
    cases List.mem_singleton.mp member
    exact ⟨rfl, rfl, rfl, rfl, bounded⟩
  · intro snapshot member
    cases Multiset.mem_singleton.mp member
  · intro revision atMs member
    cases Multiset.mem_singleton.mp member
  · exact le_rfl
  · intro view member
    cases Multiset.mem_singleton.mp member
    refine ⟨rfl, rfl, bounded, fun key untilMs held => absurd held (none key untilMs),
      fun key untilMs held => absurd held (none key untilMs), fun _ nowMs _ => ?_⟩
    have quiet : (setup.policy id).liveQuarantines nowMs = 0 := by
      simp [liveQuarantines, outside]
    refine ⟨?_, ?_, ?_⟩
    · change 0 + (setup.policy id).liveQuarantines nowMs ≤ _
      simp [quiet]
    · change 0 + (setup.policy id).liveQuarantines nowMs ≤ _
      simp [quiet]
    · exact Nat.le_add_right _ _

theorem start_ledger :
    setup.start.rest.ledger id = if id ∈ setup.managers then (setup.manager id).tokens else 0 := by
  have listed : setup.start.rest.ledger =
      ∑ other ∈ setup.managers, owned other (setup.manager other).tokens := by
    simp [Rest.ledger, Setup.start, managerLedger, Setup.manager, ConnectionManager.new]
  rw [listed, Finset.sum_apply]
  exact Finset.sum_pi_single id (fun other => (setup.manager other).tokens) setup.managers

theorem start_covers : (contract setup horizon).Covers setup.start := by
  refine ⟨⟨fun manager member => ?_, by simp [Setup.start], by simp [Setup.start]⟩, [], rfl,
    by simp, fun id => ?_⟩
  · obtain ⟨id, -, rfl⟩ := Multiset.mem_map.mp member
    exact ⟨⟨rfl, rfl, rfl, rfl⟩, rfl⟩
  · have full := start_account setup id
    change Account setup id (setup.shared id) ((setup.start.rest.ledger + 0) id) ∧
      Clocked horizon ((setup.start.rest.ledger + 0) id) ∧
      Ruled setup id (setup.shared id) ((setup.start.rest.ledger + 0) id)
    rw [add_zero, start_ledger]
    split
    next =>
      refine ⟨full, fun view member => ?_, fun _ _ => ⟨_, Multiset.mem_singleton_self _⟩⟩
      cases Multiset.mem_singleton.mp member
      exact Nat.zero_le horizon
    next unknown =>
      have start : Account setup id (setup.shared id) ((setup.manager id).tokens + 0) := by
        rwa [add_zero]
      exact ⟨start.forget (by rintro ⟨⟩ <;> rfl), fun view member => (nomatch member),
        fun known => absurd known unknown⟩

def Dial.ToldBy (nowMs : Nat) (labels : List (Label Op Op.Ans Task TaskResult)) : Prop :=
  ∀ label ∈ labels, label.Permitted (Task.Within nowMs)

def Dial.times (labels : List (Label Op Op.Ans Task TaskResult)) : List Nat :=
  labels.filterMap fun
    | .start _ task => task.nowMs
    | _ => none

theorem Dial.toldBy_iff : Dial.ToldBy nowMs labels ↔ ∀ told ∈ Dial.times labels, told ≤ nowMs := by
  constructor
  · intro toldBy told member
    obtain ⟨label, inLabels, isTold⟩ := List.mem_filterMap.mp member
    cases label with
    | start thread task => exact toldBy _ inLabels told isTold
    | act | finish => cases isTold
  · intro bounded label member
    cases label with
    | start thread task =>
      intro told isTold
      exact bounded told (List.mem_filterMap.mpr ⟨_, member, isTold⟩)
    | act | finish => trivial

theorem Dial.Reaches.covers (reaches : Dial.Reaches setup labels config)
    (told : Dial.ToldBy horizon labels) : (contract setup horizon).Covers config :=
  (contract_kept setup horizon).run start_covers reaches told

theorem Dial.ToldBy.exists (labels : List (Label Op Op.Ans Task TaskResult)) :
    ∃ nowMs, Dial.ToldBy nowMs labels := by
  induction labels with
  | nil => exact ⟨0, by simp [Dial.ToldBy]⟩
  | cons label rest ih =>
    obtain ⟨nowMs, told⟩ := ih
    have later : ∀ {other}, nowMs ≤ other → Dial.ToldBy other rest := by
      intro other order entry member
      have permitted := told entry member
      cases entry with
      | start id task => exact fun atMs isTold => (permitted atMs isTold).trans order
      | act | finish => trivial
    cases label with
    | start id task =>
      refine ⟨max nowMs (task.nowMs.getD 0), fun entry member => ?_⟩
      rcases List.mem_cons.mp member with rfl | older
      · intro atMs isTold
        simp [Option.mem_def.mp isTold]
      · exact later (le_max_left _ _) entry older
    | act | finish => exact ⟨nowMs, List.forall_mem_cons.mpr ⟨trivial, told⟩⟩

end

end InterWeave
