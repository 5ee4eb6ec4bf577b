import InterWeave.Runtime.DialContract
import InterWeave.Runtime.DialPlay

/-!
The dial counters are exact. Each operation moves them by a whole number that the tokens
move by as well, so what a thread still owes and what lies at rest add up to every counter.
-/

namespace InterWeave

open Concurrent

variable {state : Ledger} {labels : List (Label Op Op.Ans Task TaskResult)} {after : Ledger}
    {config : Config Op Op.Ans World Rest Task TaskResult} {task : Task} {op : Op}
    {events : List (Event Op Op.Ans)} {ticket : DialTicket} {thread : Nat} (id : ManagerId)
    (counter : Counter)

def Op.delta (id : ManagerId) (counter : Counter) : (op : Op) → op.Ans → Int
  | .compareExchangeWeak manager word current new, .ok () =>
    if manager = id ∧ word = counter then (new : Int) - current else 0
  | .fetchSub manager word amount, _ =>
    if manager = id ∧ word = counter then -(amount : Int) else 0
  | _, _ => 0

def netDelta (id : ManagerId) (counter : Counter) (events : List (Event Op Op.Ans)) : Int :=
  (events.map fun event => event.op.delta id counter event.ans).sum

def Ledger.units (ledger : Ledger) (id : ManagerId) (counter : Counter) : Nat :=
  total (Token.weight counter) (ledger id)

section

variable {setup : Setup} {horizon : Nat}

theorem units_add {left right : Ledger} (id : ManagerId) (counter : Counter) :
    (left + right).units id counter = left.units id counter + right.units id counter := by
  simp [Ledger.units]

theorem units_owned (counter : Counter) :
    (owned id tokens).units other counter =
      if id = other then total (Token.weight counter) tokens else 0 := by
  unfold Ledger.units
  split
  next same => rw [same, owned_self]
  next apart => rw [owned_other (Ne.symm apart), total_zero]

theorem Quiet.weight {own after : Multiset Token} (quiet : Quiet horizon own after)
    (counter : Counter) :
    total (Token.weight counter) after = total (Token.weight counter) own := by
  cases quiet with
  | forget idle => rw [idle.weightless, total_zero]
  | settle => cases counter <;> rfl
  | evolve | mismatch => cases counter <;> simp [Token.weight]

theorem Op.delta_other {id : ManagerId} (apart : op.manager ≠ id) :
    op.delta id counter ans = 0 := by
  cases op
  case compareExchangeWeak manager word current new =>
    cases ans
    · rfl
    · simp only [Op.manager] at apart
      simp [Op.delta, apart]
  case fetchSub manager word amount =>
    simp only [Op.manager] at apart
    simp [Op.delta, apart]
  all_goals rfl

theorem Trade.weight {own after : Multiset Token} (trade : Trade setup op ans own after)
    (counter : Counter) :
    (total (Token.weight counter) after : Int) =
      total (Token.weight counter) own + op.delta op.manager counter ans := by
  cases trade with
  | @release _ word amount _ units _ _ =>
    rw [units, total_zero]
    simp only [Op.delta, Op.manager, true_and, eq_comm]
    split <;> omega
  | _ => cases counter <;> simp [Token.weight, Op.delta, Op.manager]

theorem silent_units (quiet : (Dial.protocol setup horizon).silent state after) (id : ManagerId)
    (counter : Counter) : after.units id counter = state.units id counter := by
  induction quiet with
  | refl => rfl
  | tail _ step ih =>
    obtain ⟨other, own, given, spare, quiet, rfl, rfl⟩ := step
    rw [← ih, units_add, units_add, units_owned, units_owned, quiet.weight]

theorem move_units {ans : op.Ans} (move : (Dial.protocol setup horizon).move state op ans after)
    (id : ManagerId) (counter : Counter) :
    (after.units id counter : Int) = state.units id counter + op.delta id counter ans := by
  obtain ⟨own, given, spare, trade, rfl, rfl⟩ := move
  simp only [units_add, units_owned]
  split
  next same =>
    subst same
    have balance := trade.weight counter
    push_cast
    omega
  next apart =>
    rw [Op.delta_other counter apart]
    simp

theorem develops_units (develops : (Dial.protocol setup horizon).Develops state events after)
    (id : ManagerId) (counter : Counter) :
    (after.units id counter : Int) = state.units id counter + netDelta id counter events := by
  induction develops with
  | nil quiet => simp [netDelta, silent_units quiet id counter]
  | cons quiet moved _ ih =>
    have before := silent_units quiet id counter
    have during := move_units moved id counter
    simp only [netDelta, List.map_cons, List.sum_cons] at ih ⊢
    omega

theorem step_delta {after : Config Op Op.Ans World Rest Task TaskResult}
    (reaches : Dial.Reaches setup labels config) {event : Event Op Op.Ans}
    (step : Step Dial.system config (.act thread event) after) (id : ManagerId)
    (counter : Counter) :
    ((after.world id).counters counter : Int) =
      (config.world id).counters counter + event.op.delta id counter event.ans := by
  obtain ⟨horizon, told⟩ := Dial.ToldBy.exists labels
  obtain ⟨op, ans⟩ := event
  obtain ⟨own, moved, others, before, move, later⟩ :=
    (Dial.contract_kept setup horizon).act (reaches.covers told) step
  have balance := move_units move id counter
  have countedBefore : _ = (own + others).units id counter := (before id).1.counted counter
  have countedAfter : _ = (moved + others).units id counter := (later id).1.counted counter
  rw [units_add] at countedBefore countedAfter
  change _ = _ + op.delta id counter ans
  omega

end

def owedBy {α : Type} (id : ManagerId) (counter : Counter) : Action α → Nat
  | .call (.fetchSub manager word amount) next =>
    (if manager = id ∧ word = counter then amount else 0) + owedBy id counter (next ())
  | .call (.dropManager _) next => owedBy id counter (next ())
  | _ => 0

inductive Releases {α : Type} : Action α → Prop
  | ret (value : α) : Releases (.ret value)
  | sub {manager : ManagerId} {word : Counter} {amount : Nat} {next : Unit → Action α}
      (later : Releases (next ())) : Releases (.call (.fetchSub manager word amount) next)
  | drop {manager : ManagerId} {next : Unit → Action α} (later : Releases (next ())) :
      Releases (.call (.dropManager manager) next)

section

variable {setup : Setup} {horizon : Nat} {α β : Type}

theorem Releases.bind {prog : Action α} {rest : α → Action β} (first : Releases prog)
    (second : ∀ value, Releases (rest value)) : Releases (prog.bind rest) := by
  induction first with
  | ret value => exact second value
  | sub _ ih => exact .sub ih
  | drop _ ih => exact .drop ih

theorem Releases.path {prog last : Action α} (releases : Releases prog)
    (path : prog.Path events last) : Releases last := by
  induction path with
  | nil => exact releases
  | cons step _ ih =>
    cases releases with
    | ret value => cases step
    | sub later => cases step; exact ih later
    | drop later => cases step; exact ih later

theorem owedBy_units (releases : Releases prog) (follows : Accounts setup horizon post prog state)
    (empty : ∀ value last, post value last → last = 0) (id : ManagerId) (counter : Counter) :
    state.units id counter = owedBy id counter prog := by
  induction releases generalizing state with
  | ret value =>
    obtain ⟨last, quiet, held⟩ := follows.returned
    obtain rfl := empty value last held
    rw [← silent_units quiet id counter]
    rfl
  | @sub manager word amount next _ ih =>
    obtain ⟨ready, after, quiet, moved, tail⟩ := follows.advance (.call ()) trivial
    have before := silent_units quiet id counter
    have during := move_units moved id counter
    have later := ih tail
    simp only [Op.delta, owedBy] at during ⊢
    by_cases here : manager = id ∧ word = counter
    · rw [if_pos here] at during ⊢
      omega
    · rw [if_neg here] at during ⊢
      omega
  | drop _ ih =>
    obtain ⟨ready, after, quiet, moved, tail⟩ := follows.advance (.call ()) trivial
    have before := silent_units quiet id counter
    have during := move_units moved id counter
    have later := ih tail
    simp only [Op.delta, owedBy] at during ⊢
    omega

theorem releaseIf_releases (id : ManagerId) (counter : Counter) :
    Releases (releaseIf due id counter) := by
  unfold releaseIf
  cases due with
  | false => exact .ret ()
  | true => exact .sub (.ret ())

theorem DialTicket.drop_releases (ticket : DialTicket) : Releases ticket.drop :=
  (releaseIf_releases _ _).bind fun _ => (releaseIf_releases _ _).bind fun _ =>
    releaseIf_releases _ _

end

def Task.isDrop : Task → Bool
  | .dropTicket _ | .dropSlot _ | .dropManager _ => true
  | _ => false

def Task.rebinds : Task → Multiset DialTicket
  | .rebindAddress ticket _ => {ticket}
  | _ => 0

theorem Task.isDrop_releases (isDrop : task.isDrop = true) : Releases (Dial.body task) := by
  cases task <;> try cases isDrop
  case dropTicket ticket => exact ticket.drop_releases.bind fun _ => .ret _
  case dropSlot slot => exact (releaseIf_releases _ _).bind fun _ => .ret _
  case dropManager manager => exact .drop (.ret _)

open ConnectionManager

def unitsHeld (tickets : Multiset DialTicket) (slots : Multiset ConnectionSlot)
    (managers : Multiset ConnectionManager) (id : ManagerId) : Counter → Nat
  | .pending => (tickets.filter fun ticket => ticket.manager = id ∧ ticket.settled = false).card
  | .connections =>
    (tickets.filter fun ticket => ticket.manager = id ∧ ticket.settled = false).card +
      (slots.filter fun slot => slot.manager = id ∧ slot.released = false).card
  | .outcomes =>
    (tickets.filter fun ticket =>
      ticket.manager = id ∧ ticket.settled = false ∧ ticket.peer.isSome).card +
      ((managers.filter fun manager => manager.id = id).map
        outcomesToReturn).sum

theorem DialTicket.Whole.weight (whole : ticket.Whole) (counter : Counter) :
    total (Token.weight counter) ticket.tokens =
      if counter = .outcomes then ticket.peer.isSome.toNat else 1 := by
  rw [whole_tokens whole, whole.outcomeReserved]
  cases counter <;> cases ticket.peer.isSome <;> rfl

theorem ticketLedger_units (whole : ∀ ticket ∈ tickets, ticket.Whole) (id : ManagerId)
    (counter : Counter) :
    (ticketLedger tickets).units id counter = unitsHeld tickets 0 0 id counter := by
  induction tickets using Multiset.induction_on with
  | empty => cases counter <;> rfl
  | cons ticket tickets ih =>
    have here := whole ticket (Multiset.mem_cons_self _ _)
    have later := ih fun other member => whole other (Multiset.mem_cons_of_mem member)
    rw [ticketLedger_cons, units_add, later, units_owned, here.weight]
    have unsettled := here.settled
    cases counter <;> by_cases same : ticket.manager = id <;>
      cases named : ticket.peer.isSome <;>
      simp [unitsHeld, same, unsettled, named, add_comm]

theorem slotLedger_units :
    (slotLedger slots).units id counter = unitsHeld 0 slots 0 id counter := by
  induction slots using Multiset.induction_on with
  | empty => cases counter <;> rfl
  | cons slot slots ih =>
    rw [slotLedger_cons, units_add, ih, units_owned, ConnectionSlot.tokens]
    cases counter <;> by_cases same : slot.manager = id <;> cases live : slot.released <;>
      simp [unitsHeld, same, live, oneIf, Token.weight, add_comm]

theorem managerLedger_units :
    (managerLedger managers).units id counter = unitsHeld 0 0 managers id counter := by
  induction managers using Multiset.induction_on with
  | empty => cases counter <;> rfl
  | cons manager managers ih =>
    rw [managerLedger_cons, units_add, ih, units_owned]
    cases counter <;> by_cases same : manager.id = id <;>
      simp [unitsHeld, same, tokens, tokensWith, Token.weight]

theorem unitsHeld_add (id : ManagerId) (counter : Counter) :
    unitsHeld (left + right) slots managers id counter =
      unitsHeld left slots managers id counter + unitsHeld right 0 0 id counter := by
  cases counter <;> simp [unitsHeld] <;> omega

theorem unitsHeld_parts (id : ManagerId) (counter : Counter) :
    unitsHeld tickets slots managers id counter = unitsHeld 0 0 managers id counter +
      (unitsHeld tickets 0 0 id counter + unitsHeld 0 slots 0 id counter) := by
  cases counter <;> simp [unitsHeld, add_comm]

section

variable {setup : Setup} {horizon : Nat}

theorem rest_units {rest : Rest} (sound : rest.Sound setup horizon) (id : ManagerId)
    (counter : Counter) :
    rest.ledger.units id counter = unitsHeld rest.tickets rest.slots rest.managers id counter := by
  rw [unitsHeld_parts, Rest.ledger, units_add, units_add, managerLedger_units,
    ticketLedger_units fun ticket member => (sound.tickets ticket member).toWhole, slotLedger_units]

theorem thread_units (idle : task.isDrop = true ∨ task.rebinds ≠ 0)
    (sound : task.Sound setup horizon)
    (follows : Accounts setup horizon (task.Leaves setup) prog own)
    (path : (Dial.body task).Path events prog) (id : ManagerId) (counter : Counter) :
    own.units id counter = owedBy id counter prog + unitsHeld task.rebinds 0 0 id counter := by
  rcases idle with isDrop | binds
  · have releases := (Task.isDrop_releases isDrop).path path
    have empty : ∀ value last, task.Leaves setup value last → last = 0 := by
      intro value last leaves
      cases task <;> cases value <;> try cases isDrop
      all_goals first | exact leaves | exact leaves.elim
    have none : task.rebinds = 0 := by
      cases task <;> try cases isDrop
      all_goals rfl
    rw [owedBy_units releases follows empty, none]
    cases counter <;> rfl
  · cases task <;> try exact absurd rfl binds
    case rebindAddress ticket address =>
      obtain ⟨⟩ | ⟨⟨⟩, -⟩ := path
      obtain ⟨last, quiet, -, rfl⟩ := follows.returned
      have held : (ticketLedger {ticket}).units id counter = unitsHeld {ticket} 0 0 id counter :=
        ticketLedger_units (by simpa using sound.toWhole) id counter
      rw [← silent_units quiet, Task.rebinds, ← held]
      simp [ticketLedger, owedBy, Dial.body]

/-- Where no admission and no manager call is under way, the counters are what the tickets,
slots and managers stand for, and what drops have still to give back. -/
theorem idle_counters (reaches : Dial.Reaches setup labels config)
    (idle : ∀ thread ∈ config.threads, thread.task.isDrop = true ∨ thread.task.rebinds ≠ 0)
    (id : ManagerId) (counter : Counter) :
    (config.world id).counters counter =
      unitsHeld (config.rest.tickets + (config.threads.map fun thread => thread.task.rebinds).sum)
        config.rest.slots config.rest.managers id counter +
      (config.threads.map fun thread => owedBy id counter thread.prog).sum := by
  obtain ⟨horizon, told⟩ := Dial.ToldBy.exists labels
  obtain ⟨sound, held, listed, each, accounted⟩ := reaches.covers told
  have counted : (config.world id).counters counter =
      (config.rest.ledger + (held.map Prod.snd).sum).units id counter :=
    (accounted id).1.counted counter
  have running := reaches.traced.running
  rw [counted, units_add, rest_units sound, unitsHeld_add, add_assoc]
  congr 1
  rw [← listed] at idle running ⊢
  clear listed counted accounted
  induction held with
  | nil => cases counter <;> rfl
  | cons entry held ih =>
    obtain ⟨taskSound, follows⟩ := each entry List.mem_cons_self
    have here := thread_units (idle entry.1 (by simp)) taskSound follows
      (running entry.1 (by simp)).2 id counter
    have later := ih (fun thread member => idle thread (List.mem_cons_of_mem _ member))
      (fun other member => each other (List.mem_cons_of_mem _ member))
      (fun thread member => running thread (List.mem_cons_of_mem _ member))
    simp only [List.map_cons, List.sum_cons, units_add, unitsHeld_add]
    omega

theorem denied_delta (reaches : Dial.Reaches setup labels config) {denial : DialDenial}
    (began : .start thread task ∈ labels)
    (denied : .finish thread (.admitted (.error denial)) ∈ labels) (id : ManagerId)
    (counter : Counter) : netDelta id counter (eventsOf thread labels) = 0 := by
  obtain ⟨horizon, told⟩ := Dial.ToldBy.exists labels
  obtain ⟨state, develops, leaves⟩ := (Dial.contract_kept setup horizon).finished
    start_covers reaches told began denied
  have balance := develops_units develops id counter
  have nothing : state.units id counter = 0 ∧ task.brings.units id counter = 0 := by
    cases task <;> try exact leaves.elim
    case admitDial snapshot request nowMs =>
      obtain rfl : state = 0 := leaves
      refine ⟨rfl, ?_⟩
      rw [Task.brings, units_owned]
      cases counter <;> simp [Token.weight]
    case handleAdmit manager request nowMs =>
      obtain rfl : state = 0 := leaves
      exact ⟨rfl, rfl⟩
  have brought : (Dial.contract setup horizon).brings task = task.brings := rfl
  rw [brought] at balance
  omega

def Op.on (issuer : ManagerId) (op : Op) : Prop :=
  op.manager = issuer

theorem releaseIf_only (id : ManagerId) (counter : Counter) :
    (releaseIf due id counter).Only (Op.on id) := by
  unfold releaseIf
  cases due with
  | false => exact .ret ()
  | true => exact .call rfl fun _ => .ret ()

theorem DialTicket.drop_only (issued : ticket.manager = issuer) :
    ticket.drop.Only (Op.on issuer) := by
  subst issued
  exact (releaseIf_only _ _).bind fun _ => (releaseIf_only _ _).bind fun _ =>
    releaseIf_only _ _

open Prog

theorem ConnectionManager.keepConnection_only {manager : ConnectionManager} :
    (manager.keepConnection ticket).Only (Op.on ticket.manager) := by
  simp only [keepConnection, settle, bind_eq, perform_bind]
  refine .bind (.call rfl fun _ => .bind ?_ fun _ => .ret _) fun _ => .ret _
  exact DialTicket.drop_only rfl

theorem ConnectionManager.answer_only {manager : ConnectionManager} {call : Call}
    (settles : call.ticket = some ticket) (foreign : ticket.manager ≠ manager.id) :
    (manager.answer call).Only (Op.on ticket.manager) := by
  have elsewhere : ∀ nowMs, (!(manager.observe nowMs).issuedHere ticket) = true := by
    intro nowMs
    simp [issuedHere, observe, foreign]
  have drops : ∀ {β : Type} (value : β), (ticket.drop.bind fun _ => .ret value).Only
      (Op.on ticket.manager) := by
    intro β value
    exact (DialTicket.drop_only rfl).bind fun _ => .ret value
  cases call <;> cases settles
  case recordSuccess nowMs =>
    simp only [answer, recordSuccess, map_eq, elsewhere, ↓reduceIte]
    exact keepConnection_only.bind fun _ => .ret _
  all_goals
    simp only [answer, recordFailure, recordRelayHopUnreached, recordPermanentFailure,
      recordAuthorizationWithdrawn, recordLocallyRefused, recordAbandoned, recordIdentityMismatch,
      map_eq, bind_eq, elsewhere, ↓reduceIte]
    exact (drops _).bind fun _ => .ret _

theorem foreign_delta (reaches : Dial.Reaches setup labels config) {manager : ConnectionManager}
    {call : Call} (began : .start thread (.manage manager call) ∈ labels)
    (settles : call.ticket = some ticket) (foreign : ticket.manager ≠ manager.id) {id : ManagerId}
    (apart : id ≠ ticket.manager) (counter : Counter) {event : Event Op Op.Ans}
    (performed : event ∈ eventsOf thread labels) : event.op.delta id counter event.ans = 0 := by
  obtain ⟨⟨prog, path⟩, -⟩ := reaches.traced.started thread _ began
  have only : (Dial.body (.manage manager call)).Only (Op.on ticket.manager) :=
    (answer_only settles foreign).bind fun _ => .ret _
  have here : event.op.manager = ticket.manager := (only.path path).2 event performed
  exact Op.delta_other counter (here ▸ apart.symm)

/-- Dial accounting is exact. Whatever the threads do and however their atomic steps
interleave, no counter passes its limit, no operation on a counter wraps, a denied admission
leaves every counter as it was, and settling a foreign ticket moves only its issuer's. Where
no admission and no manager call is under way, the counters are the tickets, slots and
outcomes there are, and what drops under way have still to give back. -/
theorem dial_accounting_exact {labels : List (Label Op Op.Ans Task TaskResult)}
    {config : Config Op Op.Ans World Rest Task TaskResult}
    (reaches : Dial.Reaches setup labels config) :
    (∀ id, (config.world id).counters .pending ≤ setup.maxPendingDials id ∧
      (config.world id).counters .connections ≤ (setup.policy id).maxConnections ∧
      (config.world id).counters .outcomes ≤ (setup.policy id).maxAddresses) ∧
    (∀ thread event after, Step Dial.system config (.act thread event) after → ∀ id counter,
      ((after.world id).counters counter : Int) =
        (config.world id).counters counter + event.op.delta id counter event.ans) ∧
    ((∀ thread ∈ config.threads, thread.task.isDrop = true ∨ thread.task.rebinds ≠ 0) →
      ∀ id counter, (config.world id).counters counter =
        unitsHeld (config.rest.tickets + (config.threads.map fun thread => thread.task.rebinds).sum)
          config.rest.slots config.rest.managers id counter +
        (config.threads.map fun thread => owedBy id counter thread.prog).sum) ∧
    (∀ thread denial, .finish thread (.admitted (.error denial)) ∈ labels → ∀ id counter,
      netDelta id counter (eventsOf thread labels) = 0) ∧
    ∀ thread manager call ticket, .start thread (.manage manager call) ∈ labels →
      call.ticket = some ticket → ticket.manager ≠ manager.id →
      ∀ id counter, id ≠ ticket.manager → ∀ event ∈ eventsOf thread labels,
        event.op.delta id counter event.ans = 0 := by
  refine ⟨fun id => ?_, fun thread event after step => step_delta reaches step,
    idle_counters reaches, ?_, ?_⟩
  · obtain ⟨horizon, told⟩ := Dial.ToldBy.exists labels
    obtain ⟨-, _, -, -, accounted⟩ := reaches.covers told
    have ceiled := (accounted id).1.ceiled
    exact ⟨ceiled .pending, ceiled .connections, ceiled .outcomes⟩
  · intro thread denial denied
    obtain ⟨task, began, -⟩ := reaches.traced.finished thread _ denied
    exact denied_delta reaches began denied
  · intro thread manager call ticket began settles foreign id counter apart event performed
    exact foreign_delta reaches began settles foreign apart counter performed

end

open DialSample

def DialSample.request (address : String) : DialRequest :=
  ⟨some remote, address, .manual⟩

/-- Two dials take steps in turn where there is room for one outcome. -/
@[irreducible]
def DialSample.racing : List (Label Op Op.Ans Task TaskResult) × Dial.Table :=
  (opening setup).play (entrust trust :: through ++ dial "a" 0 :: dial "b" 0 ::
    (List.replicate 40 [.turn 1, .turn 0]).flatten)

/-- One dial holds its ticket, the other had reserved and gave back. -/
theorem dial_accounting_exact_sample : Dial.Reaches setup racing.1 racing.2.config ∧
    racing.2.tickets.length = 1 ∧ (∀ counter, (racing.2.world 0).counters counter = 1) ∧
    ∃ thread denial, .finish thread (.admitted (.error denial)) ∈ racing.1 ∧
      (∃ event ∈ eventsOf thread racing.1, event.op.delta 0 .pending event.ans = 1) ∧
      ∀ counter, netDelta 0 counter (eventsOf thread racing.1) = 0 := by
  have reaches : Dial.Reaches setup racing.1 racing.2.config := by
    unfold racing
    exact Dial.Table.play_run (opening setup) _
  obtain ⟨-, -, idle, denied, -⟩ := dial_accounting_exact reaches
  have nobody : racing.2.threads = [] := List.length_eq_zero_iff.mp (by decide +kernel)
  have held := idle (by simp [Dial.Table.config, nobody]) 0
  obtain ⟨⟨thread, denial | ticket⟩, answered, refused, reserved⟩ :
      ∃ answered ∈ admissions racing.1, answered.2.isOk = false ∧
        ∃ event ∈ eventsOf answered.1 racing.1, event.op.delta 0 .pending event.ans = 1 := by
    decide +kernel
  · refine ⟨reaches, by decide +kernel, fun counter => (held counter).trans ?_, thread, denial,
      mem_admissions answered, reserved, denied thread denial (mem_admissions answered) 0⟩
    cases counter <;> decide +kernel
  · cases refused

end InterWeave
