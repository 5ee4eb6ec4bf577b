import InterWeave.Runtime.DialProtocol

/-!
Every program of the gate keeps to the account: what it reserves it hands on with a ticket,
a slot or the manager, or gives back.
-/

namespace InterWeave

open Concurrent Saturating ConnectionPolicy Relation

variable {due : Bool} {counter : Counter}

abbrev Ledger := ManagerId → Multiset Token

variable (setup : Setup) (id : ManagerId) (horizon : Nat)

def owned (tokens : Multiset Token) : Ledger := Pi.single id tokens

@[simp]
theorem owned_zero : owned id 0 = 0 := Pi.single_zero id

theorem owned_add : owned id (left + right) = owned id left + owned id right := by
  funext other
  by_cases same : other = id
  · subst same
    simp [owned]
  · simp [owned, same]

theorem owned_cons : owned id (token ::ₘ tokens) = owned id {token} + owned id tokens := by
  rw [← owned_add]
  rfl

def QuietStep (state after : Ledger) : Prop :=
  ∃ id own given spare, Quiet horizon own given ∧ state = owned id own + spare ∧
    after = owned id given + spare

def TradeStep (state : Ledger) (op : Op) (ans : op.Ans) (after : Ledger) : Prop :=
  ∃ own given spare, Trade setup op ans own given ∧ state = owned op.manager own + spare ∧
    after = owned op.manager given + spare

def Dial.possible : (op : Op) → op.Ans → Prop
  | .readPublished id, snapshot => setup.Made id snapshot
  | _, _ => True

open Dial

def Dial.protocol : Protocol Op Op.Ans Ledger where
  possible := possible setup
  silent := ReflTransGen (QuietStep horizon)
  move := TradeStep setup
  refl := fun _ => .refl
  trans := .trans

abbrev Accounts {α : Type} (post : α → Ledger → Prop) (prog : Action α) (state : Ledger) : Prop :=
  Follows (protocol setup horizon) post prog state

theorem Dial.protocol_local : (protocol setup horizon).Local where
  silent := by
    intro state after spare quiet
    refine quiet.lift (· + spare) ?_
    rintro _ _ ⟨id, own, given, more, step, rfl, rfl⟩
    exact ⟨id, own, given, more + spare, step, add_assoc _ _ _, add_assoc _ _ _⟩
  move := by
    rintro _ _ op ans spare ⟨own, given, more, trade, rfl, rfl⟩
    exact ⟨own, given, more + spare, trade, add_assoc _ _ _, add_assoc _ _ _⟩

section

variable {setup : Setup} {horizon : Nat} {α β : Type} {post : α → Ledger → Prop} {id : ManagerId}
  {own given : Multiset Token} {spare : Ledger}

theorem Accounts.share (follows : Accounts setup horizon post prog state)
    (continues : ∀ value own, post value own →
      Accounts setup horizon last (rest value) (own + spare)) :
    Accounts setup horizon last (prog.bind rest) (state + spare) :=
  Follows.share (protocol_local setup horizon) follows continues

theorem follows_quiet {prog : Action α} (quiet : Quiet horizon own given)
    (follows : Accounts setup horizon post prog (owned id given + spare)) :
    Accounts setup horizon post prog (owned id own + spare) :=
  follows.silent (.single ⟨id, own, given, spare, quiet, rfl, rfl⟩)

theorem follows_look {op : Op} {next : op.Ans → Action α} {state : Ledger}
    (trade : ∀ ans, Trade setup op ans 0 0)
    (each : ∀ ans, Accounts setup horizon post (next ans) state) :
    Accounts setup horizon post (.call op next) state :=
  .call fun ans _ => ⟨state, ⟨0, 0, state, trade ans, by simp, by simp⟩, each ans⟩

theorem follows_trade {op : Op} {next : op.Ans → Action α}
    (each : ∀ ans, possible setup op ans → ∃ given, Trade setup op ans own given ∧
      Accounts setup horizon post (next ans) (owned op.manager given + spare)) :
    Accounts setup horizon post (.call op next) (owned op.manager own + spare) := by
  refine .call fun ans possible => ?_
  obtain ⟨given, trade, tail⟩ := each ans possible
  exact ⟨_, ⟨own, given, spare, trade, rfl, rfl⟩, tail⟩

theorem follows_release {amount : Nat} {next : Unit → Action α}
    (units : ∀ other, total (Token.weight other) own = if other = counter then amount else 0)
    (published : total Token.back own = 0) (ruleless : total Token.rule own = 0)
    (tail : Accounts setup horizon post (next ()) spare) :
    Accounts setup horizon post (.call (.fetchSub id counter amount) next)
      (owned id own + spare) :=
  follows_trade fun _ _ => ⟨0, .release units published ruleless, by simpa using tail⟩

theorem follows_forget {value : α} {state : Ledger} (idle : Idle own) (held : post value state) :
    Accounts setup horizon post (.ret value) (owned id own + state) :=
  follows_quiet (.forget idle) (by simpa using .ret held)

theorem reserve_follows {ceiling : Nat} (take : ∀ current < ceiling,
      Trade setup (.compareExchangeWeak id counter current (current + 1)) (.ok ()) own given) :
    Accounts setup horizon
      (fun answer state => match answer with
        | .error () => state = owned id own
        | .ok () => state = owned id given ∧ 0 < ceiling)
      (reserve id counter ceiling) (owned id own) := by
  simp only [reserve, Prog.bind_eq, Prog.perform_bind]
  refine follows_look (fun seen => .load seen) fun (current : Nat) => ?_
  by_cases full : current ≥ ceiling
  · rw [if_pos full]
    exact .ret rfl
  · rw [if_neg full]
    -- The loop keeps the tokens it started with, and a word below the ceiling.
    refine .spin (fun word state => word < ceiling ∧ state = owned id own) ⟨by omega, rfl⟩ ?_
    rintro word _ ⟨below, rfl⟩ answer -
    cases answer with
    | ok exchanged =>
      refine ⟨owned id given, ⟨own, given, 0, take word below, by simp [Op.manager],
        by simp [Op.manager]⟩, ?_⟩
      exact .ret ⟨rfl, by omega⟩
    | error seen =>
      refine ⟨owned id own, ⟨0, 0, owned id own, .exchangeFailed seen, by simp, by simp⟩, ?_⟩
      by_cases fullNow : seen ≥ ceiling
      · simp only [fullNow, ↓reduceIte]
        exact .ret rfl
      · simp only [fullNow, ↓reduceIte, and_true]
        omega

theorem reserveUnit_follows {ceiling : Nat} (take : ∀ current < ceiling,
      Trade setup (.compareExchangeWeak id counter current (current + 1)) (.ok ()) 0 given) :
    Accounts setup horizon
      (fun answer state => match answer with
        | .error () => state = 0
        | .ok () => state = owned id given)
      (reserve id counter ceiling) 0 := by
  refine .of_eq (owned_zero id).symm ((reserve_follows take).mono ?_)
  rintro (⟨⟩ | ⟨⟩) state held
  · exact held.trans (owned_zero id)
  · exact held.1

end

structure Token.Outcome (token : Token) : Prop where
  units : ∀ counter, token.weight counter = if counter = .outcomes then 1 else 0
  loose : token.back = 0

theorem issued_outcome (atMs : Nat) : (Token.issued atMs).Outcome :=
  ⟨by rintro ⟨⟩ <;> rfl, rfl⟩

theorem provisional_outcome : (Token.provisional revision atMs).Outcome :=
  ⟨by rintro ⟨⟩ <;> rfl, rfl⟩

def oneIf (due : Bool) (token : Token) : Multiset Token :=
  if due then {token} else 0

def DialTicket.dues (ticket : DialTicket) : Multiset Token :=
  oneIf (!ticket.connectionKept) .connection + oneIf (!ticket.settled) .pending

def DialTicket.tokens (ticket : DialTicket) : Multiset Token :=
  oneIf ticket.outcomeReserved (.issued ticket.admittedAtMs) + ticket.dues

def ConnectionSlot.tokens (slot : ConnectionSlot) : Multiset Token :=
  oneIf (!slot.released) .connection

def ticketLedger (tickets : Multiset DialTicket) : Ledger :=
  (tickets.map fun ticket => owned ticket.manager ticket.tokens).sum

def slotLedger (slots : Multiset ConnectionSlot) : Ledger :=
  (slots.map fun slot => owned slot.manager slot.tokens).sum

section

variable {setup : Setup} {horizon : Nat} {α β : Type} {post : α → Ledger → Prop}

theorem releaseIf_follows {id : ManagerId} {token : Token}
    (units : ∀ other, token.weight other = if other = counter then 1 else 0)
    (loose : token.back = 0) :
    Accounts setup horizon (fun _ state => state = 0) (releaseIf due id counter)
      (owned id (oneIf due token)) := by
  cases due with
  | false => exact .ret (by simp [oneIf])
  | true =>
    simp only [releaseIf, oneIf, ↓reduceIte]
    rw [← add_zero (owned id {token})]
    have ruleless : token.rule = 0 := by
      have weighs := units counter
      rw [if_pos rfl] at weighs
      cases token <;> first | rfl | (cases counter <;> cases weighs)
    exact follows_release (by simpa using units) (by simpa using loose) (by simpa using ruleless)
      (.ret rfl)

theorem releaseConnection_follows {id : ManagerId} :
    Accounts setup horizon (fun _ state => state = 0) (releaseIf due id .connections)
      (owned id (oneIf due .connection)) :=
  releaseIf_follows (by rintro ⟨⟩ <;> rfl) rfl

theorem releasePending_follows {id : ManagerId} :
    Accounts setup horizon (fun _ state => state = 0) (releaseIf due id .pending)
      (owned id (oneIf due .pending)) :=
  releaseIf_follows (by rintro ⟨⟩ <;> rfl) rfl

theorem ConnectionSlot.drop_follows (slot : ConnectionSlot) :
    Accounts setup horizon (fun _ state => state = 0) slot.drop
      (owned slot.manager slot.tokens) :=
  releaseConnection_follows

theorem DialTicket.drop_follows (ticket : DialTicket) (isOutcome : outcome.Outcome) :
    Accounts setup horizon (fun _ state => state = 0) ticket.drop
      (owned ticket.manager (oneIf ticket.outcomeReserved outcome + ticket.dues)) := by
  simp only [drop, dues, Prog.bind_eq, owned_add]
  refine (releaseIf_follows isOutcome.units isOutcome.loose).share ?_
  rintro - _ rfl
  rw [zero_add]
  refine releaseConnection_follows.share ?_
  rintro - _ rfl
  rw [zero_add]
  exact releasePending_follows

theorem DialTicket.dropDues_follows (ticket : DialTicket) {id : ManagerId}
    (manager : ticket.manager = id) (unreserved : ticket.outcomeReserved = false) :
    Accounts setup horizon (fun _ state => state = 0) ticket.drop (owned id ticket.dues) := by
  have drops : Accounts setup horizon (fun _ state => state = 0) ticket.drop _ :=
    ticket.drop_follows (issued_outcome 0)
  rw [unreserved, manager] at drops
  simpa [oneIf] using drops

theorem isCurrent_follows {snapshot : PolicySnapshot}
    (succeeds : ∀ current : PolicySnapshot, snapshot.revision = current.revision →
      Trade setup (.readCurrent snapshot.manager) (some current) own given) :
    Accounts setup horizon
      (fun answer state => state = owned snapshot.manager (if answer then given else own))
      snapshot.isCurrent (owned snapshot.manager own) := by
  simp only [PolicySnapshot.isCurrent, Prog.bind_eq, Prog.perform_bind]
  refine follows_look (fun alive => .upgradeManager alive) fun (alive : Bool) => ?_
  cases alive with
  | false => exact .ret rfl
  | true =>
    simp only [Bool.not_true, Bool.false_eq_true, ↓reduceIte]
    refine follows_look (fun _ => .dropManagerRef) fun _ => .call fun current _ => ?_
    have unread : TradeStep setup (owned snapshot.manager own) (.readCurrent snapshot.manager)
        current (owned snapshot.manager own) :=
      ⟨0, 0, owned snapshot.manager own, .readCurrent current, by simp, by simp⟩
    cases current with
    | none => exact ⟨_, unread, .ret rfl⟩
    | some current =>
      by_cases same : snapshot.revision = current.revision
      · refine ⟨owned snapshot.manager given, ⟨own, given, 0, succeeds current same, ?_, ?_⟩, ?_⟩
        · simp [Op.manager]
        · simp [Op.manager]
        · exact .ret (by simp [same])
      · exact ⟨_, unread, .ret (by simp [same])⟩

end

structure DialTicket.Whole (ticket : DialTicket) : Prop where
  settled : ticket.settled = false
  connectionKept : ticket.connectionKept = false
  outcomeReserved : ticket.outcomeReserved = ticket.peer.isSome

section Admission

variable {setup : Setup} {horizon : Nat} {snapshot : PolicySnapshot}

variable (made : setup.Made snapshot.manager snapshot) (request : DialRequest) (nowMs : Nat)

theorem precheck_follows :
    Accounts setup horizon (fun _ state => state = spare)
      (snapshot.precheck request nowMs) spare := by
  simp only [PolicySnapshot.precheck, Prog.bind_eq, Prog.perform_bind]
  refine follows_look (fun draining => .loadShuttingDown draining) fun (draining : Bool) => ?_
  cases draining with
  | true => exact .ret rfl
  | false =>
    simp only [Bool.false_eq_true, ↓reduceIte]
    have looks : Accounts setup horizon
        (fun answer state => state = owned snapshot.manager (if answer then 0 else 0))
        snapshot.isCurrent (owned snapshot.manager 0) :=
      isCurrent_follows fun current _ => .readCurrent (some current)
    refine .of_eq (by rw [owned_zero, zero_add]) (looks.share ?_)
    rintro answer _ rfl
    cases answer <;> exact .ret (by simp)

theorem reserveOutcome_follows (made : setup.Made snapshot.manager snapshot) {ticket : DialTicket}
    (manager : ticket.manager = snapshot.manager) (unreserved : ticket.outcomeReserved = false)
    (nowMs : Nat) :
    Accounts setup horizon
      (fun answer state => match answer with
        | .error _ => state = owned snapshot.manager {.held snapshot}
        | .ok issued => issued = { ticket with outcomeReserved := ticket.peer.isSome } ∧
            state = owned snapshot.manager {.held snapshot} +
              owned snapshot.manager
                (oneIf ticket.peer.isSome (.provisional snapshot.revision nowMs) + ticket.dues))
      (snapshot.reserveOutcome ticket nowMs)
      (owned snapshot.manager {.held snapshot} + owned snapshot.manager ticket.dues) := by
  unfold PolicySnapshot.reserveOutcome
  cases named : ticket.peer with
  | none =>
    refine .ret ⟨?_, by simp [oneIf]⟩
    cases ticket
    simp_all
  | some peer =>
    simp only [Prog.bind_eq]
    have takes : ∀ current < snapshot.policy.maxAddresses - snapshot.policy.liveQuarantines nowMs,
        Trade setup (.compareExchangeWeak snapshot.manager .outcomes current (current + 1)) (.ok ())
          {.held snapshot} {.held snapshot, .provisional snapshot.revision nowMs} := by
      intro current below
      rw [made.maxAddresses] at below
      exact .reserveOutcome (by omega)
    refine (reserve_follows takes).share ?_
    rintro (⟨⟩ | ⟨⟩) state held
    · subst held
      refine .of_eq (add_comm _ _) ((ticket.dropDues_follows manager unreserved).share ?_)
      rintro - _ rfl
      exact .ret (zero_add _)
    · obtain ⟨rfl, -⟩ := held
      refine .ret ⟨rfl, ?_⟩
      simp [oneIf, owned_cons, add_assoc]

theorem reserveAll_follows (made : setup.Made snapshot.manager snapshot) (request : DialRequest)
    (nowMs : Nat) :
    Accounts setup horizon
      (fun answer state => match answer with
        | .error _ => state = owned snapshot.manager {.held snapshot}
        | .ok ticket => ticket.Whole ∧ ticket.manager = snapshot.manager ∧
            ticket.admittedAtMs = nowMs ∧
            state = owned snapshot.manager {.held snapshot} +
              owned snapshot.manager
                (oneIf ticket.outcomeReserved (.provisional snapshot.revision nowMs) + ticket.dues))
      (snapshot.reserveAll request nowMs) (owned snapshot.manager {.held snapshot}) := by
  have takesPending : ∀ current < snapshot.maxPendingDials,
      Trade setup (.compareExchangeWeak snapshot.manager .pending current (current + 1)) (.ok ())
        0 {.pending} := by
    intro current below
    exact .reservePending (made.maxPendingDials ▸ below)
  have takesConnection : ∀ current < snapshot.maxConnections,
      Trade setup (.compareExchangeWeak snapshot.manager .connections current (current + 1))
        (.ok ())
        0 {.connection} := by
    intro current below
    exact .reserveConnection (made.maxConnections ▸ below)
  simp only [PolicySnapshot.reserveAll, Prog.bind_eq]
  refine .of_eq (zero_add _).symm ((reserveUnit_follows takesPending).share ?_)
  rintro (⟨⟩ | ⟨⟩) _ rfl
  · exact .ret (zero_add _)
  refine .of_eq (zero_add _).symm ((reserveUnit_follows takesConnection).share ?_)
  rintro (⟨⟩ | ⟨⟩) _ rfl
  · refine .of_eq (zero_add _) ((DialTicket.dropDues_follows _ rfl rfl).share ?_)
    rintro - _ rfl
    exact .ret (zero_add _)
  · refine .of_eq ?_ ((reserveOutcome_follows made rfl rfl nowMs).mono ?_)
    · simp only [DialTicket.dues, oneIf, Bool.not_false, ↓reduceIte, owned_add]
      abel
    · rintro (denial | ticket) state held
      · exact held
      · obtain ⟨rfl, rfl⟩ := held
        exact ⟨⟨rfl, rfl, rfl⟩, rfl, rfl, rfl⟩

theorem isSuperseded_follows :
    Accounts setup horizon
      (fun answer state => state = owned snapshot.manager
        (oneIf reserved (if answer then .provisional snapshot.revision atMs else .issued atMs)))
      snapshot.isSuperseded
      (owned snapshot.manager (oneIf reserved (.provisional snapshot.revision atMs))) := by
  have issues : ∀ current : PolicySnapshot, snapshot.revision = current.revision →
      Trade setup (.readCurrent snapshot.manager) (some current)
        (oneIf reserved (.provisional snapshot.revision atMs)) (oneIf reserved (.issued atMs)) := by
    intro current same
    cases reserved with
    | false => exact .readCurrent (some current)
    | true =>
      rw [same]
      exact .issue
  simp only [PolicySnapshot.isSuperseded, Prog.bind_eq, Prog.perform_bind]
  refine follows_look (fun draining => .loadShuttingDown draining) fun (draining : Bool) => ?_
  cases draining with
  | true => exact .ret rfl
  | false =>
    refine (isCurrent_follows issues).then ?_
    rintro answer _ rfl
    cases answer <;> exact .ret rfl

theorem finalCheck_follows (manager : ticket.manager = snapshot.manager) :
    Accounts setup horizon
      (fun answer state => match answer with
        | .error _ => state = 0
        | .ok issued => issued = ticket ∧ state = owned ticket.manager ticket.tokens)
      (snapshot.finalCheck ticket)
      (owned snapshot.manager
        (oneIf ticket.outcomeReserved (.provisional snapshot.revision ticket.admittedAtMs) +
          ticket.dues)) := by
  simp only [PolicySnapshot.finalCheck, Prog.bind_eq]
  refine .of_eq (owned_add _) (isSuperseded_follows.share ?_)
  rintro superseded _ rfl
  rw [← owned_add, ← manager]
  cases superseded with
  | true =>
    refine (ticket.drop_follows provisional_outcome).then ?_
    rintro - _ rfl
    exact .ret rfl
  | false => exact .ret ⟨rfl, rfl⟩

def Admitted (id : ManagerId) (nowMs : Nat) (answer : Except DialDenial DialTicket)
    (state : Ledger) : Prop :=
  match answer with
  | .error _ => state = 0
  | .ok ticket => ticket.Whole ∧ ticket.manager = id ∧ ticket.admittedAtMs = nowMs ∧
      state = owned ticket.manager ticket.tokens

theorem admit_follows (made : setup.Made snapshot.manager snapshot) (request : DialRequest)
    (nowMs : Nat) :
    Accounts setup horizon (Admitted snapshot.manager nowMs) (snapshot.admitDial request nowMs)
      (owned snapshot.manager {.held snapshot}) := by
  have idle : Idle {.held snapshot} := ⟨by rintro ⟨⟩ <;> rfl, rfl⟩
  have forgets : ∀ {answer state}, Admitted snapshot.manager nowMs answer state →
      Accounts setup horizon (Admitted snapshot.manager nowMs) (.ret answer)
        (owned snapshot.manager {.held snapshot} + state) :=
    fun held => follows_forget idle held
  simp only [PolicySnapshot.admitDial, Prog.bind_eq]
  refine (precheck_follows request nowMs).then ?_
  rintro (denial | ⟨⟩) _ rfl
  · exact .of_eq (add_zero _).symm (forgets rfl)
  refine (reserveAll_follows made request nowMs).then ?_
  rintro (denial | ticket) state held
  · subst held
    exact .of_eq (add_zero _).symm (forgets rfl)
  · obtain ⟨whole, manager, rfl, rfl⟩ := held
    refine follows_quiet (.forget idle) ?_
    refine .of_eq (by rw [owned_zero, zero_add]) ((finalCheck_follows manager).mono ?_)
    rintro (denial | issued) state held
    · exact held
    · obtain ⟨rfl, rfl⟩ := held
      exact ⟨whole, manager, rfl, rfl⟩

theorem handleAdmit_follows (id : ManagerId) (request : DialRequest) (nowMs : Nat) :
    Accounts setup horizon (Admitted id nowMs) (SnapshotHandle.admitDial id request nowMs) 0 := by
  unfold SnapshotHandle.admitDial
  induction SnapshotHandle.admitReloadAttempts with
  | zero => exact .ret rfl
  | succ attempts ih =>
    simp only [SnapshotHandle.admitWithin, Prog.bind_eq, Prog.perform_bind]
    refine .call fun (snapshot : PolicySnapshot) (made : setup.Made id snapshot) =>
      ⟨owned id {.held snapshot}, ⟨0, {.held snapshot}, 0, .readPublished snapshot, by simp,
        by simp [Op.manager]⟩, ?_⟩
    obtain rfl : snapshot.manager = id := made.manager
    refine (admit_follows made request nowMs).then ?_
    rintro (denial | ticket) state held
    · obtain rfl : state = 0 := held
      cases denial
      case policySuperseded => exact ih
      all_goals exact .ret rfl
    · exact .ret held

end Admission

end InterWeave
