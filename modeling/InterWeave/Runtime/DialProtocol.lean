import InterWeave.Runtime.ConnectionPolicy
import InterWeave.Runtime.DialSystem

/-!
The account behind the dial gate. Every unit of a counter is a token in somebody's hands,
a manager's authority over its policy is one more token, and each operation trades some
tokens for others. The invariant ties the tokens of all hands to the shared state.
-/

variable {next : Authority}

namespace InterWeave

open Concurrent Saturating ConnectionPolicy

variable {snapshot : PolicySnapshot} {nowMs : Nat}

/-- What the call in progress may do to quarantines: a success clears its pair, and a mismatch
told an earlier time than its manager knows is late. -/
inductive Right where
  | none
  | clears (key : AddressKey)
  | late

structure Authority where
  policy : ConnectionPolicy
  revision : Nat
  clockMs : Nat
  unpublished : Option AddressKey
  right : Right := .none

/-- A reserved outcome is `issued` with a ticket, `provisional` while the admission that
reserved it is undecided, `returning` while the quarantine it stands for is not published, and
`returned` when only the counter still carries it. -/
inductive Token where
  | pending
  | connection
  | issued (atMs : Nat)
  | provisional (revision atMs : Nat)
  | returning
  | returned
  | authority (view : Authority)
  | held (snapshot : PolicySnapshot)

namespace Token

def weight : Counter → Token → Nat
  | .pending, .pending => 1
  | .connections, .connection => 1
  | .outcomes, .issued _ | .outcomes, .provisional _ _ | .outcomes, .returning
  | .outcomes, .returned => 1
  | _, _ => 0

def claim (revision nowMs : Nat) : Token → Nat
  | .issued atMs => if atMs ≤ nowMs then 1 else 0
  | .provisional made atMs => if made = revision ∧ atMs ≤ nowMs then 1 else 0
  | _ => 0

def back : Token → Nat
  | .returning => 1
  | _ => 0

def rule : Token → Nat
  | .authority _ => 1
  | _ => 0

end Token

def total (weigh : Token → Nat) (tokens : Multiset Token) : Nat :=
  (tokens.map weigh).sum

variable (weigh : Token → Nat)

@[simp]
theorem total_zero : total weigh 0 = 0 := rfl

@[simp]
theorem total_add (left right : Multiset Token) :
    total weigh (left + right) = total weigh left + total weigh right := by
  simp [total]

variable (token : Token)

@[simp]
theorem total_cons : total weigh (token ::ₘ tokens) = weigh token + total weigh tokens := by
  simp [total]

@[simp]
theorem total_singleton : total weigh {token} = weigh token := by
  simp [total]

@[simp]
theorem total_replicate : total weigh (Multiset.replicate amount token) = amount * weigh token := by
  simp [total]

theorem weight_authority : Token.weight counter (.authority view) = 0 := by
  cases counter <;> rfl

theorem total_le (less : ∀ token ∈ tokens, light token ≤ heavy token) :
    total light tokens ≤ total heavy tokens :=
  Multiset.sum_map_le_sum_map light heavy less

theorem total_claim_back_le (revision nowMs : Nat) (tokens : Multiset Token) :
    total (Token.claim revision nowMs) tokens + total Token.back tokens ≤
      total (Token.weight .outcomes) tokens := by
  have pointwise : ∀ token, Token.claim revision nowMs token + Token.back token ≤
      Token.weight .outcomes token := by
    intro token
    cases token <;> simp only [Token.claim, Token.back, Token.weight] <;> try split
    all_goals omega
  calc
    total (Token.claim revision nowMs) tokens + total Token.back tokens =
        total (fun token => Token.claim revision nowMs token + Token.back token) tokens := by
      simp [total]
    _ ≤ total (Token.weight .outcomes) tokens := total_le fun token _ => pointwise token

def Setup.ceiling (setup : Setup) (id : ManagerId) : Counter → Nat
  | .pending => setup.maxPendingDials id
  | .connections => (setup.policy id).maxConnections
  | .outcomes => (setup.policy id).maxAddresses

theorem Setup.ceiling_lt (setup : Setup) (id : ManagerId) (counter : Counter) :
    setup.ceiling id counter < counterRange := by
  obtain ⟨addresses, connections, pending⟩ := setup.small id
  cases counter <;> assumption

def Numbered : List PolicySnapshot → Prop
  | [] => True
  | snapshot :: earlier => snapshot.revision = min earlier.length u64Max ∧ Numbered earlier

theorem Numbered.revision_lt (numbered : Numbered snapshots) (member : snapshot ∈ snapshots) :
    snapshot.revision < snapshots.length := by
  induction snapshots with
  | nil => cases member
  | cons newest earlier ih =>
    rcases List.mem_cons.mp member with rfl | older
    · rw [numbered.1, List.length_cons]
      omega
    · have := ih numbered.2 older
      rw [List.length_cons]
      omega

theorem Numbered.eq_of_revision (numbered : Numbered (newest :: earlier))
    (lasts : earlier.length < counterRange) (member : snapshot ∈ newest :: earlier)
    (same : snapshot.revision = newest.revision) :
    snapshot = newest := by
  rcases List.mem_cons.mp member with rfl | older
  · rfl
  · have below := numbered.2.revision_lt older
    have place := numbered.1
    have range : u64Max + 1 = counterRange := rfl
    omega

theorem Numbered.revision_le (numbered : Numbered (newest :: earlier))
    (member : snapshot ∈ newest :: earlier) :
    snapshot.revision ≤ newest.revision := by
  induction earlier generalizing newest with
  | nil =>
    rcases List.mem_cons.mp member with rfl | nobody
    · exact le_rfl
    · cases nobody
  | cons next rest ih =>
    rcases List.mem_cons.mp member with rfl | older
    · exact le_rfl
    · refine (ih numbered.2 older).trans ?_
      rw [numbered.1, numbered.2.1, List.length_cons]
      omega

structure Setup.Made (setup : Setup) (id : ManagerId) (snapshot : PolicySnapshot) : Prop where
  manager : snapshot.manager = id
  maxPendingDials : snapshot.maxPendingDials = setup.ceiling id .pending
  maxConnections : snapshot.maxConnections = setup.ceiling id .connections
  maxAddresses : snapshot.policy.maxAddresses = setup.ceiling id .outcomes
  bounded : snapshot.policy.Bounded

/-- Every outstanding claim can still be met, from the published policy and from the
manager's own, and what the two differ by is covered by units not yet returned. -/
structure Room (limit nowMs revision : Nat) (current policy : ConnectionPolicy)
    (tokens : Multiset Token) : Prop where
  published : total (Token.claim revision nowMs) tokens + current.liveQuarantines nowMs ≤ limit
  own : total (Token.claim revision nowMs) tokens + policy.liveQuarantines nowMs ≤ limit
  owed : policy.liveQuarantines nowMs ≤ current.liveQuarantines nowMs + total Token.back tokens

open AddressState

structure Governed (setup : Setup) (id : ManagerId) (shared : Shared) (tokens : Multiset Token)
    (view : Authority) : Prop where
  revision : view.revision = shared.current.revision
  limit : view.policy.maxAddresses = setup.ceiling id .outcomes
  bounded : view.policy.Bounded
  capped : ∀ key untilMs, view.policy.QuarantinedUntil key untilMs →
    untilMs ≤ add64 view.clockMs identityMismatchQuarantineMs
  shown : ∀ key untilMs, view.policy.QuarantinedUntil key untilMs →
    view.unpublished ≠ some key → shared.current.policy.QuarantinedUntil key untilMs
  room : shared.earlier.length < counterRange → ∀ nowMs ≥ view.clockMs,
    Room (setup.ceiling id .outcomes) nowMs view.revision shared.current.policy view.policy tokens

structure Account (setup : Setup) (id : ManagerId) (shared : Shared) (tokens : Multiset Token) :
    Prop where
  counted : ∀ counter, shared.counters counter = total (Token.weight counter) tokens
  ceiled : ∀ counter, shared.counters counter ≤ setup.ceiling id counter
  numbered : Numbered shared.installed
  made : ∀ snapshot ∈ shared.installed, setup.Made id snapshot
  held : ∀ snapshot, .held snapshot ∈ tokens → snapshot ∈ shared.installed
  provisional : ∀ revision atMs, .provisional revision atMs ∈ tokens →
    revision ≤ shared.current.revision
  sole : total Token.rule tokens ≤ 1
  governed : ∀ view, .authority view ∈ tokens → Governed setup id shared tokens view

section

variable {setup : Setup} {id : ManagerId} {shared changed : Shared}
  {own after others tokens : Multiset Token} {view : Authority}

theorem Room.mono (room : Room limit nowMs revision current policy tokens)
    (claims : total (Token.claim revision nowMs) fewer ≤ total (Token.claim revision nowMs) tokens)
    (backs : total Token.back tokens ≤ total Token.back fewer) :
    Room limit nowMs revision current policy fewer :=
  ⟨le_trans (Nat.add_le_add_right claims _) room.published,
    le_trans (Nat.add_le_add_right claims _) room.own,
    le_trans room.owed (Nat.add_le_add_left backs _)⟩

/-- The tokens that need nothing but the shared state to be in order. -/
def Token.Sound (shared : Shared) : Token → Prop
  | .held snapshot => snapshot ∈ shared.installed
  | .provisional revision _ => revision ≤ shared.current.revision
  | _ => True

theorem Account.move (account : Account setup id shared (own + others))
    (numbered : Numbered changed.installed)
    (made : ∀ snapshot ∈ changed.installed, setup.Made id snapshot)
    (grown : shared.installed ⊆ changed.installed)
    (risen : shared.current.revision ≤ changed.current.revision)
    (counted : ∀ counter, changed.counters counter + total (Token.weight counter) own =
      shared.counters counter + total (Token.weight counter) after)
    (ceiled : ∀ counter, changed.counters counter ≤ setup.ceiling id counter)
    (fresh : ∀ token ∈ after, token ∈ own ∨ token.Sound shared)
    (rules : total Token.rule after ≤ total Token.rule own)
    (governed : ∀ view, .authority view ∈ after + others →
      Governed setup id changed (after + others) view) :
    Account setup id changed (after + others) := by
  have before : ∀ token ∈ after + others, token ∈ own + others ∨ token.Sound shared := by
    intro token member
    rcases Multiset.mem_add.mp member with new | old
    · exact (fresh token new).imp_left fun kept => Multiset.mem_add.mpr (.inl kept)
    · exact .inl (Multiset.mem_add.mpr (.inr old))
  refine ⟨fun counter => ?_, ceiled, numbered, made, ?_, ?_, ?_, governed⟩
  · have balance := counted counter
    have old := account.counted counter
    simp only [total_add] at old ⊢
    omega
  · intro snapshot member
    exact grown ((before _ member).elim (account.held snapshot) fun sound => sound)
  · intro revision atMs member
    exact ((before _ member).elim (account.provisional revision atMs) fun sound => sound).trans
      risen
  · have sole := account.sole
    simp only [total_add] at sole ⊢
    omega

section

variable (account : Account setup id shared (own + others))
  (current : changed.current = shared.current) (earlier : changed.earlier = shared.earlier)
  (counted : ∀ counter, changed.counters counter + total (Token.weight counter) own =
    shared.counters counter + total (Token.weight counter) after)
  (ceiled : ∀ counter, changed.counters counter ≤ setup.ceiling id counter)

include account current earlier counted ceiled

theorem Account.stay (fresh : ∀ token ∈ after, token ∈ own ∨ token.Sound shared)
    (rules : total Token.rule after ≤ total Token.rule own)
    (governed : ∀ view, .authority view ∈ after + others →
      Governed setup id changed (after + others) view) :
    Account setup id changed (after + others) := by
  have installed : changed.installed = shared.installed := by
    rw [Shared.installed, Shared.installed, current, earlier]
  exact account.move (installed ▸ account.numbered) (installed ▸ account.made)
    (installed ▸ List.Subset.refl _) (by rw [current]) counted ceiled fresh rules governed

theorem Account.rebalance
    (fresh : ∀ token ∈ after, token ∈ own ∨ token.Sound shared ∧ token.rule = 0)
    (claims : ∀ nowMs, total (Token.claim shared.current.revision nowMs) after ≤
      total (Token.claim shared.current.revision nowMs) own)
    (backs : total Token.back own ≤ total Token.back after)
    (rules : total Token.rule after ≤ total Token.rule own) :
    Account setup id changed (after + others) := by
  refine account.stay current earlier counted ceiled
    (fun token new => (fresh token new).imp_right And.left) rules fun view member => ?_
  have governed : Governed setup id shared (own + others) view := by
    refine account.governed view (Multiset.mem_add.mpr ?_)
    refine (Multiset.mem_add.mp member).imp_left fun new => ?_
    exact (fresh _ new).resolve_right fun ruleless => nomatch ruleless.2
  refine ⟨current ▸ governed.revision, governed.limit, governed.bounded, governed.capped,
    current ▸ governed.shown, fun lasts nowMs later => ?_⟩
  rw [current]
  refine (governed.room (earlier ▸ lasts) nowMs later).mono ?_ ?_
  · rw [governed.revision]
    simpa using claims nowMs
  · simpa using backs

end

end

inductive Trade (setup : Setup) : (op : Op) → op.Ans → Multiset Token → Multiset Token → Prop
  | load {id : ManagerId} {counter : Counter} (seen : Nat) : Trade setup (.load id counter) seen 0 0
  | exchangeFailed {id : ManagerId} {counter : Counter} {current new : Nat} (seen : Nat) :
      Trade setup (.compareExchangeWeak id counter current new) (.error seen) 0 0
  | loadShuttingDown {id : ManagerId} (draining : Bool) :
      Trade setup (.loadShuttingDown id) draining 0 0
  | storeShuttingDown {id : ManagerId} : Trade setup (.storeShuttingDown id) () 0 0
  | upgradeManager {id : ManagerId} (alive : Bool) : Trade setup (.upgradeManager id) alive 0 0
  | dropManagerRef {id : ManagerId} : Trade setup (.dropManagerRef id) () 0 0
  | dropManager {id : ManagerId} {view : Authority} :
      Trade setup (.dropManager id) () {.authority view} 0
  | readCurrent {id : ManagerId} (current : Option PolicySnapshot) :
      Trade setup (.readCurrent id) current 0 0
  | readPublished {id : ManagerId} (current : PolicySnapshot) :
      Trade setup (.readPublished id) current 0 {.held current}
  | reservePending {id : ManagerId} {current : Nat} (room : current < setup.ceiling id .pending) :
      Trade setup (.compareExchangeWeak id .pending current (current + 1)) (.ok ()) 0 {.pending}
  | reserveConnection {id : ManagerId} {current : Nat}
      (room : current < setup.ceiling id .connections) :
      Trade setup (.compareExchangeWeak id .connections current (current + 1)) (.ok ()) 0
        {.connection}
  | reserveOutcome {snapshot : PolicySnapshot} {current nowMs : Nat}
      (room : current + 1 + snapshot.policy.liveQuarantines nowMs ≤
        setup.ceiling snapshot.manager .outcomes) :
      Trade setup (.compareExchangeWeak snapshot.manager .outcomes current (current + 1)) (.ok ())
        {.held snapshot} {.held snapshot, .provisional snapshot.revision nowMs}
  | issue {id : ManagerId} {snapshot : PolicySnapshot} {atMs : Nat} :
      Trade setup (.readCurrent id) (some snapshot) {.provisional snapshot.revision atMs}
        {.issued atMs}
  | release {id : ManagerId} {counter : Counter} {amount : Nat} {own : Multiset Token}
      (units : ∀ other, total (Token.weight other) own = if other = counter then amount else 0)
      (published : total Token.back own = 0) (ruleless : total Token.rule own = 0) :
      Trade setup (.fetchSub id counter amount) () own 0
  | publish {id : ManagerId} {view : Authority} {snapshot : PolicySnapshot} {amount : Nat}
      (manager : snapshot.manager = id)
      (maxPendingDials : snapshot.maxPendingDials = setup.ceiling id .pending)
      (maxConnections : snapshot.maxConnections = setup.ceiling id .connections)
      (policy : snapshot.policy = view.policy)
      (revision : snapshot.revision = add64 view.revision 1) :
      Trade setup (.writePublished id snapshot) ()
        (.authority view ::ₘ Multiset.replicate amount .returning)
        (.authority { view with revision := snapshot.revision, unpublished := none } ::ₘ
          Multiset.replicate amount .returned)
  | handOver {id : ManagerId} {view : Authority} {current nowMs : Nat} {key : AddressKey}
      {policy : ConnectionPolicy}
      (room : current + 1 + view.policy.liveQuarantines nowMs ≤ setup.ceiling id .outcomes)
      (order : nowMs ≤ view.clockMs) (gentle : Gentle noPair (· = key) nowMs view.policy policy) :
      Trade setup (.compareExchangeWeak id .outcomes current (current + 1)) (.ok ())
        {.authority view} {.authority { view with policy := policy }, .returning}

structure Idle (tokens : Multiset Token) : Prop where
  weightless : ∀ counter, total (Token.weight counter) tokens = 0
  ruleless : total Token.rule tokens = 0

inductive Quiet (horizon : Nat) : Multiset Token → Multiset Token → Prop
  | forget {tokens : Multiset Token} (idle : Idle tokens) : Quiet horizon tokens 0
  | settle {atMs : Nat} : Quiet horizon {.issued atMs} {.returning}
  | evolve {view next : Authority} {cleared : AddressKey → Prop}
      (revision : next.revision = view.revision) (unpublished : next.unpublished = view.unpublished)
      (clock : view.clockMs ≤ next.clockMs) (told : next.clockMs ≤ max view.clockMs horizon)
      (gentle : Gentle cleared noPair next.clockMs view.policy next.policy)
      (allowed : ∀ key, cleared key → view.right = .clears key)
      (right : next.right = view.right ∨ next.right = .none) :
      Quiet horizon {.authority view} {.authority next}
  | mismatch {view next : Authority} {key : AddressKey} {nowMs atMs : Nat}
      (revision : next.revision = view.revision) (clean : view.unpublished = none)
      (unpublished : next.unpublished = some key) (clock : view.clockMs ≤ next.clockMs)
      (told : next.clockMs ≤ max view.clockMs horizon) (now : nowMs ≤ next.clockMs)
      (admitted : atMs ≤ next.clockMs) (onTime : view.clockMs ≤ nowMs ∨ view.right = .late)
      (right : next.right = .none)
      (punishes : Punishes key (add64 nowMs identityMismatchQuarantineMs) nowMs
        view.policy next.policy) :
      Quiet horizon {.authority view, .issued atMs} {.authority next, .returning}

section

variable {setup : Setup} {id : ManagerId} {shared changed : Shared}
  {own after others tokens : Multiset Token} {view : Authority}

@[simp]
theorem setCounter_current : (shared.setCounter counter value).current = shared.current := rfl

@[simp]
theorem setCounter_earlier : (shared.setCounter counter value).earlier = shared.earlier := rfl

@[simp]
theorem setCounter_installed : (shared.setCounter counter value).installed = shared.installed := rfl

theorem setCounter_counters (shared : Shared) (counter other : Counter) (value : Nat) :
    (shared.setCounter counter value).counters other =
      if other = counter then value else shared.counters other := by
  simp [Shared.setCounter, Function.update_apply]

theorem Account.unaffected (account : Account setup id shared tokens)
    (counters : changed.counters = shared.counters) (current : changed.current = shared.current)
    (earlier : changed.earlier = shared.earlier) : Account setup id changed tokens := by
  have start : Account setup id shared (0 + tokens) := by simpa using account
  have kept : Account setup id changed (0 + tokens) :=
    start.rebalance current earlier (fun counter => by rw [counters])
      (fun counter => counters ▸ account.ceiled counter) (by simp) (by simp) (by simp) (by simp)
  simpa using kept

theorem Account.hold (account : Account setup id shared (0 + others))
    (installed : snapshot ∈ shared.installed) :
    Account setup id shared ({.held snapshot} + others) := by
  refine account.rebalance rfl rfl ?_ account.ceiled ?_ (by simp [Token.claim]) (by simp)
    (by simp [Token.rule])
  · rintro ⟨⟩ <;> simp [Token.weight]
  · simpa [Token.Sound, Token.rule] using installed

theorem Account.reserve (account : Account setup id shared others) {counter : Counter}
    {token : Token} (room : shared.counters counter < setup.ceiling id counter)
    (units : ∀ other, token.weight other = if other = counter then 1 else 0)
    (sound : token.Sound shared) (claims : ∀ revision nowMs, token.claim revision nowMs = 0)
    (rule : token.rule = 0) :
    Account setup id (shared.setCounter counter (shared.counters counter + 1))
      ({token} + others) := by
  have start : Account setup id shared (0 + others) := by simpa using account
  refine start.rebalance rfl rfl ?_ ?_ (by simp [sound, rule]) (by simp [claims]) (by simp)
    (by simp [rule])
  · intro other
    rw [setCounter_counters, total_zero, total_singleton, units]
    split
    next same => rw [same]
    · rfl
  · intro other
    rw [setCounter_counters]
    split
    next same => subst same; exact room
    · exact account.ceiled other

theorem Account.release (account : Account setup id shared (own + others)) {counter : Counter}
    {amount : Nat}
    (units : ∀ other, total (Token.weight other) own = if other = counter then amount else 0)
    (published : total Token.back own = 0) :
    amount ≤ shared.counters counter ∧
      Account setup id (shared.setCounter counter
        ((shared.counters counter + counterRange - amount) % counterRange)) (0 + others) := by
  have enough : amount ≤ shared.counters counter := by
    rw [account.counted counter, total_add, units counter, if_pos rfl]
    exact Nat.le_add_right _ _
  have exact : (shared.counters counter + counterRange - amount) % counterRange =
      shared.counters counter - amount := by
    have small := lt_of_le_of_lt (account.ceiled counter) (setup.ceiling_lt id counter)
    unfold counterRange at small ⊢
    omega
  refine ⟨enough, account.rebalance rfl rfl ?_ ?_ (by simp) (by simp) (by simp [published])
    (by simp)⟩
  · intro other
    rw [setCounter_counters, units other, exact, total_zero]
    split
    next same => subst same; omega
    · rfl
  · intro other
    rw [setCounter_counters, exact]
    split
    next same => subst same; exact (Nat.sub_le _ _).trans (account.ceiled other)
    · exact account.ceiled other

theorem Account.sole_authority
    (account : Account setup id shared (.authority view ::ₘ own + others)) :
    (∀ other, .authority other ∉ own) ∧ ∀ other, .authority other ∉ others := by
  have none : ∀ (tokens : Multiset Token), total Token.rule tokens = 0 →
      ∀ other, .authority other ∉ tokens := by
    intro tokens weightless other member
    obtain ⟨rest, rfl⟩ := Multiset.exists_cons_of_mem member
    simp [Token.rule] at weightless
  have sole := account.sole
  simp only [total_add, total_cons, Token.rule] at sole
  exact ⟨none own (by omega), none others (by omega)⟩

theorem Account.renew (account : Account setup id shared (.authority view ::ₘ own + others))
    (current : changed.current = shared.current) (earlier : changed.earlier = shared.earlier)
    (counted : ∀ counter, changed.counters counter + total (Token.weight counter) own =
      shared.counters counter + total (Token.weight counter) after)
    (ceiled : ∀ counter, changed.counters counter ≤ setup.ceiling id counter)
    (fresh : ∀ token ∈ after, token ∈ own ∨ token.Sound shared ∧ token.rule = 0)
    (rules : total Token.rule after ≤ total Token.rule own)
    (governed : Governed setup id shared (.authority view ::ₘ own + others) view →
      Governed setup id changed (.authority next ::ₘ after + others) next) :
    Account setup id changed (.authority next ::ₘ after + others) := by
  obtain ⟨notOwn, notOthers⟩ := account.sole_authority
  refine account.stay current earlier ?_ ceiled ?_ ?_ fun other member => ?_
  · intro counter
    have balance := counted counter
    simp only [total_cons, weight_authority]
    omega
  · intro token member
    rcases Multiset.mem_cons.mp member with rfl | new
    · exact .inr trivial
    · exact (fresh token new).imp Multiset.mem_cons_of_mem And.left
  · simpa [Token.rule] using rules
  · rw [Multiset.cons_add, Multiset.mem_cons] at member
    rcases member with same | elsewhere
    · cases same
      exact governed (account.governed view (by simp))
    · rcases Multiset.mem_add.mp elsewhere with new | old
      · rcases fresh _ new with kept | ⟨-, ruleless⟩
        · exact absurd kept (notOwn other)
        · cases ruleless
      · exact absurd old (notOthers other)

/-- An admission reserves an outcome against the snapshot it holds. The reservation counts as
a claim only while that snapshot is current, and then the room was there. -/
theorem Account.reserveOutcome (account : Account setup id shared ({.held snapshot} + others))
    (room : shared.counters .outcomes + 1 + snapshot.policy.liveQuarantines nowMs ≤
      setup.ceiling id .outcomes) :
    Account setup id (shared.setCounter .outcomes (shared.counters .outcomes + 1))
      ({.held snapshot, .provisional snapshot.revision nowMs} + others) := by
  have installed : snapshot ∈ shared.installed := account.held snapshot (by simp)
  have grown : shared.counters .outcomes + 1 = total (Token.weight .outcomes)
      ({.held snapshot, .provisional snapshot.revision nowMs} + others) := by
    rw [account.counted .outcomes]
    simp [Token.weight]
    omega
  refine account.stay rfl rfl ?_ ?_ ?_ (by simp [Token.rule]) fun view member => ?_
  · intro counter
    rw [setCounter_counters]
    cases counter <;> simp [Token.weight]
  · intro counter
    rw [setCounter_counters]
    split
    next same => subst same; omega
    · exact account.ceiled counter
  · simpa [Token.Sound, installed] using account.numbered.revision_le installed
  · have governed := account.governed view (by simpa using member)
    refine ⟨governed.revision, governed.limit, governed.bounded, governed.capped, governed.shown,
      fun lasts laterMs later => ?_⟩
    have old := governed.room lasts laterMs later
    by_cases counts : snapshot.revision = view.revision ∧ nowMs ≤ laterMs
    · have isCurrent : snapshot = shared.current :=
        account.numbered.eq_of_revision lasts installed (counts.1.trans governed.revision)
      have runOut := snapshot.policy.liveQuarantines_antitone counts.2
      have units := total_claim_back_le view.revision laterMs
        ({.held snapshot, .provisional snapshot.revision nowMs} + others)
      rw [← grown] at units
      have owed := old.owed
      have sameBack : total Token.back
          ({.held snapshot, .provisional snapshot.revision nowMs} + others) =
          total Token.back ({.held snapshot} + others) := by simp [Token.back]
      rw [setCounter_current, ← isCurrent] at *
      exact ⟨by omega, by omega, by omega⟩
    · refine old.mono ?_ (by simp [Token.back])
      simp [Token.claim, counts]

theorem Account.issue {atMs : Nat}
    (account : Account setup id shared ({.provisional shared.current.revision atMs} + others)) :
    Account setup id shared ({.issued atMs} + others) := by
  refine account.rebalance rfl rfl ?_ account.ceiled (by simp [Token.Sound, Token.rule]) ?_
    (by simp [Token.back])
    (by simp [Token.rule])
  · intro counter
    cases counter <;> simp [Token.weight]
  · intro nowMs
    simp [Token.claim]

theorem Account.publish {amount : Nat} (account : Account setup id shared
      (.authority view ::ₘ Multiset.replicate amount .returning + others))
    (manager : snapshot.manager = id)
    (maxPendingDials : snapshot.maxPendingDials = setup.ceiling id .pending)
    (maxConnections : snapshot.maxConnections = setup.ceiling id .connections)
    (policy : snapshot.policy = view.policy)
    (revision : snapshot.revision = add64 view.revision 1) :
    Account setup id (shared.install snapshot)
      (.authority { view with revision := snapshot.revision, unpublished := none } ::ₘ
        Multiset.replicate amount .returned + others) := by
  have governed := account.governed view (by simp)
  obtain ⟨-, notOthers⟩ := account.sole_authority
  have numbered := account.numbered.1
  have place : snapshot.revision = min shared.installed.length u64Max := by
    rw [revision, governed.revision, numbered, Shared.installed, List.length_cons, add64]
    omega
  refine account.move ⟨place, account.numbered⟩ ?_ (List.subset_cons_self _ _) ?_ ?_
    account.ceiled ?_ (by simp [Token.rule]) fun other member => ?_
  · intro other member
    rcases List.mem_cons.mp member with rfl | older
    · exact ⟨manager, maxPendingDials, maxConnections, policy ▸ governed.limit,
        policy ▸ governed.bounded⟩
    · exact account.made other older
  · change shared.current.revision ≤ snapshot.revision
    rw [place, numbered, Shared.installed, List.length_cons]
    exact min_le_min_right _ (Nat.le_succ _)
  · intro counter
    change shared.counters counter + _ = _
    simp only [total_cons, total_replicate, weight_authority]
    cases counter <;> rfl
  · intro token member
    rw [Multiset.mem_cons, Multiset.mem_replicate] at member
    rcases member with rfl | ⟨-, rfl⟩ <;> exact .inr trivial
  · rw [Multiset.cons_add, Multiset.mem_cons, Multiset.mem_add, Multiset.mem_replicate] at member
    rcases member with same | ⟨-, absurdity⟩ | old
    · cases same
      refine ⟨rfl, governed.limit, governed.bounded, governed.capped, ?_, ?_⟩
      · intro key untilMs quarantined _
        change snapshot.policy.QuarantinedUntil key untilMs
        rw [policy]
        exact quarantined
      · intro lasts nowMs later
        have lastsNow : shared.earlier.length + 1 < counterRange := lasts
        have old := governed.room (by omega) nowMs later
        have fewer : total (Token.claim snapshot.revision nowMs)
            (.authority { view with revision := snapshot.revision, unpublished := none } ::ₘ
              Multiset.replicate amount .returned + others) ≤
            total (Token.claim view.revision nowMs)
              (.authority view ::ₘ Multiset.replicate amount .returning + others) := by
          simp only [total_add, total_cons, total_replicate, Token.claim, Nat.mul_zero,
            Nat.zero_add]
          refine total_le fun token member => ?_
          cases token with
          | provisional made atMs =>
            have older := account.provisional made atMs (by simp [member])
            have stale : made ≠ snapshot.revision := by
              have longer : shared.installed.length = shared.earlier.length + 1 := rfl
              have range : u64Max + 1 = counterRange := rfl
              omega
            simp [Token.claim, stale]
          | _ => simp [Token.claim]
        have own := old.own
        have sameLive : (shared.install snapshot).current.policy = view.policy := policy
        rw [sameLive]
        exact ⟨by simp only; omega, by simp only; omega, Nat.le_add_right _ _⟩
    · cases absurdity
    · exact absurd old (notOthers other)

theorem Account.handOver {key : AddressKey} {policy : ConnectionPolicy}
    (account : Account setup id shared ({.authority view} + others))
    (room : shared.counters .outcomes + 1 + view.policy.liveQuarantines nowMs ≤
      setup.ceiling id .outcomes) (order : nowMs ≤ view.clockMs)
    (gentle : Gentle noPair (· = key) nowMs view.policy policy) :
    Account setup id (shared.setCounter .outcomes (shared.counters .outcomes + 1))
      ({.authority { view with policy := policy }, .returning} + others) := by
  have start : Account setup id shared (.authority view ::ₘ 0 + others) := account
  refine start.renew rfl rfl ?_ ?_ (by simp [Token.Sound, Token.rule]) (by simp [Token.rule]) ?_
  · intro counter
    rw [setCounter_counters]
    cases counter <;> simp [Token.weight]
  · intro counter
    rw [setCounter_counters]
    split
    next same => subst same; omega
    · exact account.ceiled counter
  · intro governed
    refine ⟨governed.revision, gentle.framed.maxAddresses.trans governed.limit,
      gentle.bounded governed.bounded,
      fun other untilMs held => governed.capped other untilMs (gentle.noneAdded other untilMs held),
      fun other untilMs held => governed.shown other untilMs (gentle.noneAdded other untilMs held),
      fun lasts laterMs later => ?_⟩
    have old := governed.room lasts laterMs later
    have surfaced := liveQuarantines_le_succ fun other live =>
      gentle.live laterMs (order.trans later) other live
    have runOut := view.policy.liveQuarantines_antitone (order.trans later)
    have units := total_claim_back_le view.revision laterMs ({.authority view} + others)
    rw [← account.counted .outcomes] at units
    have published := old.published
    have owed := old.owed
    constructor <;> simp [Token.claim, Token.back] at * <;> omega

theorem Account.evolve {cleared : AddressKey → Prop}
    (account : Account setup id shared ({.authority view} + others))
    (revision : next.revision = view.revision) (unpublished : next.unpublished = view.unpublished)
    (clock : view.clockMs ≤ next.clockMs)
    (gentle : Gentle cleared noPair next.clockMs view.policy next.policy) :
    Account setup id shared ({.authority next} + others) := by
  refine account.renew rfl rfl (fun _ => rfl) account.ceiled (fun _ kept => .inl kept) le_rfl ?_
  intro governed
  refine ⟨revision.trans governed.revision, gentle.framed.maxAddresses.trans governed.limit,
    gentle.bounded governed.bounded, fun key untilMs held => ?_, fun key untilMs held => ?_,
    fun lasts laterMs later => ?_⟩
  · exact (governed.capped key untilMs (gentle.noneAdded key untilMs held)).trans
      (add64_le_add64 clock _)
  · rw [unpublished]
    exact governed.shown key untilMs (gentle.noneAdded key untilMs held)
  · have old := governed.room lasts laterMs (clock.trans later)
    have less := gentle.liveQuarantines_le later
    rw [revision]
    have published := old.published
    have own := old.own
    have owed := old.owed
    constructor <;> simp [Token.claim, Token.back] at * <;> omega

theorem Account.mismatch {key : AddressKey} {atMs : Nat}
    (account : Account setup id shared ({.authority view, .issued atMs} + others))
    (revision : next.revision = view.revision) (clean : view.unpublished = none)
    (unpublished : next.unpublished = some key) (clock : view.clockMs ≤ next.clockMs)
    (now : nowMs ≤ next.clockMs) (admitted : atMs ≤ next.clockMs)
    (punishes : Punishes key (add64 nowMs identityMismatchQuarantineMs) nowMs
      view.policy next.policy) :
    Account setup id shared ({.authority next, .returning} + others) := by
  refine account.renew rfl rfl ?_ account.ceiled ?_ (by simp [Token.rule]) ?_
  · intro counter
    cases counter <;> simp [Token.weight]
  · intro token member
    rcases Multiset.mem_cons.mp member with rfl | kept
    · exact .inr ⟨trivial, rfl⟩
    · cases kept
  · intro governed
    refine ⟨revision.trans governed.revision, punishes.framed.maxAddresses.trans governed.limit,
      punishes.bounded governed.bounded, fun other untilMs held => ?_,
      fun other untilMs held apart => ?_, fun lasts laterMs later => ?_⟩
    · rcases punishes.onlyAdded other untilMs held with ⟨-, same⟩ | old
      · rw [same]
        exact add64_le_add64 now _
      · exact (governed.capped other untilMs old).trans (add64_le_add64 clock _)
    · rw [unpublished] at apart
      rcases punishes.onlyAdded other untilMs held with ⟨rfl, -⟩ | old
      · exact absurd rfl apart
      · exact governed.shown other untilMs old (by simp [clean])
    · have old := governed.room lasts laterMs (clock.trans later)
      have more := liveQuarantines_le_succ fun other live =>
        punishes.live laterMs (now.trans later) other live
      have claims : total (Token.claim view.revision laterMs)
          (.authority view ::ₘ {.issued atMs} + others) =
          1 + total (Token.claim view.revision laterMs)
            (.authority next ::ₘ {.returning} + others) := by
        simp [Token.claim, admitted.trans later]
      have backs : total Token.back (.authority next ::ₘ {.returning} + others) =
          1 + total Token.back (.authority view ::ₘ {.issued atMs} + others) := by
        simp [Token.back]
      obtain ⟨published, own, owed⟩ := old
      rw [claims] at published own
      rw [revision]
      exact ⟨by omega, by omega, by omega⟩

theorem Account.forget (account : Account setup id shared (own + others))
    (weightless : ∀ counter, total (Token.weight counter) own = 0) :
    Account setup id shared (0 + others) := by
  have noBack : total Token.back own ≤ total (Token.weight .outcomes) own :=
    total_le fun token _ => by cases token <;> simp [Token.back, Token.weight]
  have none := weightless .outcomes
  exact account.rebalance rfl rfl (fun counter => by simp [weightless]) account.ceiled (by simp)
    (by simp) (by simp; omega) (by simp)

theorem Account.quiet (account : Account setup id shared (own + others))
    (quiet : Quiet horizon own after) : Account setup id shared (after + others) := by
  cases quiet with
  | forget idle => exact account.forget idle.weightless
  | settle =>
    refine account.rebalance rfl rfl ?_ account.ceiled (by simp [Token.Sound, Token.rule])
      (by simp [Token.claim]) (by simp [Token.back]) (by simp [Token.rule])
    intro counter
    cases counter <;> simp [Token.weight]
  | evolve revision unpublished clock _ gentle _ _ =>
    exact account.evolve revision unpublished clock gentle
  | mismatch revision clean unpublished clock _ now admitted _ _ punishes =>
    exact account.mismatch revision clean unpublished clock now admitted punishes

theorem Account.trade {op : Op} {ans : op.Ans}
    (account : Account setup op.manager shared (own + others))
    (trade : Trade setup op ans own after) (exec : shared.Exec op ans changed) :
    Account setup op.manager changed (after + others) := by
  cases trade with
  | load | exchangeFailed | loadShuttingDown => cases exec; exact account
  | storeShuttingDown | upgradeManager | dropManagerRef =>
    cases exec <;> exact account.unaffected rfl rfl rfl
  | dropManager =>
    cases exec
    have forgotten := account.forget (by rintro ⟨⟩ <;> rfl)
    exact forgotten.unaffected rfl rfl rfl
  | readCurrent _ => cases exec <;> exact account
  | readPublished _ =>
    cases exec
    exact account.hold List.mem_cons_self
  | reservePending room | reserveConnection room =>
    cases exec with | exchanged seen =>
    subst seen
    simp only [zero_add] at account
    exact account.reserve room (by rintro ⟨⟩ <;> rfl) trivial (fun _ _ => rfl) rfl
  | reserveOutcome room =>
    cases exec with | exchanged seen =>
    subst seen
    exact account.reserveOutcome room
  | issue =>
    cases exec
    exact account.issue
  | release units published _ =>
    cases exec
    exact (account.release units published).2
  | publish manager maxPendingDials maxConnections policy revision =>
    cases exec
    exact account.publish manager maxPendingDials maxConnections policy revision
  | handOver room order gentle =>
    cases exec with | exchanged seen =>
    subst seen
    exact account.handOver room order gentle

end

end InterWeave
