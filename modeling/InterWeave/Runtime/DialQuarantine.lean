import InterWeave.Runtime.DialMismatch
import InterWeave.Runtime.DialPlay

/-!
A quarantine holds for its whole term. No call but a success for the pair itself takes it from
the manager's policy, and so from what the manager publishes, while every call is told a time
before its end.
-/

namespace InterWeave

open Concurrent Saturating ConnectionPolicy

variable {task : Task}

def ConnectionPolicy.HeldUntil (policy : ConnectionPolicy) (key : AddressKey) (untilMs : Nat) :
    Prop :=
  ∃ laterMs ≥ untilMs, policy.QuarantinedUntil key laterMs

def ConnectionPolicy.Refuses (policy : ConnectionPolicy) (key : AddressKey) (nowMs : Nat) : Prop :=
  ∀ origin cls, ∃ denial,
    policy.admitDial ⟨some key.peer, key.address, origin⟩ cls nowMs = .error denial

theorem ConnectionPolicy.HeldUntil.refuses {policy : ConnectionPolicy}
    (held : policy.HeldUntil key untilMs) (early : nowMs < untilMs) :
    policy.Refuses key nowMs := by
  obtain ⟨laterMs, longer, quarantined⟩ := held
  exact admit_quarantined quarantined (early.trans_le longer)

theorem ConnectionPolicy.HeldUntil.gentle (held : before.HeldUntil key untilMs)
    (early : nowMs < untilMs) (gentle : Gentle cleared surfaced nowMs before after)
    (kept : ¬cleared key) :
    after.HeldUntil key untilMs := by
  obtain ⟨laterMs, longer, quarantined⟩ := held
  exact ⟨laterMs, longer, gentle.kept key laterMs kept quarantined (early.trans_le longer)⟩

structure Promised (key : AddressKey) (untilMs : Nat) (shared : Shared)
    (tokens : Multiset Token) : Prop where
  published : shared.current.policy.HeldUntil key untilMs
  own : ∀ view, .authority view ∈ tokens → view.policy.HeldUntil key untilMs
  barred : ∀ view, .authority view ∈ tokens → view.right ≠ .clears key ∧ view.right ≠ .late

namespace Promised

variable {setup : Setup} {horizon untilMs : Nat} {id : ManagerId} {key : AddressKey}
  {shared changed : Shared} {own after others tokens fewer : Multiset Token}

theorem of_subset (promised : Promised key untilMs shared tokens)
    (current : changed.current = shared.current)
    (subset : ∀ view, .authority view ∈ fewer → .authority view ∈ tokens) :
    Promised key untilMs changed fewer :=
  ⟨current ▸ promised.published, fun view member => promised.own view (subset view member),
    fun view member => promised.barred view (subset view member)⟩

theorem renew (promised : Promised key untilMs shared (.authority view ::ₘ own + others))
    (published : changed.current.policy.HeldUntil key untilMs)
    (held : next.policy.HeldUntil key untilMs)
    (right : next.right = view.right ∨ next.right = .none)
    (plain : ∀ view, .authority view ∉ given) :
    Promised key untilMs changed (.authority next ::ₘ given + others) := by
  have cases : ∀ other, .authority other ∈ .authority next ::ₘ given + others →
      other = next ∨ .authority other ∈ .authority view ::ₘ own + others := by
    intro other member
    simp only [Multiset.cons_add, Multiset.mem_cons, Multiset.mem_add, Token.authority.injEq,
      plain, false_or] at member ⊢
    exact member.imp_right fun elsewhere => .inr (.inr elsewhere)
  have barred := promised.barred view (by simp)
  refine ⟨published, fun other member => ?_, fun other member => ?_⟩
  · rcases cases other member with rfl | older
    · exact held
    · exact promised.own other older
  · rcases cases other member with rfl | older
    · rcases right with same | none
      · rwa [same]
      · simp [none]
    · exact promised.barred other older

theorem quiet (promised : Promised key untilMs shared (own + others))
    (account : Account setup id shared (own + others)) (clocked : Clocked horizon (own + others))
    (early : horizon < untilMs) (quiet : Quiet horizon own after) :
    Promised key untilMs shared (after + others) := by
  cases quiet with
  | forget _ => exact promised.of_subset rfl (by simp +contextual)
  | settle => exact promised.of_subset rfl (by simp)
  | @evolve view next _ _ _ _ told gentle allowed right =>
    have held := promised.own view (by simp)
    have known := clocked view (by simp)
    refine promised.renew promised.published (held.gentle (by omega) gentle fun cleared => ?_) right
      (by simp)
    exact (promised.barred view (by simp)).1 (allowed key cleared)
  | @mismatch view next other nowMs _ _ _ _ clock told now _ onTime right punishes =>
    have held := promised.own view (by simp)
    have known := clocked view (by simp)
    refine promised.renew promised.published ?_ (.inr right) (by simp)
    obtain ⟨laterMs, longer, quarantined⟩ := held
    by_cases same : key = other
    · subst same
      have capped := (account.governed view (by simp)).capped key laterMs quarantined
      have order := onTime.resolve_right (promised.barred view (by simp)).2
      exact ⟨_, longer.trans (capped.trans (add64_le_add64 order _)), punishes.punished⟩
    · exact ⟨laterMs, longer, punishes.kept key laterMs same quarantined (by omega)⟩

theorem trade (promised : Promised key untilMs shared (own + others))
    (clocked : Clocked horizon (own + others)) (early : horizon < untilMs)
    (trade : Trade setup op ans own after) (executed : shared.Exec op ans changed) :
    Promised key untilMs changed (after + others) := by
  cases trade with
  | @publish _ view snapshot amount _ _ _ policy _ =>
    cases executed
    have held := promised.own view (by simp)
    exact promised.renew (policy ▸ held) held (.inl rfl) (by simp [Multiset.mem_replicate])
  | @handOver _ view _ nowMs other policy _ order gentle =>
    have held := promised.own view (by simp)
    have known := clocked view (by simp)
    have current : changed.current = shared.current := by
      cases executed
      rfl
    exact promised.renew (current ▸ promised.published)
      (held.gentle (by omega) gentle id) (.inl rfl) (by simp)
  | _ =>
    refine promised.of_subset ?_ (by simp +contextual)
    cases executed <;> rfl

end Promised

def Task.Upholds (id : ManagerId) (key : AddressKey) : Task → Prop
  | .manage manager call =>
    manager.id = id → call.right manager ≠ .clears key ∧ call.right manager ≠ .late
  | _ => True

section

variable {setup : Setup} {horizon untilMs : Nat} {id : ManagerId} {key : AddressKey}

def Dial.holding (setup : Setup) (horizon : Nat) (id : ManagerId) (key : AddressKey)
    (untilMs : Nat) : Contract Op Op.Ans World Rest Task TaskResult Ledger :=
  { Dial.contract setup horizon with
    inv := fun world ledger => Accounted setup horizon world ledger ∧
      Promised key untilMs (world id) (ledger id) }

theorem promised_change {world changed : World}
    (promised : Promised key untilMs (world id) ((owned other own + others) id))
    (elsewhere : id ≠ other → changed id = world id)
    (here : Promised key untilMs (world other) (own + others other) →
      Promised key untilMs (changed other) (after + others other)) :
    Promised key untilMs (changed id) ((owned other after + others) id) := by
  by_cases same : id = other
  · subst same
    simp only [Pi.add_apply, owned_self] at promised ⊢
    exact here promised
  · simp only [Pi.add_apply, owned_other same] at promised ⊢
    rwa [elsewhere same]

theorem begin_views (begun : Dial.Begin world rest task left)
    (member : .authority view ∈ (left.ledger + (task.brings + others)) id) :
    .authority view ∈ (rest.ledger + others) id ∨
      ∃ manager call, task = .manage manager call ∧ manager.id = id ∧
        view = { manager.view none with right := call.right manager } ∧
        .authority (manager.view none) ∈ (rest.ledger + others) id := by
  cases begun with
  | admitDial _ =>
    left
    have apart : ∀ snapshot : PolicySnapshot,
        .authority view ∉ owned snapshot.manager {.held snapshot} id := by
      intro snapshot
      by_cases same : id = snapshot.manager
      · simp [same, owned_self]
      · simp [owned_other same]
    simpa [Task.brings, apart] using member
  | handleAdmit => simpa [Task.brings] using member
  | @manage _ manager call =>
    have atRest := @Rest.authority ⟨manager ::ₘ left.managers, call.ticket.toList + left.tickets,
      call.slot.toList + left.slots⟩ manager (Multiset.mem_cons_self _ _)
    by_cases same : id = manager.id
    · subst same
      simp only [Task.brings, Rest.ledger, Call.brings, ConnectionManager.licensed,
        managerLedger_cons, ticketLedger_add, slotLedger_add, Pi.add_apply, owned_self,
        Multiset.mem_add, Multiset.mem_cons, Multiset.mem_replicate, Token.authority.injEq,
        reduceCtorEq, and_false, or_false] at member ⊢
      tauto
    · left
      simp only [Task.brings, Rest.ledger, Call.brings, managerLedger_cons, ticketLedger_add,
        slotLedger_add, Pi.add_apply, owned_other same, Multiset.mem_add] at member ⊢
      tauto
  | _ =>
    left
    simp only [Task.brings, Rest.ledger, managerLedger_cons, ticketLedger_cons, slotLedger_cons,
      Pi.add_apply, Multiset.mem_add] at member ⊢
    tauto

theorem Dial.holding_kept (early : horizon < untilMs) :
    (Dial.holding setup horizon id key untilMs).Kept Dial.system
      (fun task => task.Within horizon ∧ task.Upholds id key) where
  body := body_follows
  possible := fun inv => inv.1.possible
  exec := by
    rintro world changed op ans own after others ⟨accounted, promised⟩ move executed
    refine ⟨accounted.exec move executed, ?_⟩
    obtain ⟨mine, given, spare, trade, rfl, rfl⟩ := move
    obtain ⟨shared, executed, rfl⟩ := executed
    rw [add_assoc] at accounted promised ⊢
    refine promised_change promised (fun apart => by simp [apart]) fun promised => ?_
    rw [Function.update_self]
    have clocked := (accounted op.manager).2.1
    rw [Pi.add_apply, owned_self] at clocked
    exact promised.trade clocked early trade executed
  silent := by
    rintro world own after others ⟨accounted, promised⟩ quiet
    refine ⟨accounted.silent quiet, ?_⟩
    induction quiet with
    | refl => exact promised
    | @tail middle last before step ih =>
      have reached := accounted.silent before
      obtain ⟨other, mine, given, spare, quiet, rfl, rfl⟩ := step
      rw [add_assoc] at ih reached ⊢
      refine promised_change ih (fun _ => rfl) fun promised => ?_
      obtain ⟨account, clocked, -⟩ := reached other
      rw [Pi.add_apply, owned_self] at account clocked
      exact promised.quiet account clocked early quiet
  start := by
    rintro world rest task left others sound ⟨told, upholds⟩ begun ⟨accounted, promised⟩
    obtain ⟨soundLeft, taskSound, accountedLeft⟩ :=
      (Dial.contract_kept setup horizon).start sound told begun accounted
    refine ⟨soundLeft, taskSound, accountedLeft, promised.published, fun view member => ?_,
      fun view member => ?_⟩
    · rcases begin_views begun member with old | ⟨manager, call, rfl, named, rfl, old⟩
      · exact promised.own view old
      · exact promised.own (manager.view none) old
    · rcases begin_views begun member with old | ⟨manager, call, rfl, named, rfl, old⟩
      · exact promised.barred view old
      · exact upholds named
  finish := by
    rintro world rest task result own others sound taskSound leaves ⟨accounted, promised⟩
    obtain ⟨soundAfter, same⟩ := putBack_ledger sound taskSound leaves
    have together : (Dial.putBack rest result).ledger + others = rest.ledger + (own + others) := by
      rw [same, add_assoc]
    refine ⟨soundAfter, ?_⟩
    change Accounted setup horizon world ((Dial.putBack rest result).ledger + others) ∧
      Promised key untilMs (world id) (((Dial.putBack rest result).ledger + others) id)
    rw [together]
    exact ⟨accounted, promised⟩

theorem Account.authority_unique (account : Account setup id shared tokens)
    (member : .authority view ∈ tokens) (second : .authority other ∈ tokens) : other = view := by
  obtain ⟨rest, rfl⟩ := Multiset.exists_cons_of_mem member
  rcases Multiset.mem_cons.mp second with same | elsewhere
  · exact Token.authority.inj same
  · rw [← add_zero (_ ::ₘ rest)] at account
    exact absurd elsewhere (account.sole_authority.1 other)

end

def Task.Clears (id : ManagerId) (key : AddressKey) : Task → Prop
  | .manage manager (.recordSuccess ticket _) => manager.id = id ∧ ticket.manager = id ∧
      ticket.peer = some key.peer ∧ ticket.address = key.address
  | _ => False

def Task.Dials (id : ManagerId) (key : AddressKey) : Task → Prop
  | .admitDial snapshot request _ => snapshot.manager = id ∧ request.peer = some key.peer ∧
      request.address = key.address
  | .handleAdmit manager request _ => manager = id ∧ request.peer = some key.peer ∧
      request.address = key.address
  | _ => False

section

variable {setup : Setup} {labels more : List (Label Op Op.Ans Task TaskResult)}
  {config last : Config Op Op.Ans World Rest Task TaskResult} {manager : ConnectionManager}
  {id : ManagerId} {key : AddressKey} {nowMs untilMs thread : Nat}

theorem mismatch_on_time (reaches : Dial.Reaches setup labels config)
    (ordered : (Dial.times labels).Pairwise (· ≤ ·))
    (began : .start thread (.manage manager (.recordIdentityMismatch ticket nowMs)) ∈ labels) :
    manager.clockMs ≤ nowMs := by
  obtain ⟨before, after, here, next, rfl, toHere, step, -⟩ := reaches.at began
  have told : Dial.ToldBy nowMs before := by
    intro label member
    cases label with
    | start other task =>
      intro atMs isTold
      have earlier : atMs ∈ Dial.times before := List.mem_filterMap.mpr ⟨_, member, isTold⟩
      simp only [Dial.times, List.filterMap_append, List.pairwise_append] at ordered
      exact ordered.2.2 atMs earlier nowMs (List.mem_filterMap.mpr ⟨_, List.mem_cons_self, rfl⟩)
    | act | finish => trivial
  obtain ⟨-, _, -, -, accounted⟩ := Dial.Reaches.covers toHere told
  obtain ⟨taken⟩ | _ | _ := step
  obtain _ | _ | _ | _ | _ | _ | _ := taken
  exact (accounted manager.id).2.1 (manager.view none)
    (Multiset.mem_add.mpr (.inl (Rest.authority (Multiset.mem_cons_self manager _))))

theorem task_upholds (reaches : Dial.Reaches setup labels config)
    (ordered : (Dial.times labels).Pairwise (· ≤ ·)) (began : .start thread task ∈ labels)
    (uncleared : ¬task.Clears id key) : task.Upholds id key := by
  cases task with
  | manage manager call =>
    intro named
    cases call with
    | recordSuccess ticket atMs =>
      simp only [Call.right]
      split
      · simp
      next peer isPeer =>
        split
        next own =>
          refine ⟨fun same => uncleared ?_, by simp⟩
          cases same
          exact ⟨named, own.trans named, isPeer, rfl⟩
        next => simp
    | recordIdentityMismatch ticket atMs =>
      have order := mismatch_on_time reaches ordered began
      simp [Call.right, Nat.not_lt.mpr order]
    | _ => exact ⟨by simp [Call.right], by simp [Call.right]⟩
  | _ => trivial

theorem quarantine_promised (reaches : Dial.Reaches setup labels config)
    (run : Run Dial.system config more last)
    (ordered : (Dial.times (labels ++ more)).Pairwise (· ≤ ·))
    (told : Dial.ToldBy nowMs (labels ++ more)) (early : nowMs < untilMs)
    (atRest : manager ∈ config.rest.managers)
    (quarantined : manager.policy.QuarantinedUntil key untilMs)
    (uncleared : ∀ thread task, .start thread task ∈ more → ¬task.Clears manager.id key) :
    (Dial.holding setup nowMs manager.id key untilMs).Covers last := by
  obtain ⟨sound, owned, listed, each, accounted⟩ :=
    reaches.covers fun label member => told label (List.mem_append_left _ member)
  have account := (accounted manager.id).1
  have member : .authority (manager.view none) ∈
      (config.rest.ledger + (owned.map Prod.snd).sum) manager.id :=
    Multiset.mem_add.mpr (.inl (Rest.authority atRest))
  have held : manager.policy.HeldUntil key untilMs := ⟨untilMs, le_rfl, quarantined⟩
  have shown := (account.governed _ member).shown key untilMs quarantined
    (by simp [ConnectionManager.view])
  have covers : (Dial.holding setup nowMs manager.id key untilMs).Covers config := by
    refine ⟨sound, owned, listed, each, accounted, ⟨untilMs, le_rfl, shown⟩, fun view other => ?_,
      fun view other => ?_⟩
    · rw [account.authority_unique member other]
      exact held
    · rw [account.authority_unique member other]
      simp [ConnectionManager.view]
  refine (Dial.holding_kept early).run covers run fun label taken => ?_
  cases label with
  | start thread task =>
    have began : .start thread task ∈ labels ++ more := List.mem_append_right _ taken
    exact ⟨told _ began,
      task_upholds (reaches.append run) ordered began (uncleared thread task taken)⟩
  | act | finish => trivial

theorem Numbered.eq_of_same_revision (numbered : Numbered snapshots)
    (lasts : snapshots.length ≤ counterRange) (first : one ∈ snapshots) (second : two ∈ snapshots)
    (same : one.revision = two.revision) : one = two := by
  induction snapshots with
  | nil => cases first
  | cons newest earlier ih =>
    have few : earlier.length < counterRange := lasts
    rcases List.mem_cons.mp first with rfl | older
    · exact (numbered.eq_of_revision few second same.symm).symm
    · rcases List.mem_cons.mp second with rfl | olderToo
      · exact numbered.eq_of_revision few first same
      · exact ih numbered.2 few.le older olderToo

/-- A ticket issued by an admission of a later stretch was allowed by a snapshot that was
current in that stretch: a handle has read it there, and while the manager's revisions last
every check has found it there. -/
theorem allowed_currently (reaches : Dial.Reaches setup labels config)
    (run : Run Dial.system config more last) (began : .start thread task ∈ more)
    (dials : task.Dials id key)
    (lasts : (∃ request atMs, task = .handleAdmit id request atMs) ∨
      (last.world id).earlier.length < counterRange)
    (issued : .finish thread (.admitted (.ok ticket)) ∈ more) :
    ∃ before here atMs origin cls, before.Sublist more ∧ Run Dial.system config before here ∧
      atMs ∈ task.nowMs ∧ (here.world id).current.policy.admitDial
        ⟨some key.peer, key.address, origin⟩ cls atMs = .ok () := by
  have whole := reaches.append run
  obtain ⟨sameTask, beganToo, path⟩ :=
    whole.traced.finished thread _ (List.mem_append_right _ issued)
  obtain rfl :=
    (whole.traced.started thread task (List.mem_append_right _ began)).2 sameTask beganToo
  have onlyHere : eventsOf thread (labels ++ more) = eventsOf thread more := by
    obtain ⟨before, after, here, next, -, toHere, step, -⟩ := run.at began
    cases step with
    | start _ =>
      have none := (reaches.append toHere).traced.fresh _ le_rfl
      rw [eventsOf_append, List.append_eq_nil_iff] at none
      rw [eventsOf_append, none.1, List.nil_append]
  rw [onlyHere] at path
  obtain ⟨snapshot, first, asked, asks, through, ⟨cls, allowed⟩, -, current, same, events⟩ :=
    task_decides path
  have conclude : ∀ {before : List (Label Op Op.Ans Task TaskResult)}
      {here : Config Op Op.Ans World Rest Task TaskResult}, before.Sublist more →
      Run Dial.system config before here → (here.world id).current = snapshot →
      ∃ before here atMs origin cls, before.Sublist more ∧ Run Dial.system config before here ∧
        atMs ∈ task.nowMs ∧ (here.world id).current.policy.admitDial
          ⟨some key.peer, key.address, origin⟩ cls atMs = .ok () := by
    intro before here part toHere found
    refine ⟨before, here, asked.2, asked.1.origin, cls, part, toHere, ?_, ?_⟩
    · cases task <;> cases asks <;> rfl
    · rw [found, ← allowed]
      cases task <;> cases asks
      all_goals
        obtain ⟨-, peer, address⟩ := dials
        rw [← peer, ← address]
  cases task with
  | handleAdmit manager request atMs =>
    obtain rfl : manager = id := dials.1
    have read : ⟨.readPublished manager, snapshot⟩ ∈ eventsOf thread more :=
      events ▸ List.mem_append_left _ through
    obtain ⟨before, here, changed, part, toHere, executed, -⟩ := run_found run read
    exact conclude part toHere executed.read_published.1.symm
  | admitDial held request atMs =>
    obtain rfl : held = snapshot := through
    obtain rfl : held.manager = id := dials.1
    have read : ⟨.readCurrent held.manager, some current⟩ ∈ eventsOf thread more :=
      events ▸ List.mem_append_right _ (by simp [PolicySnapshot.passing])
    obtain ⟨before, here, changed, part, toHere, executed, later⟩ := run_found run read
    obtain ⟨rfl, rfl⟩ := executed.read_current
    have few : (last.world held.manager).installed.length ≤ counterRange :=
      lasts.resolve_left (by simp)
    obtain ⟨tokens, account⟩ := Dial.Reaches.account whole held.manager
    have installed := through_installed whole beganToo rfl
    have isCurrent := account.numbered.eq_of_same_revision few installed
      (later.member List.mem_cons_self) same
    exact conclude part toHere isCurrent.symm
  | _ => exact through.elim

/-- A quarantine holds for its whole term. While calls are told times in order and before its
end, and no success is recorded for exactly its pair: the manager's policy and the policy it
publishes refuse every dial of the pair and stay within both bounds; and no admission issues a
ticket for the pair, through a handle or, while the manager's revisions last, through any
snapshot whatever. -/
theorem quarantine_holds (reaches : Dial.Reaches setup labels config)
    (run : Run Dial.system config more last)
    (ordered : (Dial.times (labels ++ more)).Pairwise (· ≤ ·))
    (told : Dial.ToldBy nowMs (labels ++ more)) (early : nowMs < untilMs)
    (atRest : manager ∈ config.rest.managers)
    (quarantined : manager.policy.QuarantinedUntil key untilMs)
    (uncleared : ∀ thread task, .start thread task ∈ more → ¬task.Clears manager.id key) :
    (∀ later ∈ last.rest.managers, later.id = manager.id →
      later.policy.Refuses key nowMs ∧ later.policy.Bounded) ∧
    ((last.world manager.id).current.policy.Refuses key nowMs ∧
      (last.world manager.id).current.policy.Bounded) ∧
    ∀ thread task ticket, .start thread task ∈ more → task.Dials manager.id key →
      ((∃ request atMs, task = .handleAdmit manager.id request atMs) ∨
        (last.world manager.id).earlier.length < counterRange) →
      .finish thread (.admitted (.ok ticket)) ∉ more := by
  have promised : ∀ {before : List (Label Op Op.Ans Task TaskResult)}
      {here : Config Op Op.Ans World Rest Task TaskResult}, before.Sublist more →
      Run Dial.system config before here →
      (Dial.holding setup nowMs manager.id key untilMs).Covers here := by
    intro before here part toHere
    have fewer := (List.Sublist.refl labels).append part
    exact quarantine_promised reaches toHere (ordered.sublist (fewer.filterMap _))
      (fun label member => told label (fewer.subset member)) early atRest quarantined
      fun thread task began => uncleared thread task (part.subset began)
  obtain ⟨-, owned, -, -, accounted, kept⟩ := promised (List.Sublist.refl _) run
  have account := (accounted manager.id).1
  refine ⟨fun later member named => ?_,
    ⟨kept.published.refuses early, (account.made _ List.mem_cons_self).bounded⟩, ?_⟩
  · have ruling : .authority (later.view none) ∈
        (last.rest.ledger + (owned.map Prod.snd).sum) manager.id :=
      Multiset.mem_add.mpr (.inl (named ▸ Rest.authority member))
    exact ⟨(kept.own _ ruling).refuses early, (account.governed _ ruling).bounded⟩
  · intro thread task ticket began dials lasts issued
    obtain ⟨before, here, atMs, origin, cls, part, toHere, isTold, allowed⟩ :=
      allowed_currently reaches run began dials lasts issued
    obtain ⟨-, _, -, -, -, keptHere⟩ := promised part toHere
    have within := told _ (List.mem_append_right _ began) atMs isTold
    obtain ⟨denial, refused⟩ := keptHere.published.refuses (within.trans_lt early) origin cls
    rw [allowed] at refused
    cases refused

end

instance Task.clearsDecides (manager : ManagerId) : Decidable (Task.Clears manager key task) := by
  unfold Task.Clears
  split <;> infer_instance

instance Task.dialsDecides (manager : ManagerId) : Decidable (Task.Dials manager key task) := by
  unfold Task.Dials
  split <;> infer_instance

namespace DialSample

open Dial

/-- A dial of the first address meets another identity. -/
@[irreducible]
def mismatched : List (Label Op Op.Ans Task TaskResult) × Table :=
  (opening roomy).play (entrust trust :: through ++ dial "a" 0 :: through ++
    .settle (.recordIdentityMismatch · 1) (fun _ => ⟨rfl, rfl⟩) :: through)

/-- Later another address is dialled and fails, and the first is dialled again. -/
@[irreducible]
def insisting : List (Label Op Op.Ans Task TaskResult) × Table :=
  mismatched.2.play (dial "b" 2 :: through ++
    .settle (.recordFailure · 3) (fun _ => ⟨rfl, rfl⟩) :: through ++ dial "a" 4 :: through)

end DialSample

open DialSample

/-- After a mismatch its pair is refused while another address of the peer is dialled and fails. -/
theorem quarantine_holds_sample : Dial.Reaches roomy mismatched.1 mismatched.2.config ∧
    Run Dial.system mismatched.2.config insisting.1 insisting.2.config ∧
    Dial.times insisting.1 = [2, 3, 4] ∧
    (insisting.2.world 0).current.policy.Refuses ⟨remote, "a"⟩ 4 ∧
    ∃ thread task, .start thread task ∈ insisting.1 ∧ task.Dials 0 ⟨remote, "a"⟩ ∧
      ∀ ticket, .finish thread (.admitted (.ok ticket)) ∉ insisting.1 := by
  have reaches : Dial.Reaches roomy mismatched.1 mismatched.2.config := by
    unfold mismatched
    exact Dial.Table.play_run (opening roomy) _
  have run : Run Dial.system mismatched.2.config insisting.1 insisting.2.config := by
    unfold insisting
    exact Dial.Table.play_run mismatched.2 _
  have times : Dial.times insisting.1 = [2, 3, 4] := by decide +kernel
  have ordered : (Dial.times (mismatched.1 ++ insisting.1)).Pairwise (· ≤ ·) := by decide +kernel
  have told : Dial.ToldBy 4 (mismatched.1 ++ insisting.1) :=
    Dial.toldBy_iff.mpr (by decide +kernel)
  obtain ⟨manager, first⟩ : ∃ manager, mismatched.2.managers.head? = some manager :=
    Option.isSome_iff_exists.mp (by decide +kernel)
  have facts : mismatched.2.managers.head?.all (fun manager => decide (manager.id = 0 ∧
      manager.policy.addresses[(⟨remote, "a"⟩ : AddressKey)]?.bind AddressState.quarantinedUntilMs =
        some (1 + AddressState.identityMismatchQuarantineMs))) = true := by decide +kernel
  rw [first, Option.all_some, decide_eq_true_eq] at facts
  obtain ⟨named, lasting⟩ := facts
  have uncleared : ∀ began ∈ started insisting.1, ¬began.2.Clears 0 ⟨remote, "a"⟩ := by
    decide +kernel
  obtain ⟨-, ⟨refuses, -⟩, denied⟩ := quarantine_holds reaches run ordered told (by decide)
    (List.mem_of_mem_head? first) (Option.bind_eq_some_iff.mp lasting)
    (fun thread task began => named ▸ uncleared _ ((mem_started thread).mpr began))
  rw [named] at refuses denied
  obtain ⟨⟨thread, task⟩, began, dials⟩ :
      ∃ began ∈ started insisting.1, began.2.Dials 0 ⟨remote, "a"⟩ := by decide +kernel
  have starts := (mem_started thread).mp began
  have few : (insisting.2.world 0).earlier.length < counterRange := by decide +kernel
  exact ⟨reaches, run, times, refuses, thread, task, starts, dials,
    fun ticket => denied thread task ticket starts dials (.inr few)⟩

end InterWeave
