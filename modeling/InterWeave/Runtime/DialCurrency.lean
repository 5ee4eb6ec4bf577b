import InterWeave.Runtime.DialAccounting
import InterWeave.Runtime.ManagerRuns

/-!
No admission decides on stale authority. What a manager shares only moves one way: snapshots
are added, draining begins, liveness ends. So a check that passes says what held when it began.
-/

namespace InterWeave

open Concurrent Saturating

variable {request : DialRequest} {events : List (Event Op Op.Ans)} {nowMs : Nat}
    {ticket : DialTicket}

structure Shared.Later (shared later : Shared) : Prop where
  installed : ∃ more, later.installed = more ++ shared.installed
  draining : shared.shuttingDown = true → later.shuttingDown = true
  gone : shared.alive = false → later.alive = false
  dropped : shared.managed = false → later.managed = false

namespace Shared.Later

variable {shared middle later : Shared}

theorem refl (shared : Shared) : Later shared shared :=
  ⟨⟨[], rfl⟩, id, id, id⟩

theorem trans (first : Later shared middle) (second : Later middle later) : Later shared later := by
  obtain ⟨more, grown⟩ := first.installed
  obtain ⟨evenMore, grownAgain⟩ := second.installed
  exact ⟨⟨evenMore ++ more, by rw [grownAgain, grown, List.append_assoc]⟩,
    second.draining ∘ first.draining, second.gone ∘ first.gone, second.dropped ∘ first.dropped⟩

theorem exec (executed : shared.Exec op ans later) : Later shared later := by
  cases executed with
  | upgraded alive =>
    exact ⟨⟨[], rfl⟩, id, fun gone => absurd alive (by simp [gone]), id⟩
  | dropManagerRef =>
    refine ⟨⟨[], rfl⟩, id, fun gone => ?_, id⟩
    simp only [alive, Bool.or_eq_false_iff, decide_eq_false_iff_not, Nat.not_lt] at gone ⊢
    exact ⟨gone.1, by omega⟩
  | dropManager =>
    refine ⟨⟨[], rfl⟩, id, fun gone => ?_, fun _ => rfl⟩
    simp only [alive, Bool.or_eq_false_iff, decide_eq_false_iff_not, Nat.not_lt] at gone ⊢
    exact ⟨trivial, gone.2⟩
  | storeShuttingDown => exact ⟨⟨[], rfl⟩, fun _ => rfl, id, id⟩
  | @writePublished _ next => exact ⟨⟨[next], rfl⟩, id, id, id⟩
  | _ => exact ⟨⟨[], rfl⟩, id, id, id⟩

theorem member (later : Later shared middle) {snapshot : PolicySnapshot}
    (installed : snapshot ∈ shared.installed) : snapshot ∈ middle.installed := by
  obtain ⟨more, grown⟩ := later.installed
  rw [grown]
  exact List.mem_append_right _ installed

theorem earlier_member (later : Later shared middle) (superseded : snapshot ∈ shared.earlier) :
    snapshot ∈ middle.earlier := by
  obtain ⟨more, grown⟩ := later.installed
  cases more with
  | nil => exact (List.cons.inj grown).2 ▸ superseded
  | cons newest rest =>
    have tails : middle.earlier = rest ++ shared.installed := (List.cons.inj grown).2
    rw [tails]
    exact List.mem_append_right _ (List.mem_cons_of_mem _ superseded)

theorem earlier_length (later : Later shared middle) :
    shared.earlier.length ≤ middle.earlier.length := by
  obtain ⟨more, grown⟩ := later.installed
  have lengths := congrArg List.length grown
  simp only [Shared.installed, List.length_append, List.length_cons] at lengths
  omega

end Shared.Later

open Dial

theorem run_later (run : Run system first labels last) (id : ManagerId) :
    (first.world id).Later (last.world id) := by
  refine run.world (fun before after => (before id).Later (after id)) (fun _ => .refl _)
    .trans ?_
  rintro world op ans changed ⟨shared, executed, rfl⟩
  by_cases here : id = op.manager
  · subst here
    rw [Function.update_self]
    exact .exec executed
  · rw [Function.update_of_ne here]
    exact .refl _

theorem Numbered.current_throughout {shared later : Shared} (numbered : Numbered later.installed)
    (grown : shared.Later later) (lasts : later.earlier.length < counterRange)
    (installed : snapshot ∈ shared.installed) (same : snapshot.revision = later.current.revision) :
    shared.current = snapshot := by
  obtain ⟨more, longer⟩ := grown.installed
  have isCurrent := numbered.eq_of_revision lasts (grown.member installed) same
  cases more with
  | nil =>
    have heads : later.current = shared.current := (List.cons.inj longer).1
    rw [isCurrent, heads]
  | cons newest rest =>
    obtain ⟨rfl, tails⟩ := List.cons.inj longer
    have earlier : later.earlier = rest ++ shared.installed := tails
    have numberedEarlier : Numbered (rest ++ shared.installed) := by
      have : Numbered later.earlier := numbered.2
      rwa [earlier] at this
    have older := numberedEarlier.revision_lt (List.mem_append_right rest installed)
    have place := numbered.1
    have range : u64Max + 1 = counterRange := rfl
    rw [← earlier] at older
    omega

theorem isCurrent_passed {snapshot : PolicySnapshot}
    (path : snapshot.isCurrent.Path events (.ret true)) :
    ∃ current : PolicySnapshot, snapshot.revision = current.revision ∧
      events = [⟨.upgradeManager snapshot.manager, true⟩, ⟨.dropManagerRef snapshot.manager, ()⟩,
        ⟨.readCurrent snapshot.manager, some current⟩] := by
  simp only [PolicySnapshot.isCurrent, Prog.bind_eq, Prog.perform_bind] at path
  obtain ⟨alive, later, rfl, upgraded⟩ := path.of_call
  cases alive with
  | false => cases upgraded.of_ret.2
  | true =>
    obtain ⟨⟨⟩, last, rfl, dropped⟩ := upgraded.of_call
    obtain ⟨current, none, rfl, read⟩ := dropped.of_call
    cases current with
    | none => cases read.of_ret.2
    | some current =>
      obtain ⟨rfl, same⟩ := read.of_ret
      exact ⟨current, of_decide_eq_true same, rfl⟩

def PolicySnapshot.passing (snapshot current : PolicySnapshot) : List (Event Op Op.Ans) :=
  [⟨.loadShuttingDown snapshot.manager, false⟩, ⟨.upgradeManager snapshot.manager, true⟩,
    ⟨.dropManagerRef snapshot.manager, ()⟩, ⟨.readCurrent snapshot.manager, some current⟩]

theorem finalCheck_passed {snapshot : PolicySnapshot}
    (path : (snapshot.finalCheck ticket).Path events (.ret (.ok issued))) :
    issued = ticket ∧ ∃ current : PolicySnapshot, snapshot.revision = current.revision ∧
      events = snapshot.passing current := by
  simp only [PolicySnapshot.finalCheck, PolicySnapshot.isSuperseded, Prog.bind_eq,
    Prog.perform_bind] at path
  obtain ⟨superseded, checks, later, rfl, checked, decided⟩ := path.of_bind
  cases superseded with
  | true =>
    obtain ⟨_, drops, last, rfl, -, refused⟩ := decided.of_bind
    cases refused.of_ret.2
  | false =>
    obtain ⟨rfl, same⟩ := decided.of_ret
    cases same
    refine ⟨rfl, ?_⟩
    obtain ⟨draining, later, rfl, loaded⟩ := checked.of_call
    cases draining with
    | true => cases loaded.of_ret.2
    | false =>
      obtain ⟨current, looked, last, rfl, looks, answered⟩ := loaded.of_bind
      obtain ⟨rfl, isNot⟩ := answered.of_ret
      obtain rfl : current = true := by simpa using isNot
      obtain ⟨found, same, rfl⟩ := isCurrent_passed looks
      exact ⟨found, same, rfl⟩

def Task.asks : Task → Option (DialRequest × Nat)
  | .admitDial _ request nowMs | .handleAdmit _ request nowMs => some (request, nowMs)
  | _ => none

structure Decides {α : Type} (prog : Action α) (asked : DialRequest × Nat)
    (events : List (Event Op Op.Ans)) (snapshot : PolicySnapshot) (ticket : DialTicket)
    (before : List (Event Op Op.Ans)) : Prop where
  allowed : ∃ cls, snapshot.policy.admitDial asked.1 cls asked.2 = .ok ()
  reached : ∃ rest, prog.Path before ((snapshot.finalCheck ticket).bind rest)
  passed : ∃ current : PolicySnapshot, snapshot.revision = current.revision ∧
    events = before ++ snapshot.passing current

theorem precheck_allowed {snapshot : PolicySnapshot}
    (path : (snapshot.precheck request nowMs).Path events (.ret (.ok ()))) :
    ∃ cls, snapshot.policy.admitDial request cls nowMs = .ok () := by
  simp only [PolicySnapshot.precheck, Prog.bind_eq, Prog.perform_bind] at path
  obtain ⟨draining, later, rfl, loaded⟩ := path.of_call
  cases draining with
  | true => cases loaded.of_ret.2
  | false =>
    obtain ⟨current, looked, last, rfl, -, answered⟩ := loaded.of_bind
    cases current with
    | false => cases answered.of_ret.2
    | true => exact ⟨_, answered.of_ret.2⟩

theorem admit_decides {snapshot : PolicySnapshot}
    (path : (snapshot.admitDial request nowMs).Path events (.ret (.ok ticket))) :
    ∃ before, Decides (snapshot.admitDial request nowMs) (request, nowMs) events snapshot ticket
      before := by
  unfold PolicySnapshot.admitDial at path ⊢
  obtain ⟨checked, first, later, rfl, prechecks, allowed⟩ := path.of_bind
  cases checked with
  | error denial => cases allowed.of_ret.2
  | ok _ =>
    obtain ⟨reserved, second, last, rfl, reserves, held⟩ := allowed.of_bind
    cases reserved with
    | error denial => cases held.of_ret.2
    | ok checks =>
      obtain ⟨rfl, current, same, rfl⟩ := finalCheck_passed held
      refine ⟨first ++ second, precheck_allowed prechecks, ⟨.ret, ?_⟩, current, same, by simp⟩
      rw [Prog.bind_ret]
      exact (prechecks.bind _).append (reserves.bind _)

section

variable {α : Type} {prog : Action α} {asked : DialRequest × Nat} {before : List (Event Op Op.Ans)}
  {snapshot : PolicySnapshot}

theorem Decides.bind {β : Type} {rest : α → Action β}
    (decides : Decides prog asked events snapshot ticket before) :
    Decides (prog.bind rest) asked events snapshot ticket before := by
  obtain ⟨allowed, ⟨after, reached⟩, passed⟩ := decides
  refine ⟨allowed, ⟨fun answer => (after answer).bind rest, ?_⟩, passed⟩
  rw [← Prog.bind_assoc]
  exact reached.bind rest

theorem Decides.prepend {next : Action α} {first : List (Event Op Op.Ans)}
    (path : prog.Path first next) (decides : Decides next asked events snapshot ticket before) :
    Decides prog asked (first ++ events) snapshot ticket (first ++ before) := by
  obtain ⟨allowed, ⟨after, reached⟩, current, same, rfl⟩ := decides
  exact ⟨allowed, ⟨after, path.append reached⟩, current, same, by simp⟩

end

theorem admitWithin_decides {id : ManagerId} {attempts : Nat}
    (path : (SnapshotHandle.admitWithin id request nowMs attempts).Path events
      (.ret (.ok ticket))) :
    ∃ snapshot before, ⟨.readPublished id, snapshot⟩ ∈ before ∧
      Decides (SnapshotHandle.admitWithin id request nowMs attempts) (request, nowMs) events
        snapshot ticket before := by
  induction attempts generalizing events with
  | zero => cases path.of_ret.2
  | succ attempts ih =>
    simp only [SnapshotHandle.admitWithin, Prog.bind_eq, Prog.perform_bind] at path ⊢
    obtain ⟨snapshot, later, rfl, admits⟩ := path.of_call
    obtain ⟨answer, first, second, rfl, admitted, goesOn⟩ := admits.of_bind
    cases answer with
    | ok issued =>
      obtain ⟨rfl, same⟩ := goesOn.of_ret
      cases same
      obtain ⟨before, decides⟩ := admit_decides admitted
      refine ⟨snapshot, ⟨.readPublished id, snapshot⟩ :: before, List.mem_cons_self, ?_⟩
      rw [List.append_nil]
      exact .prepend (.cons (.call snapshot) (.nil _)) decides.bind
    | error denial =>
      cases denial <;> try cases goesOn.of_ret.2
      obtain ⟨read, before, member, decides⟩ := ih goesOn
      refine ⟨read, ⟨.readPublished id, snapshot⟩ :: first ++ before, by simp [member], ?_⟩
      exact .prepend (.cons (.call snapshot) (admitted.bind _)) decides

def Task.Through (snapshot : PolicySnapshot) (performed : List (Event Op Op.Ans)) : Task → Prop
  | .admitDial held _ _ => held = snapshot
  | .handleAdmit manager _ _ => ⟨.readPublished manager, snapshot⟩ ∈ performed
  | _ => False

theorem task_decides (path : (body task).Path events (.ret (.admitted (.ok ticket)))) :
    ∃ snapshot before asked, task.asks = some asked ∧ task.Through snapshot before ∧
      Decides (body task) asked events snapshot ticket before := by
  cases task with
  | admitDial snapshot request nowMs =>
    obtain ⟨answer, first, second, rfl, admits, returned⟩ := path.of_bind
    obtain ⟨rfl, same⟩ := returned.of_ret
    cases same
    obtain ⟨before, decides⟩ := admit_decides admits
    exact ⟨snapshot, before, _, rfl, rfl, (List.append_nil first).symm ▸ decides.bind⟩
  | handleAdmit id request nowMs =>
    obtain ⟨answer, first, second, rfl, admits, returned⟩ := path.of_bind
    obtain ⟨rfl, same⟩ := returned.of_ret
    cases same
    obtain ⟨snapshot, before, read, decides⟩ := admitWithin_decides admits
    exact ⟨snapshot, before, _, rfl, read, (List.append_nil first).symm ▸ decides.bind⟩
  | rebindAddress ticket address => cases path.of_ret.2
  | _ =>
    obtain ⟨answer, first, second, rfl, -, returned⟩ := path.of_bind
    cases returned.of_ret.2

section

variable {shared changed : Shared} {manager : ManagerId} {snapshot : PolicySnapshot}

theorem Shared.Exec.read_current
    (executed : shared.Exec (.readCurrent manager) (some snapshot) changed) :
    snapshot = shared.current ∧ changed = shared := by
  generalize read : some snapshot = answer at executed
  cases executed with
  | readCurrent => exact ⟨Option.some.inj read, rfl⟩
  | readCurrentGone _ => cases read

theorem Shared.Exec.read_published
    (executed : shared.Exec (.readPublished manager) snapshot changed) :
    snapshot = shared.current ∧ changed = shared := by
  cases executed
  exact ⟨rfl, rfl⟩

theorem Shared.Exec.load_draining
    (executed : shared.Exec (.loadShuttingDown manager) answer changed) :
    answer = shared.shuttingDown := by
  cases executed
  rfl

theorem Shared.Exec.upgraded_alive
    (executed : shared.Exec (.upgradeManager manager) true changed) : shared.alive = true := by
  cases executed with
  | upgraded alive => exact alive

end

structure Shared.InForce (shared : Shared) (snapshot : PolicySnapshot) : Prop where
  current : shared.current = snapshot
  admits : shared.shuttingDown = false
  alive : shared.alive = true

section

variable {setup : Setup} {labels more : List (Label Op Op.Ans Task TaskResult)}
  {config last : Config Op Op.Ans World Rest Task TaskResult} {thread : Nat}
  {snapshot : PolicySnapshot} {ticket : DialTicket}

theorem Dial.Reaches.account (reaches : Dial.Reaches setup labels config) (id : ManagerId) :
    ∃ tokens, Account setup id (config.world id) tokens := by
  obtain ⟨horizon, told⟩ := Dial.ToldBy.exists labels
  obtain ⟨-, _, -, -, accounted⟩ := reaches.covers told
  exact ⟨_, (accounted id).1⟩

theorem run_found (run : Run system config more last)
    (performed : ⟨op, ans⟩ ∈ eventsOf thread more) :
    ∃ before here changed, before.Sublist more ∧ Run system config before here ∧
      (here.world op.manager).Exec op ans changed ∧ changed.Later (last.world op.manager) := by
  obtain ⟨before, after, here, next, rfl, toHere, ⟨changed, executed, same⟩, fromNext⟩ :=
    run.performed performed
  refine ⟨before, here, changed, List.sublist_append_left _ _, toHere, executed, ?_⟩
  have later := run_later fromNext op.manager
  rwa [same, Function.update_self] at later

theorem check_admits (run : Run system config more last)
    (performed : snapshot.passing current ⊆ eventsOf thread more) :
    (config.world snapshot.manager).shuttingDown = false ∧
      (config.world snapshot.manager).alive = true := by
  simp only [PolicySnapshot.passing, List.cons_subset] at performed
  obtain ⟨loaded, upgraded, -, -, -⟩ := performed
  constructor
  · obtain ⟨before, here, changed, -, toHere, executed, -⟩ := run_found run loaded
    exact Bool.eq_false_iff.mpr fun draining =>
      Bool.false_ne_true (executed.load_draining.trans ((run_later toHere _).draining draining))
  · obtain ⟨before, here, changed, -, toHere, executed, -⟩ := run_found run upgraded
    exact Bool.ne_false_iff.mp fun gone =>
      Bool.false_ne_true (((run_later toHere _).gone gone).symm.trans executed.upgraded_alive)

section

variable (reaches : Dial.Reaches setup labels config) (run : Run system config more last)
  (lasts : (last.world snapshot.manager).earlier.length < counterRange)

include reaches run lasts

theorem check_current (installed : snapshot ∈ (config.world snapshot.manager).installed)
    (same : snapshot.revision = current.revision)
    (performed : snapshot.passing current ⊆ eventsOf thread more) :
    (config.world snapshot.manager).current = snapshot := by
  simp only [PolicySnapshot.passing, List.cons_subset] at performed
  obtain ⟨-, -, -, read, -⟩ := performed
  obtain ⟨before, here, changed, -, toHere, executed, later⟩ := run_found run read
  obtain ⟨rfl, rfl⟩ := executed.read_current
  obtain ⟨tokens, account⟩ := Dial.Reaches.account (reaches.append toHere) snapshot.manager
  exact account.numbered.current_throughout (run_later toHere _)
    (lt_of_le_of_lt later.earlier_length lasts) installed same

theorem stale_check_fails
    (stale : snapshot ∈ (config.world snapshot.manager).earlier ∨
      (config.world snapshot.manager).shuttingDown = true ∨
      (config.world snapshot.manager).alive = false) (performed : events ⊆ eventsOf thread more) :
    ¬(snapshot.finalCheck ticket).Path events (.ret (.ok issued)) := by
  intro passed
  obtain ⟨-, current, same, rfl⟩ := finalCheck_passed passed
  obtain ⟨admits, alive⟩ := check_admits run performed
  rcases stale with earlier | draining | gone
  · have isCurrent := check_current reaches run lasts (List.mem_cons_of_mem _ earlier) same
      performed
    obtain ⟨tokens, account⟩ := reaches.account snapshot.manager
    have number : snapshot.revision = _ := isCurrent ▸ account.numbered.1
    have older := account.numbered.2.revision_lt earlier
    have few := lt_of_le_of_lt (run_later run snapshot.manager).earlier_length lasts
    have range : u64Max + 1 = counterRange := rfl
    omega
  · exact Bool.false_ne_true (admits.symm.trans draining)
  · exact Bool.false_ne_true (gone.symm.trans alive)

end

theorem through_installed (reaches : Dial.Reaches setup labels config)
    (began : .start thread task ∈ labels)
    (through : task.Through snapshot (eventsOf thread labels)) :
    snapshot ∈ (config.world snapshot.manager).installed := by
  cases task with
  | admitDial held request nowMs =>
    obtain rfl : held = snapshot := through
    obtain ⟨before, after, here, next, -, -, step, fromNext⟩ := reaches.at began
    cases step with
    | start taken =>
      cases taken with
      | admitDial held => exact (run_later fromNext _).member held
  | handleAdmit id request nowMs =>
    obtain ⟨before, here, changed, -, toHere, executed, later⟩ := run_found reaches through
    obtain ⟨tokens, account⟩ := Dial.Reaches.account toHere id
    obtain ⟨rfl, rfl⟩ := executed.read_published
    have named := (account.made _ List.mem_cons_self).manager
    rw [show (Op.readPublished id).manager = id from rfl] at later ⊢
    rw [named]
    exact later.member List.mem_cons_self
  | _ => exact through.elim

def DialTicket.units (ticket : DialTicket) (counter : Counter) : Nat :=
  if counter = .outcomes then ticket.peer.isSome.toNat else 1

theorem issued_delta (reaches : Dial.Reaches setup labels config)
    (issued : .finish thread (.admitted (.ok ticket)) ∈ labels) (counter : Counter) :
    netDelta ticket.manager counter (eventsOf thread labels) = ticket.units counter := by
  obtain ⟨horizon, told⟩ := Dial.ToldBy.exists labels
  obtain ⟨task, began, -⟩ := reaches.traced.finished thread _ issued
  obtain ⟨state, develops, leaves⟩ := (contract_kept setup horizon).finished
    start_covers reaches told began issued
  have balance := develops_units develops ticket.manager counter
  have brought : (contract setup horizon).brings task = task.brings := rfl
  rw [brought] at balance
  have held : state.units ticket.manager counter = ticket.units counter ∧
      task.brings.units ticket.manager counter = 0 := by
    cases task <;> try exact leaves.elim
    case admitDial snapshot request nowMs =>
      obtain ⟨whole, -, -, rfl⟩ := leaves
      rw [units_owned, if_pos rfl, whole.weight, Task.brings, units_owned]
      refine ⟨rfl, ?_⟩
      cases counter <;> simp [Token.weight]
    case handleAdmit manager request nowMs =>
      obtain ⟨whole, -, -, rfl⟩ := leaves
      rw [units_owned, if_pos rfl, whole.weight]
      exact ⟨rfl, rfl⟩
  omega

theorem issued_in_force (reaches : Dial.Reaches setup labels config)
    (lasts : ∀ id, (config.world id).earlier.length < counterRange)
    (issued : .finish thread (.admitted (.ok ticket)) ∈ labels) :
    ∃ before after middle, labels = before ++ after ∧ Dial.Reaches setup before middle ∧
      Run system middle after config ∧
      ∃ running ∈ middle.threads, ∃ snapshot rest, running.id = thread ∧
        running.prog = (snapshot.finalCheck ticket).bind rest ∧
        running.task.Through snapshot (eventsOf thread before) ∧
        (∀ counter, netDelta ticket.manager counter (eventsOf thread before) =
          ticket.units counter) ∧
        (middle.world snapshot.manager).InForce snapshot := by
  obtain ⟨task, began, path⟩ := reaches.traced.finished thread _ issued
  obtain ⟨snapshot, first, -, -, through, -, ⟨rest, reached⟩, current, same, events⟩ :=
    task_decides path
  obtain ⟨before, after, middle, rfl, toMiddle, fromMiddle, beganBefore, performed, running, member,
    rfl⟩ := reaches.pause began events
  obtain ⟨begun, walked⟩ := toMiddle.traced.running running member
  obtain rfl := (toMiddle.traced.started running.id task beganBefore).2 running.task begun
  have net := issued_delta reaches issued
  rw [eventsOf_append, performed, List.append_cancel_left_eq] at events
  rw [performed] at walked
  refine ⟨before, after, middle, rfl, toMiddle, fromMiddle, running, member, snapshot, rest, rfl,
    walked.unique reached, performed ▸ through, fun counter => ?_, ?_⟩
  · rw [← net counter, eventsOf_append, events, netDelta, netDelta, List.map_append,
      List.sum_append]
    simp [PolicySnapshot.passing, Op.delta]
  · have passed : snapshot.passing current ⊆ eventsOf running.id after :=
      events ▸ List.Subset.refl _
    have installed := through_installed toMiddle begun (performed ▸ through)
    obtain ⟨admits, alive⟩ := check_admits fromMiddle passed
    exact ⟨check_current toMiddle fromMiddle (lasts snapshot.manager) installed same passed, admits,
      alive⟩

end

def Op.publishes (id : ManagerId) (op : Op) : Prop :=
  ∃ next, op = .writePublished id next

namespace ConnectionManager

variable {manager : ConnectionManager} {id : ManagerId}

theorem publish_must (named : manager.id = id) : manager.publish.Must (Op.publishes id) := by
  subst named
  exact .here ⟨_, rfl⟩

theorem settleAndPublish_must (named : manager.id = id) :
    (manager.settleAndPublish ticket).Must (Op.publishes id) := by
  have kept : (manager.settle ticket).Gives (·.id = id) :=
    .after _ fun _ => .after _ fun _ => .ret named
  exact .after kept fun _ same => publish_must same

end ConnectionManager

def Call.withdraws (manager : ConnectionManager) : Call → Prop
  | .setTrust _ _ | .beginShutdown => True
  | .recordIdentityMismatch ticket _ => ticket.manager = manager.id
  | _ => False

theorem Call.withdraws_must {call : Call} (withdraws : call.withdraws manager) :
    (manager.answer call).Must (Op.publishes manager.id) := by
  cases call <;> try exact withdraws.elim
  case setTrust trust live =>
    refine .bind ?_ _
    refine .after (ConnectionManager.retireUnclassifiedBookPeers_ordinary _) ?_
    rintro value ⟨retired, ordinary⟩
    exact .bind (ConnectionManager.publish_must ordinary.id) _
  case beginShutdown =>
    refine .bind ?_ _
    exact .after (fun _ _ _ => trivial) fun _ (_ : True) => ConnectionManager.publish_must rfl
  case recordIdentityMismatch ticket nowMs =>
    have own : (!(manager.observe (ticket.settledAt nowMs)).issuedHere ticket) = false := by
      simp [ConnectionManager.issuedHere, ConnectionManager.observe,
        show ticket.manager = manager.id from withdraws]
    refine .bind ?_ _
    simp only [ConnectionManager.recordIdentityMismatch, own, Bool.false_eq_true, ↓reduceIte,
      Prog.bind_eq]
    split
    · exact .bind (ConnectionManager.settleAndPublish_must rfl) _
    · refine .bind (ConnectionManager.settleAndPublish_must ?_) _
      refine (ConnectionManager.claimAfter_aside ConnectionManager.releaseRetryClaim_aside _
        _).ordinary.id.trans ?_
      split
      · exact (ConnectionManager.note_aside _).ordinary.id
      · rfl

section

variable {setup : Setup} {before after : List (Label Op Op.Ans Task TaskResult)}
  {here next config : Config Op Op.Ans World Rest Task TaskResult} {thread : Nat}
  {result : TaskResult}

theorem withdrawn_supersedes (reaches : Dial.Reaches setup before here)
    (step : Step system here (.start thread (.manage manager call)) next)
    (run : Run system next after config) (ended : .finish thread result ∈ after)
    (withdraws : call.withdraws manager)
    (installed : snapshot ∈ (here.world manager.id).installed) :
    snapshot ∈ (config.world manager.id).earlier := by
  have must : (body (.manage manager call)).Must (Op.publishes manager.id) :=
    (Call.withdraws_must withdraws).bind _
  obtain ⟨⟨op, ans⟩, performed, written, isWrite⟩ :=
    must _ _ (reaches.whole step run ended)
  obtain rfl : op = _ := isWrite
  obtain ⟨_, middle, changed, -, toMiddle, executed, later⟩ := run_found run performed
  have kept : snapshot ∈ (middle.world manager.id).installed := by
    refine (run_later toMiddle _).member ?_
    cases step with
    | start _ => exact installed
  cases executed
  exact later.earlier_member kept

theorem beginShutdown_drains (reaches : Dial.Reaches setup before here)
    (step : Step system here (.start thread (.manage manager .beginShutdown)) next)
    (run : Run system next after config) (ended : .finish thread result ∈ after) :
    (config.world manager.id).shuttingDown = true := by
  have must : (body (.manage manager .beginShutdown)).Must (· = .storeShuttingDown manager.id) :=
    .here rfl
  obtain ⟨⟨op, ans⟩, performed, isStore⟩ := must _ _ (reaches.whole step run ended)
  obtain rfl : op = _ := isStore
  obtain ⟨_, middle, changed, -, -, executed, later⟩ := run_found run performed
  cases executed
  exact later.draining rfl

theorem dropManager_gone (reaches : Dial.Reaches setup before here)
    (step : Step system here (.start thread (.dropManager manager)) next)
    (run : Run system next after config) (ended : .finish thread result ∈ after)
    (unborrowed : (config.world manager.id).borrowed = 0) :
    (config.world manager.id).alive = false := by
  have must : (body (.dropManager manager)).Must (· = .dropManager manager.id) := .here rfl
  obtain ⟨⟨op, ans⟩, performed, isDrop⟩ := must _ _ (reaches.whole step run ended)
  obtain rfl : op = _ := isDrop
  obtain ⟨_, middle, changed, -, -, executed, later⟩ := run_found run performed
  cases executed
  have dropped : (config.world manager.id).managed = false := later.dropped rfl
  simp [Shared.alive, dropped, unborrowed]

/-- No stale authority. While a manager's revisions last: a ticket is issued only if, with its
reservations taken, the deciding snapshot was still the one in force; a call that takes
authority away supersedes every snapshot there was when it began; a drained manager stays so,
and a dropped one is gone with the last reference to it; and from then on no check passes
through a snapshot that was superseded, drained or lost its manager. An admission that is
denied leaves every counter as it found it. -/
theorem dial_authority_current {labels : List (Label Op Op.Ans Task TaskResult)}
    (reaches : Dial.Reaches setup labels config)
    (lasts : ∀ id, (config.world id).earlier.length < counterRange) :
    (∀ thread ticket, .finish thread (.admitted (.ok ticket)) ∈ labels →
      ∃ before after middle, labels = before ++ after ∧ Dial.Reaches setup before middle ∧
        Run system middle after config ∧
        ∃ running ∈ middle.threads, ∃ snapshot rest, running.id = thread ∧
          running.prog = (snapshot.finalCheck ticket).bind rest ∧
          running.task.Through snapshot (eventsOf thread before) ∧
          (∀ counter, netDelta ticket.manager counter (eventsOf thread before) =
            ticket.units counter) ∧
          (middle.world snapshot.manager).InForce snapshot) ∧
    (∀ before after here next thread task result, Dial.Reaches setup before here →
      Step system here (.start thread task) next → Run system next after config →
      .finish thread result ∈ after →
      (∀ manager call, task = .manage manager call → call.withdraws manager →
        ∀ snapshot ∈ (here.world manager.id).installed,
          snapshot ∈ (config.world manager.id).earlier) ∧
      (∀ manager, task = .manage manager .beginShutdown →
        (config.world manager.id).shuttingDown = true) ∧
      ∀ manager, task = .dropManager manager → (config.world manager.id).borrowed = 0 →
        (config.world manager.id).alive = false) ∧
    (∀ snapshot : PolicySnapshot, (snapshot ∈ (config.world snapshot.manager).earlier ∨
        (config.world snapshot.manager).shuttingDown = true ∨
        (config.world snapshot.manager).alive = false) →
      ∀ more last, Run system config more last →
        (last.world snapshot.manager).earlier.length < counterRange →
        ∀ thread ticket issued events, events <:+: eventsOf thread more →
          ¬(snapshot.finalCheck ticket).Path events (.ret (.ok issued))) ∧
    ∀ thread denial, .finish thread (.admitted (.error denial)) ∈ labels → ∀ id counter,
      netDelta id counter (eventsOf thread labels) = 0 := by
  refine ⟨fun thread ticket => issued_in_force reaches lasts, ?_, ?_, ?_⟩
  · intro before after here next thread task result toHere step run ended
    refine ⟨?_, ?_, ?_⟩
    · rintro manager call rfl withdraws snapshot installed
      exact withdrawn_supersedes toHere step run ended withdraws installed
    · rintro manager rfl
      exact beginShutdown_drains toHere step run ended
    · rintro manager rfl unborrowed
      exact dropManager_gone toHere step run ended unborrowed
  · intro snapshot stale more last run few thread ticket issued events performed
    exact stale_check_fails reaches run few stale performed.subset
  · intro thread denial denied
    obtain ⟨task, began, -⟩ := reaches.traced.finished thread _ denied
    exact denied_delta reaches began denied

end

open DialSample

/-- A dial is admitted, and trust is withdrawn while a second one is under way. -/
@[irreducible]
def DialSample.overtaken : List (Label Op Op.Ans Task TaskResult) × Table :=
  (opening roomy).play (entrust trust :: through ++ dial "a" 0 :: through ++ dial "b" 0 ::
    List.replicate 12 (.turn 0) ++ entrust .default :: through ++ through)

theorem earlier_bounded {config last : Config Op Op.Ans World Rest Task TaskResult}
    (run : Run system config labels last) (id : ManagerId) :
    (last.world id).earlier.length ≤ (config.world id).earlier.length + labels.length := by
  induction run with
  | nil => simp
  | snoc _ step ih =>
    rw [List.length_append, List.length_singleton]
    cases step with
    | start | finish => exact ih.trans (by omega)
    | @act world _ _ _ _ _ _ _ _ _ op _ _ executed =>
      obtain ⟨shared, executed, rfl⟩ := executed
      have grown : (Function.update world op.manager shared id).earlier.length ≤
          (world id).earlier.length + 1 := by
        by_cases here : id = op.manager
        · subst here
          rw [Function.update_self]
          cases executed <;> simp [Shared.setCounter, Shared.install, Shared.installed]
        · rw [Function.update_of_ne here]
          omega
      exact grown.trans (Nat.add_le_add_right ih 1)

/-- The second dial had reserved through a snapshot that was withdrawn under it. From then on
that snapshot passes no check. -/
theorem dial_authority_current_sample : Dial.Reaches roomy overtaken.1 overtaken.2.config ∧
    (∃ thread ticket before middle snapshot, .finish thread (.admitted (.ok ticket)) ∈ overtaken.1 ∧
      Dial.Reaches roomy before middle ∧ (middle.world snapshot.manager).InForce snapshot) ∧
    (∃ thread denial, .finish thread (.admitted (.error denial)) ∈ overtaken.1 ∧
      (∃ event ∈ eventsOf thread overtaken.1, event.op.delta 0 .pending event.ans = 1) ∧
      ∀ counter, netDelta 0 counter (eventsOf thread overtaken.1) = 0) ∧
    ∃ snapshot ∈ (overtaken.2.world snapshot.manager).earlier,
      snapshot.trust.classify remote = .dataPlaneTrusted ∧
      ∀ more last, Run system overtaken.2.config more last →
        (last.world snapshot.manager).earlier.length < counterRange →
        ∀ thread ticket issued events, events <:+: eventsOf thread more →
          ¬(snapshot.finalCheck ticket).Path events (.ret (.ok issued)) := by
  have reaches : Dial.Reaches roomy overtaken.1 overtaken.2.config := by
    unfold overtaken
    exact Table.play_run (opening roomy) _
  have short : overtaken.1.length < counterRange := by decide +kernel
  have lasts : ∀ id, (overtaken.2.config.world id).earlier.length < counterRange := by
    intro id
    have bounded := earlier_bounded reaches id
    have fresh : (roomy.start.world id).earlier.length = 0 := rfl
    omega
  obtain ⟨issued, -, stale, denied⟩ := dial_authority_current reaches lasts
  refine ⟨reaches, ?_, ?_, ?_⟩
  · obtain ⟨⟨thread, denial | ticket⟩, answered, passed⟩ :
        ∃ answered ∈ admissions overtaken.1, answered.2.isOk = true := by decide +kernel
    · cases passed
    obtain ⟨before, -, middle, -, toMiddle, -, -, -, snapshot, -, -, -, -, -, inForce⟩ :=
      issued thread ticket (mem_admissions answered)
    exact ⟨thread, ticket, before, middle, snapshot, mem_admissions answered, toMiddle, inForce⟩
  · obtain ⟨⟨thread, denial | ticket⟩, answered, refused, reserved⟩ :
        ∃ answered ∈ admissions overtaken.1, answered.2.isOk = false ∧
          ∃ event ∈ eventsOf answered.1 overtaken.1, event.op.delta 0 .pending event.ans = 1 := by
      decide +kernel
    · exact ⟨thread, denial, mem_admissions answered, reserved,
        denied thread denial (mem_admissions answered) 0⟩
    · cases refused
  · obtain ⟨snapshot, superseded, own, trusted⟩ : ∃ snapshot ∈ (overtaken.2.world 0).earlier,
        snapshot.manager = 0 ∧ snapshot.trust.classify remote = .dataPlaneTrusted := by
      decide +kernel
    have earlier : snapshot ∈ (overtaken.2.config.world snapshot.manager).earlier :=
      own.symm ▸ superseded
    exact ⟨snapshot, earlier, trusted, stale snapshot (.inl earlier)⟩

namespace DialSample

def republished (revision : Nat) : ConnectionManager :=
  { (setup.manager 0).withTrust trust with revision := min revision u64Max }

def history : Nat → List PolicySnapshot
  | 0 => [(setup.manager 0).snapshot]
  | count + 1 => (republished (count + 1)).snapshot :: history count

def retold (world : World) (manager : ConnectionManager) (earlier : List PolicySnapshot)
    (next : Nat) : Table where
  world := world.put 0 { setup.shared 0 with current := manager.snapshot, earlier := earlier }
  managers := [manager, setup.manager 1]
  tickets := []
  slots := []
  threads := []
  next := next

/-- The first manager has been told of its trust again and again. -/
def insistent (count : Nat) : Table :=
  retold setup.shared (republished (count + 1)) (history count) (count + 1)

def insist : List Move :=
  [entrust trust, .turn 0, .turn 0]

theorem withTrust_republished (count : Nat) :
    ((republished (count + 1)).withTrust trust).nextRevision = republished (count + 2) := by
  simp only [ConnectionManager.nextRevision, ConnectionManager.withTrust, republished]
  congr 1
  simp only [add64]
  omega

set_option maxRecDepth 2000 in
theorem insistent_play (count : Nat) :
    ((insistent count).play insist).2 = insistent (count + 1) ∧
      Dial.ToldBy 0 ((insistent count).play insist).1 := by
  have played : ((insistent count).play insist).2 =
      retold (insistent count).world ((republished (count + 1)).withTrust trust).nextRevision
        (history (count + 1)) (count + 2) := rfl
  have untimed : Dial.times ((insistent count).play insist).1 = [] := rfl
  rw [withTrust_republished, retold, insistent, retold, World.put_put] at played
  exact ⟨played, Dial.toldBy_iff.mpr (by simp [untimed])⟩

theorem insistent_reaches (count : Nat) : ∃ labels, Dial.ToldBy 0 labels ∧
    Dial.Reaches setup labels (insistent count).config := by
  induction count with
  | zero =>
    have untimed : Dial.times ((opening setup).play insist).1 = [] := rfl
    exact ⟨_, Dial.toldBy_iff.mpr (by simp [untimed]), Table.play_run (opening setup) insist⟩
  | succ count ih =>
    obtain ⟨labels, told, reaches⟩ := ih
    obtain ⟨next, toldNow⟩ := insistent_play count
    have played := Table.play_run (insistent count) insist
    rw [next] at played
    exact ⟨_, List.forall_mem_append.mpr ⟨told, toldNow⟩, reaches.append played⟩

theorem admits_through {table : Table} {age : Nat} (request : DialRequest) (nowMs : Nat)
    (found : (table.world 0).installed[age]? = some snapshot) (own : snapshot.manager = 0)
    (passes : ∃ answered ∈ admissions
      (table.play (.admitDial 0 age request nowMs :: through)).1,
      answered.1 = table.next ∧ answered.2.isOk = true) :
    ∃ after config ticket,
      Run system table.config (.start table.next (.admitDial snapshot request nowMs) :: after)
        config ∧ .finish table.next (.admitted (.ok ticket)) ∈ after := by
  have moved : table.move (.admitDial 0 age request nowMs) =
      some (table.begun (.admitDial snapshot request nowMs)) := by
    simp [Table.move, found, own]
  have run := Table.play_run table (.admitDial 0 age request nowMs :: through)
  obtain ⟨⟨thread, denial | ticket⟩, answered, same, passed⟩ := passes
  · cases passed
  obtain rfl : thread = table.next := same
  rw [Table.play_cons moved] at run answered
  exact ⟨_, _, ticket, run,
    (List.mem_cons.mp (mem_admissions answered)).resolve_left (by rintro ⟨⟩)⟩

/-- Trust is withdrawn when the revisions have run out. -/
@[irreducible]
def withdrawing : List (Label Op Op.Ans Task TaskResult) × Table :=
  (insistent (u64Max - 1)).play (entrust .default :: through)

theorem saturated_admits : ∃ before after here config thread ticket,
    ∃ snapshot ∈ (here.world 0).earlier, Dial.Reaches setup before here ∧
      (here.world 0).current.trust.classify remote = .unauthorized ∧
      Run system here (.start thread (.admitDial snapshot (DialSample.request "") 0) :: after)
        config ∧
      .finish thread (.admitted (.ok ticket)) ∈ after := by
  obtain ⟨labels, -, reaches⟩ := insistent_reaches (u64Max - 1)
  have played : Run system (insistent (u64Max - 1)).config withdrawing.1 withdrawing.2.config := by
    unfold withdrawing
    exact Table.play_run (insistent (u64Max - 1)) _
  obtain ⟨snapshot, found⟩ : ∃ snapshot, (withdrawing.2.world 0).installed[1]? = some snapshot :=
    Option.isSome_iff_exists.mp (by decide +kernel)
  have own : ∀ snapshot ∈ (withdrawing.2.world 0).installed[1]?, snapshot.manager = 0 := by
    decide +kernel
  obtain ⟨after, config, ticket, run, issued⟩ :=
    admits_through (DialSample.request "") 0 found (own snapshot found) (by decide +kernel)
  exact ⟨_, after, _, config, _, ticket, snapshot, List.mem_of_getElem? found,
    reaches.append played, by decide +kernel, run, issued⟩

/-- A manager is dropped while an admission holds a reference to it. -/
def dropping : List (Label Op Op.Ans Task TaskResult) × Table :=
  (insistent 0).play [.admitDial 0 0 (DialSample.request "") 0, .turn 0, .turn 0, .dropManager,
    .turn 0, .turn 0]

theorem dropped_admits : ∃ before after here config thread other ticket,
    Dial.Reaches setup before here ∧
    .start other (.dropManager (republished 1)) ∈ before ∧ .finish other .dropped ∈ before ∧
    Run system here
      (.start thread (.admitDial (republished 1).snapshot (DialSample.request "") 0) :: after)
      config ∧
    .finish thread (.admitted (.ok ticket)) ∈ after := by
  obtain ⟨labels, -, reaches⟩ := insistent_reaches 0
  have played : Run system (insistent 0).config dropping.1 dropping.2.config :=
    Table.play_run (insistent 0) _
  have found : (dropping.2.world 0).installed[0]? = some (republished 1).snapshot := rfl
  have drops : dropping.1.drop 3 = [.start 2 (.dropManager (republished 1)),
      .act 2 ⟨.dropManager 0, ()⟩, .finish 2 .dropped] := rfl
  have inPlay : ∀ label ∈ dropping.1.drop 3, label ∈ labels ++ dropping.1 :=
    fun label member => List.mem_append_right _ (List.mem_of_mem_drop member)
  rw [drops] at inPlay
  obtain ⟨after, config, ticket, run, issued⟩ :=
    admits_through (DialSample.request "") 0 found rfl (by decide +kernel)
  exact ⟨_, after, _, config, _, 2, ticket, reaches.append played, inPlay _ (by simp),
    inPlay _ (by simp), run, issued⟩

end DialSample

/-- Both limits are needed: revisions that have run out let a withdrawn snapshot pass, and a
reference held by another admission keeps a dropped manager alive. -/
theorem stale_authority_admits :
    (∃ before after here config thread ticket,
      ∃ snapshot ∈ (here.world 0).earlier, Dial.Reaches setup before here ∧
        (here.world 0).current.trust.classify remote = .unauthorized ∧
        Run system here
          (.start thread (.admitDial snapshot (DialSample.request "") 0) :: after) config ∧
        .finish thread (.admitted (.ok ticket)) ∈ after) ∧
    ∃ before after here config thread other ticket,
      Dial.Reaches setup before here ∧
      .start other (.dropManager (republished 1)) ∈ before ∧
      .finish other .dropped ∈ before ∧
      Run system here
        (.start thread (.admitDial (republished 1).snapshot (DialSample.request "") 0) :: after)
        config ∧
      .finish thread (.admitted (.ok ticket)) ∈ after :=
  ⟨saturated_admits, dropped_admits⟩

end InterWeave
