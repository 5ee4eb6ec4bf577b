import InterWeave.Api.Identities
import InterWeave.Lib.Keyed
import InterWeave.Providers.StaticCore

/-!
What a consumer of the static provider ends up with. As long as the queue bound drops the events
of a peer all together, the consumer's view once the queue is drained is the configuration; a
drop that leaves a later event of the peer queued can leave an address in the view for good.
-/

namespace InterWeave.StaticBootstrap

open Std (ExtTreeMap ExtTreeSet)
open OrderedMap

variable {queue : List Queued} (entries : Table) (address : String) (emitted : Table) (now : Nat)
    (queued : Queued)

def only (peer : TransportIdentity) (queue : List Queued) : List Queued :=
  queue.filter fun queued => queued.peer = some peer

/-- The queued events of a peer lead from what its consumer holds to what `emitted` records. An
observation is queued with the retraction of what it leaves out, which may have been delivered. -/
inductive Chain (peer : TransportIdentity) :
    ExtTreeSet String → List Queued → ExtTreeSet String → Prop
  | nil (held : ExtTreeSet String) : Chain peer held [] held
  | gone {held final : ExtTreeSet String} {rest : List Queued} : Chain peer ∅ rest final →
      Chain peer held (⟨.candidateExpired peer sourceName ∅, some held⟩ :: rest) final
  | moved {held next final : ExtTreeSet String} {rest : List Queued} (now : Nat) :
      (held \ next).isEmpty = false → Chain peer next rest final →
      Chain peer held (⟨.candidateExpired peer sourceName (held \ next), some held⟩ ::
        ⟨observed peer next now, some held⟩ :: rest) final
  | settled {held told next final : ExtTreeSet String} {rest : List Queued} (now : Nat) :
      (∀ address ∈ held, address ∈ next) → (told \ next).isEmpty = false →
      Chain peer next rest final →
      Chain peer held (⟨observed peer next now, some told⟩ :: rest) final
  | grown {held next final : ExtTreeSet String} {before : Option (ExtTreeSet String)}
      {rest : List Queued} (now : Nat) : before.getD ∅ = held →
      (∀ address ∈ held, address ∈ next) → Chain peer next rest final →
      Chain peer held (⟨observed peer next now, before⟩ :: rest) final

def receiveOne (held : ExtTreeSet String) : DiscoveryEvent → ExtTreeSet String
  | .candidateObserved candidate => held ∪ candidate.addresses
  | .candidateExpired _ _ addresses => if addresses.isEmpty then ∅ else held \ addresses
  | .healthChanged _ _ => held

namespace Chain

variable {peer : TransportIdentity} {held middle final : ExtTreeSet String}
  {queue more : List Queued}

theorem append (first : Chain peer held queue middle) (second : Chain peer middle more final) :
    Chain peer held (queue ++ more) final := by
  induction first with
  | nil => exact second
  | gone _ ih => exact .gone (ih second)
  | moved now loses _ ih => exact .moved now loses (ih second)
  | settled now inside loses _ ih => exact .settled now inside loses (ih second)
  | grown now same inside _ ih => exact .grown now same inside (ih second)

theorem union_of_subset (inside : ∀ address ∈ held, address ∈ next) : held ∪ next = next := by
  refine ExtTreeSet.ext_mem fun address => ?_
  rw [ExtTreeSet.mem_union_iff]
  exact ⟨fun either => either.elim (inside address) id, .inr⟩

theorem deliver (chain : Chain peer held (queued :: queue) final) :
    Chain peer (receiveOne held queued.event) queue final := by
  cases chain with
  | gone rest => simpa [receiveOne] using rest
  | moved now loses rest =>
    simp only [receiveOne, loses, Bool.false_eq_true, ↓reduceIte]
    refine .settled now (fun address member => ?_) loses rest
    rw [ExtTreeSet.mem_diff_iff, ExtTreeSet.mem_diff_iff] at member
    by_contra outside
    exact member.2 ⟨member.1, outside⟩
  | settled _ inside _ rest | grown _ _ inside rest =>
    simp only [receiveOne, observed, union_of_subset inside]
    exact rest

theorem deliverAll (chain : Chain peer held (given ++ queue) final) :
    Chain peer (given.foldl (fun held queued => receiveOne held queued.event) held) queue
      final := by
  induction given generalizing held with
  | nil => exact chain
  | cons queued rest ih => exact ih chain.deliver

end Chain

/-- An observation that was queued with the retraction of what it leaves out. -/
def Queued.isHalf (queued : Queued) : Bool :=
  match queued.event, queued.before with
  | .candidateObserved candidate, some told => !(told \ candidate.addresses).isEmpty
  | _, _ => false

theorem Chain.eq_of_nil (chain : Chain peer held [] final) : held = final := by
  cases chain
  rfl

theorem Chain.before_eq {peer : TransportIdentity} {held final : ExtTreeSet String}
    {queued : Queued} (chain : Chain peer held (queued :: queue) final)
    (whole : queued.isHalf = false) :
    queued.before.getD ∅ = held := by
  cases chain with
  | gone | moved => rfl
  | settled _ _ loses => simp [Queued.isHalf, observed, loses] at whole
  | grown _ same => exact same

theorem only_append (peer : TransportIdentity) :
    only peer (first ++ second) = only peer first ++ only peer second :=
  List.filter_append ..

theorem retraction_peer {entries : Table} (peer : TransportIdentity) (addresses : ExtTreeSet String)
    (queued : Queued) (made : retraction entries peer addresses = some queued) :
    queued.peer = some peer := by
  unfold retraction at made
  split at made
  · cases made
    rfl
  · simp only at made
    split at made
    · cases made
    · cases made
      rfl

theorem observation_peer {emitted : Table} {now : Nat} (peer : TransportIdentity)
    (addresses : ExtTreeSet String) (queued : Queued)
    (made : observation emitted now peer addresses = some queued) :
    queued.peer = some peer := by
  unfold observation at made
  split at made
  · cases made
  · cases made
    rfl

theorem only_difference (peer : TransportIdentity) :
    only peer (difference entries emitted now) =
      (emitted[peer]?.bind (retraction entries peer)).toList ++
        (entries[peer]?.bind (observation emitted now peer)).toList := by
  unfold difference only
  rw [List.filter_append, Keyed.filter_eq retraction_peer, Keyed.filter_eq observation_peer]

theorem isEmpty_diff_self {held : ExtTreeSet String} : (held \ held).isEmpty = true := by
  rw [ExtTreeSet.isEmpty_iff]
  refine ExtTreeSet.ext_mem fun address => ?_
  simp

theorem only_difference_same {entries emitted : Table} {now : Nat}
    (same : entries[peer]? = emitted[peer]?) : only peer (difference entries emitted now) = [] := by
  rw [only_difference]
  cases told : emitted[peer]? with
  | none => simp [same, told]
  | some held => simp [retraction, observation, same, told, isEmpty_diff_self]

inductive Change (peer : TransportIdentity) (now : Nat) :
    Option (ExtTreeSet String) → Option (ExtTreeSet String) → List Queued → Prop
  | same (entry : Option (ExtTreeSet String)) : Change peer now entry entry []
  | fresh (next : ExtTreeSet String) :
      Change peer now none (some next) [⟨observed peer next now, none⟩]
  | gone (held : ExtTreeSet String) : Change peer now (some held) none
      [⟨.candidateExpired peer sourceName ∅, some held⟩]
  | moved {held next : ExtTreeSet String} : (held \ next).isEmpty = false →
      Change peer now (some held) (some next)
        [⟨.candidateExpired peer sourceName (held \ next), some held⟩,
          ⟨observed peer next now, some held⟩]
  | grown {held next : ExtTreeSet String} : (∀ address ∈ held, address ∈ next) →
      Change peer now (some held) (some next) [⟨observed peer next now, some held⟩]

theorem change_difference (peer : TransportIdentity) :
    Change peer now emitted[peer]? entries[peer]? (only peer (difference entries emitted now)) := by
  rw [only_difference]
  cases told : emitted[peer]? with
  | none =>
    cases wanted : entries[peer]? with
    | none => exact .same none
    | some next =>
      simp only [Option.bind_none, Option.toList_none, Option.bind_some, observation, told,
        reduceCtorEq, ↓reduceIte, Option.toList_some, List.nil_append]
      exact .fresh next
  | some held =>
    cases wanted : entries[peer]? with
    | none =>
      simp only [Option.bind_some, retraction, wanted, Option.toList_some, Option.bind_none,
        Option.toList_none, List.append_nil]
      exact .gone held
    | some next =>
      simp only [Option.bind_some, retraction, wanted, observation, told, Option.some.injEq]
      by_cases same : held = next
      · subst same
        simp only [isEmpty_diff_self, ↓reduceIte, Option.toList_none, List.append_nil]
        exact .same (some held)
      · simp only [same, ↓reduceIte, Option.toList_some]
        cases loses : (held \ next).isEmpty with
        | true =>
          refine .grown fun address member => ?_
          by_contra outside
          rw [ExtTreeSet.isEmpty_iff] at loses
          have : address ∈ held \ next := ExtTreeSet.mem_diff_iff.mpr ⟨member, outside⟩
          rw [loses] at this
          exact ExtTreeSet.not_mem_empty this
        | false => exact .moved loses

theorem Change.chain {peer : TransportIdentity} {now : Nat}
    {told wanted : Option (ExtTreeSet String)} (change : Change peer now told wanted queue) :
    Chain peer (told.getD ∅) queue (wanted.getD ∅) := by
  cases change with
  | same => exact .nil _
  | fresh next =>
    exact .grown now rfl (fun address member => absurd member ExtTreeSet.not_mem_empty) (.nil next)
  | gone held => exact .gone (.nil ∅)
  | moved loses => exact .moved now loses (.nil _)
  | grown inside => exact .grown now rfl inside (.nil _)

def advanceOne (told : Option (ExtTreeSet String)) (queued : Queued) : Option (ExtTreeSet String) :=
  match queued.event with
  | .candidateObserved candidate => some candidate.addresses
  | .candidateExpired _ _ addresses =>
    if addresses.isEmpty then none
    else told.map fun held => held.filter fun address => address ∉ addresses
  | .healthChanged _ _ => told

theorem advance_get (peer : TransportIdentity) :
    (advance emitted queued)[peer]? =
      if queued.peer = some peer then advanceOne emitted[peer]? queued else emitted[peer]? := by
  obtain ⟨event, before⟩ := queued
  cases event with
  | candidateObserved candidate =>
    simp [advance, advanceOne, Queued.peer, get_insert]
  | candidateExpired owner source addresses =>
    simp only [advance, advanceOne, Queued.peer, Option.some.injEq]
    split
    · exact get_erase _ _ _
    · split
      next held found =>
        rw [get_insert]
        split
        next same => rw [← same, found, Option.map_some]
        · rfl
      next absent =>
        split
        next same => rw [← same, absent, Option.map_none]
        · rfl
  | healthChanged source health => rfl

theorem foldl_advance_get (emitted : Table) (peer : TransportIdentity) :
    (queue.foldl advance emitted)[peer]? = (only peer queue).foldl advanceOne emitted[peer]? := by
  induction queue generalizing emitted with
  | nil => rfl
  | cons queued rest ih =>
    rw [List.foldl_cons, ih, advance_get]
    by_cases own : queued.peer = some peer
    · simp [only, own]
    · simp [only, own]

theorem Change.advanced (change : Change peer now told wanted queue) :
    queue.foldl advanceOne told = wanted := by
  cases change <;> rfl

theorem difference_advanced (peer : TransportIdentity) :
    ((difference entries emitted now).foldl advance emitted)[peer]? = entries[peer]? := by
  rw [foldl_advance_get]
  exact (change_difference entries emitted now peer).advanced

theorem undo_get (peer : TransportIdentity) :
    (undo emitted queued)[peer]? =
      if queued.peer = some peer then queued.before else emitted[peer]? := by
  unfold undo
  split
  next none_named => simp [none_named]
  next owner named =>
    rw [named]
    split
    next held recorded => simp [get_insert, recorded]
    next recorded => simp [get_erase, recorded]

theorem foldl_undo_get (emitted : Table) (peer : TransportIdentity) :
    (dropped.reverse.foldl undo emitted)[peer]? =
      match only peer dropped with
      | [] => emitted[peer]?
      | first :: _ => first.before := by
  induction dropped with
  | nil => rfl
  | cons queued rest ih =>
    rw [List.reverse_cons, List.foldl_append, List.foldl_cons, List.foldl_nil, undo_get]
    by_cases own : queued.peer = some peer
    · simp [only, own]
    · rw [if_neg own, ih]
      simp [only, own]

theorem isHealth_iff : queued.isHealth = true ↔ queued.peer = none := by
  obtain ⟨event, before⟩ := queued
  cases event <;> simp [Queued.isHealth, Queued.peer]

theorem trim_only (excess : Nat) (queue : List Queued) (peer : TransportIdentity) :
    only peer queue = only peer (trim excess queue).1 ++ only peer (trim excess queue).2 := by
  induction queue generalizing excess with
  | nil => cases excess <;> rfl
  | cons queued rest ih =>
    cases excess with
    | zero => rfl
    | succ excess =>
      rw [trim]
      split
      next health =>
        have nobody := (isHealth_iff queued).mp health
        simpa [only, nobody] using ih (excess + 1)
      · by_cases own : queued.peer = some peer
        · simpa [only, own] using ih excess
        · simpa [only, own] using ih excess

theorem trim_length (excess : Nat) (queue : List Queued) :
    (trim excess queue).1.length ≤ excess ∧
      (trim excess queue).1.length + (trim excess queue).2.length = queue.length := by
  induction queue generalizing excess with
  | nil => cases excess <;> simp [trim]
  | cons queued rest ih =>
    cases excess with
    | zero => simp [trim]
    | succ excess =>
      rw [trim]
      split
      · have := ih (excess + 1)
        simp only [List.length_cons]
        omega
      · have := ih excess
        simp only [List.length_cons]
        omega

def CleanTrim (queue : List Queued) : Prop :=
  ∀ peer first rest,
    only peer (trim (queue.length - maxPendingEvents) queue).1 = first :: rest →
    only peer (trim (queue.length - maxPendingEvents) queue).2 = [] ∧ first.isHalf = false

/-- How many events a configuration is away from what was told: one for every peer that was told
of an address it no longer has, and one for every peer that has other addresses than it was
told. -/
def owed (entries emitted : Table) : Nat :=
  (emitted.toList.countP fun entry =>
    !entries[entry.1]?.any fun kept => (entry.2 \ kept).isEmpty) +
  entries.toList.countP fun entry => emitted[entry.1]? ≠ some entry.2

/-- The queue has room for what a configuration asks for. Or it is over its bound by as many events
as stand at its front, of peers that have nothing else queued and are configured as they were
told, and of none of which the oldest event has lost its retraction to a drain. -/
def CleanReload (provider : StaticBootstrapDiscovery) (entries : Table) : Prop :=
  provider.pending.length + owed entries provider.emitted ≤ maxPendingEvents ∨
  ∃ cut ≤ provider.pending.length,
    (provider.pending.take cut).countP (fun queued => !queued.isHealth) + maxPendingEvents =
      provider.pending.length + owed entries provider.emitted ∧
    ∀ queued ∈ provider.pending.take cut, ∀ peer ∈ queued.peer,
      only peer (provider.pending.drop cut) = [] ∧
      entries[peer]? = provider.emitted[peer]? ∧
      ∀ first ∈ (only peer (provider.pending.take cut)).head?, first.isHalf = false

def CleanCall (provider : StaticBootstrapDiscovery) : Call → Prop
  | .setEntries entries _ => entries.length ≤ maxEntries → CleanReload provider (group entries)
  | .drain _ _ => CleanReload provider provider.entries

theorem CleanTrim.of_length (few : queue.length ≤ maxPendingEvents) : CleanTrim queue := by
  intro peer first rest dropped
  have none_dropped := (trim_length (queue.length - maxPendingEvents) queue).1
  rw [Nat.sub_eq_zero_of_le few] at none_dropped dropped
  rw [List.length_eq_zero_iff.mp (Nat.le_zero.mp none_dropped)] at dropped
  cases dropped

theorem difference_length : (difference entries emitted now).length = owed entries emitted := by
  rw [difference, List.length_append, List.length_filterMap_eq_countP,
    List.length_filterMap_eq_countP, owed]
  congr 1
  · refine List.countP_congr fun entry _ => ?_
    unfold retraction
    cases entries[entry.1]? with
    | none => simp
    | some kept => by_cases none_lost : (entry.2 \ kept).isEmpty = true <;> simp [none_lost]
  · refine List.countP_congr fun entry _ => ?_
    by_cases same : emitted[entry.1]? = some entry.2 <;> simp [observation, same]

theorem trim_append (old more : List Queued) :
    trim (old.countP fun queued => !queued.isHealth) (old ++ more) =
      (old.filter fun queued => !queued.isHealth, old.filter Queued.isHealth ++ more) := by
  induction old with
  | nil => cases more <;> rfl
  | cons queued rest ih =>
    by_cases health : queued.isHealth = true
    · cases left : rest.countP fun queued => !queued.isHealth with
      | zero =>
        have others : ∀ other ∈ rest, other.isHealth = true := by
          simpa using List.countP_eq_zero.mp left
        have kept : rest.filter Queued.isHealth = rest := List.filter_eq_self.mpr others
        have gone : rest.filter (fun queued => !queued.isHealth) = [] := by
          simpa using others
        simp [health, left, trim, kept, gone]
      | succ count =>
        rw [left] at ih
        simp [health, left, trim, ih]
    · simp [health, trim, ih]

theorem only_filter_told (queue : List Queued) (peer : TransportIdentity) :
    only peer (queue.filter fun queued => !queued.isHealth) = only peer queue ∧
      only peer (queue.filter Queued.isHealth) = [] := by
  unfold only
  rw [List.filter_filter, List.filter_filter]
  constructor
  · refine List.filter_congr fun queued _ => ?_
    have named := isHealth_iff queued
    cases health : queued.isHealth <;> simp_all
  · refine List.filter_eq_nil_iff.mpr fun queued _ => ?_
    have named := isHealth_iff queued
    cases health : queued.isHealth <;> simp_all

theorem CleanReload.trim {provider : StaticBootstrapDiscovery} {entries : Table}
    (clean : CleanReload provider entries) :
    CleanTrim (provider.pending ++ difference entries provider.emitted now) := by
  rcases clean with few | ⟨cut, -, excess, alone⟩
  · refine CleanTrim.of_length ?_
    rwa [List.length_append, difference_length]
  intro peer first rest dropped
  have size : (provider.pending ++ difference entries provider.emitted now).length -
      maxPendingEvents = (provider.pending.take cut).countP fun queued => !queued.isHealth := by
    rw [List.length_append, difference_length]
    omega
  have parts : provider.pending ++ difference entries provider.emitted now =
      provider.pending.take cut ++
        (provider.pending.drop cut ++ difference entries provider.emitted now) := by
    rw [← List.append_assoc, List.take_append_drop]
  rw [size, parts, trim_append] at dropped ⊢
  obtain ⟨told, silent⟩ := only_filter_told (provider.pending.take cut) peer
  rw [told] at dropped
  have among : first ∈ only peer (provider.pending.take cut) := dropped ▸ List.mem_cons_self
  obtain ⟨listed, own⟩ := List.mem_filter.mp among
  obtain ⟨none_left, same, whole⟩ := alone first listed peer (of_decide_eq_true own)
  refine ⟨?_, whole first (by rw [dropped]; rfl)⟩
  rw [only_append, silent, only_append, none_left, only_difference_same same]
  rfl

structure Tells (run : Run) : Prop where
  running : run.provider.started = true ∧ run.provider.stopped = false
  chains : ∀ peer, Chain peer (run.view peer) (only peer run.provider.pending)
    (run.provider.emitted[peer]?.getD ∅)

variable {run : Run} {provider : StaticBootstrapDiscovery} {view : View}

theorem Tells.enforce (tells : Tells ⟨provider, view⟩) (clean : CleanTrim provider.pending) :
    Tells ⟨provider.enforcePendingBound, view⟩ := by
  unfold StaticBootstrapDiscovery.enforcePendingBound
  split
  · exact tells
  · refine ⟨tells.running, fun peer => ?_⟩
    have chain := tells.chains peer
    rw [trim_only (provider.pending.length - maxPendingEvents)] at chain
    simp only [foldl_undo_get]
    cases droppedEq : only peer
        (trim (provider.pending.length - maxPendingEvents) provider.pending).1 with
    | nil =>
      rw [droppedEq, List.nil_append] at chain
      exact chain
    | cons first rest =>
      obtain ⟨all, whole⟩ := clean peer first rest droppedEq
      rw [droppedEq, List.cons_append] at chain
      rw [all]
      simp only
      rw [chain.before_eq whole]
      exact .nil _

theorem Tells.refresh (tells : Tells ⟨provider, view⟩) {now : Nat}
    (clean : CleanTrim (provider.pending ++ difference provider.entries provider.emitted now)) :
    Tells ⟨provider.refresh now, view⟩ := by
  unfold StaticBootstrapDiscovery.refresh
  refine Tells.enforce ⟨tells.running, fun peer => ?_⟩ clean
  simp only [only_append, difference_advanced]
  exact (tells.chains peer).append
    (change_difference provider.entries provider.emitted now peer).chain

theorem receive_get (queued : Queued) (peer : TransportIdentity) :
    view.receive queued.event peer =
      if queued.peer = some peer then receiveOne (view peer) queued.event else view peer := by
  obtain ⟨event, before⟩ := queued
  cases event with
  | candidateObserved | candidateExpired =>
    simp only [View.receive, View.set, Queued.peer, Option.some.injEq, receiveOne]
    split
    next same => rw [← same]
    · rfl
  | healthChanged source health => rfl

theorem foldl_receive_get (peer : TransportIdentity) :
    (given.map Queued.event).foldl View.receive view peer =
      (only peer given).foldl (fun held queued => receiveOne held queued.event) (view peer) := by
  induction given generalizing view with
  | nil => rfl
  | cons queued rest ih =>
    rw [List.map_cons, List.foldl_cons, ih, receive_get]
    by_cases own : queued.peer = some peer
    · simp [only, own]
    · simp [only, own]

theorem Tells.hand (tells : Tells ⟨provider, view⟩) (max : Nat) :
    Tells ⟨{ provider with pending := provider.pending.drop max },
      ((provider.pending.take max).map Queued.event).foldl View.receive view⟩ := by
  refine ⟨tells.running, fun peer => ?_⟩
  have chain := tells.chains peer
  simp only [foldl_receive_get]
  rw [← List.take_append_drop max provider.pending, only_append] at chain
  exact chain.deliverAll

theorem Tells.step (tells : Tells run) (call : Call) (clean : CleanCall run.provider call) :
    Tells (run.step call) := by
  obtain ⟨provider, view⟩ := run
  have started : provider.started = true := tells.running.1
  have stopped : provider.stopped = false := tells.running.2
  cases call with
  | setEntries entries now =>
    simp only [Run.step, StaticBootstrapDiscovery.setEntries, StaticBootstrapDiscovery.new]
    by_cases many : entries.length > maxEntries
    · simp only [many, ↓reduceIte]
      exact tells
    · have live : provider.started = true ∧ ¬provider.stopped = true := by
        simp [started, stopped]
      simp only [many, ↓reduceIte, if_pos live]
      have replaced : Tells ⟨{ provider with entries := group entries }, view⟩ :=
        ⟨tells.running, tells.chains⟩
      exact replaced.refresh (CleanReload.trim now (clean (Nat.le_of_not_lt many)))
  | drain now max =>
    have live : ¬(¬provider.started = true ∨ provider.stopped = true) := by
      simp [started, stopped]
    simp only [Run.step, StaticBootstrapDiscovery.drainEvents, if_neg live]
    exact (tells.refresh (CleanReload.trim now clean)).hand max

theorem group_size (entries : List StaticEntry) : (group entries).size ≤ entries.length := by
  unfold group
  induction entries using List.reverseRecOn with
  | nil => simp
  | append_singleton entries entry ih =>
    rw [List.foldl_append, List.length_append]
    exact ExtTreeMap.size_insert_le.trans (Nat.add_le_add_right ih 1)

theorem difference_empty_length : (difference entries ∅ now).length ≤ entries.size := by
  have nobody : (∅ : Table).toList = [] := ExtTreeMap.toList_eq_nil_iff.mpr rfl
  unfold difference
  rw [nobody, List.filterMap_nil, List.nil_append, ← ExtTreeMap.length_toList]
  exact List.length_filterMap_le _ _

def healthy : Queued := ⟨.healthChanged sourceName .healthy, none⟩

theorem Tells.start {entries : List StaticEntry}
    (built : StaticBootstrapDiscovery.new entries = .ok provider) (now : Nat) :
    Tells (Run.start provider now) := by
  unfold StaticBootstrapDiscovery.new at built
  split at built
  · cases built
  next few =>
    cases built
    have begun : Tells
        { provider := { entries := group entries, started := true, pending := [healthy] }
          view := fun _ => ∅ } := by
      refine ⟨⟨rfl, rfl⟩, fun peer => ?_⟩
      simpa [only, Queued.peer, healthy] using Chain.nil ∅
    have clean : CleanTrim ([healthy] ++ difference (group entries) ∅ now) := by
      refine CleanTrim.of_length ?_
      have short := difference_empty_length (group entries) now
      have grouped := (group_size entries).trans (Nat.le_of_not_lt few)
      have bound : 1 + maxEntries ≤ maxPendingEvents := by decide
      rw [List.length_append, List.length_singleton]
      exact (Nat.add_le_add_left (short.trans grouped) 1).trans bound
    have refreshed := begun.refresh clean
    simp only [Run.start, StaticBootstrapDiscovery.start, Bool.false_eq_true, ↓reduceIte,
      List.nil_append]
    exact refreshed

namespace Run

def Clean (run : Run) : List Call → Prop
  | [] => True
  | call :: later => CleanCall run.provider call ∧ (run.step call).Clean later

theorem after_tells (tells : Tells run) (clean : run.Clean calls) : Tells (run.after calls) := by
  induction calls generalizing run with
  | nil => exact tells
  | cons call later ih => exact ih (tells.step call clean.1) clean.2

end Run

theorem drained_settled (tells : Tells ⟨provider, view⟩) {now max : Nat} (room : 0 < max)
    (nothing : (provider.drainEvents now max).2 = []) (peer : TransportIdentity) :
    provider.emitted[peer]? = provider.entries[peer]? ∧ provider.pending = [] := by
  have live : ¬(¬provider.started = true ∨ provider.stopped = true) := by
    have started : provider.started = true := tells.running.1
    have stopped : provider.stopped = false := tells.running.2
    simp [started, stopped]
  simp only [StaticBootstrapDiscovery.drainEvents, if_neg live, List.map_eq_nil_iff,
    List.take_eq_nil_iff, Nat.ne_of_gt room, false_or] at nothing
  unfold StaticBootstrapDiscovery.refresh StaticBootstrapDiscovery.enforcePendingBound at nothing
  simp only at nothing
  split at nothing
  · have empty := List.append_eq_nil_iff.mp nothing
    have told := difference_advanced provider.entries provider.emitted now peer
    rw [empty.2] at told
    exact ⟨told, empty.1⟩
  next long =>
    -- A trimmed queue is exactly as long as the bound.
    have lengths := trim_length
      ((provider.pending ++ difference provider.entries provider.emitted now).length -
        maxPendingEvents) (provider.pending ++ difference provider.entries provider.emitted now)
    have none_kept : (trim ((provider.pending ++ difference provider.entries provider.emitted
        now).length - maxPendingEvents) (provider.pending ++ difference provider.entries
        provider.emitted now)).2 = [] := nothing
    rw [none_kept, List.length_nil] at lengths
    have excess : ¬(provider.pending ++
      difference provider.entries provider.emitted now).length ≤ maxPendingEvents := long
    have positive : 0 < maxPendingEvents := by decide
    omega

/-- Once a drain returns nothing the consumer's view is the configuration, if the bound never
split a peer. -/
theorem drained_view_is_configuration (entries : List StaticEntry)
    (provider : StaticBootstrapDiscovery)
    (built : StaticBootstrapDiscovery.new entries = .ok provider) (started : Nat)
    (calls : List Call) (clean : (Run.start provider started).Clean calls) (now max : Nat)
    (room : 0 < max)
    (nothing : (((Run.start provider started).after calls).provider.drainEvents now max).2 = []) :
    ∀ peer, ((Run.start provider started).after calls).view peer =
      ((Run.start provider started).after calls).provider.entries[peer]?.getD ∅ := by
  intro peer
  have tells := Run.after_tells (Tells.start built started) clean
  generalize (Run.start provider started).after calls = run at tells nothing ⊢
  obtain ⟨settled, empty⟩ := drained_settled tells room nothing peer
  have chain := tells.chains peer
  rw [empty, settled] at chain
  exact chain.eq_of_nil

instance CleanReload.decides {provider : StaticBootstrapDiscovery} {entries : Table} :
    Decidable (CleanReload provider entries) := by
  unfold CleanReload
  infer_instance

instance CleanCall.decides {provider : StaticBootstrapDiscovery} :
    (call : Call) → Decidable (CleanCall provider call)
  | .setEntries entries _ =>
    inferInstanceAs (Decidable (entries.length ≤ maxEntries → CleanReload provider (group entries)))
  | .drain _ _ => inferInstanceAs (Decidable (CleanReload provider provider.entries))

instance Run.Clean.decides : (run : Run) → (calls : List Call) → Decidable (run.Clean calls)
  | _, [] => isTrue trivial
  | run, call :: later =>
    have := Run.Clean.decides (run.step call) later
    inferInstanceAs (Decidable (CleanCall run.provider call ∧ (run.step call).Clean later))

def backAndForth (count : Nat) : List String :=
  (List.range count).map fun hop => if hop % 2 = 0 then "b" else "a"

def atHome : StaticBootstrapDiscovery :=
  { entries := group [⟨.numbered 0, "a"⟩] }

def joined (address : String) : Call :=
  .setEntries [⟨.numbered 0, "a"⟩, ⟨.numbered 1, address⟩] 0

/-- A peer joins another, moves back and forth and drives the other's only event out of the queue,
and the configuration lets go of the other before anything is drained. -/
def displacing : List Call :=
  joined "a" :: (backAndForth 62).map joined ++
    [joined "d", .setEntries [⟨.numbered 1, "d"⟩] 0, .drain 0 200]

/-- The one event of a peer is lost and rolled back, and the view still ends as configured. -/
theorem drained_view_is_configuration_sample :
    ((Run.start atHome 0).after (displacing.take 64)).provider.emitted[TransportIdentity.numbered
      0]? = none ∧
    ((Run.start atHome 0).after displacing).view (.numbered 0) = ∅ ∧
    ((Run.start atHome 0).after displacing).view (.numbered 1) = {"d"} := by
  have settled := drained_view_is_configuration [⟨.numbered 0, "a"⟩] atHome rfl 0 displacing
    (by decide +kernel) 0 8 (by decide) (by decide +kernel)
  refine ⟨by decide +kernel, ?_, ?_⟩
  · rw [settled]
    decide +kernel
  · rw [settled]
    decide +kernel

/-- A peer moves back and forth until the queue is full, then to a third address, whose reload
drops the oldest events, and is taken out of the configuration. -/
def churn : List Call :=
  (backAndForth 63 ++ ["d"]).map (fun address => .setEntries [⟨.numbered 0, address⟩] 0) ++
    [.setEntries [] 0, .drain 0 200]

/-- The address is never taken back from the consumer. -/
theorem split_drop_keeps_address : StaticBootstrapDiscovery.new [⟨.numbered 0, "a"⟩] = .ok atHome ∧
    (((Run.start atHome 0).after churn).provider.drainEvents 0 200).2 = [] ∧
    ((Run.start atHome 0).after churn).provider.entries[TransportIdentity.numbered 0]? = none ∧
    "d" ∈ ((Run.start atHome 0).after churn).view (.numbered 0) :=
  ⟨rfl, by decide +kernel, by decide +kernel, by decide +kernel⟩

end InterWeave.StaticBootstrap
